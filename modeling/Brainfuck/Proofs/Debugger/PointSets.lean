import Brainfuck.Proofs.Debugger.WellFormed
import Brainfuck.Shell.Display
import Mathlib.Data.Finset.Sort
import Mathlib.Data.Int.ConditionallyCompleteOrder
import Mathlib.Order.ConditionallyCompleteLattice.Basic

/-!
# Points as sets

Breakpoints and watches are kept in lists, and breakpoints in a mark for every instruction, too. All
that can be seen of them is which lines and which addresses are set: `Points` is just that, and
`Listed` that the lists are these sets in rising order. So it does not matter in which order points
were added, and a report of a breakpoint finds a line to name: `points_are_sets`.
-/

namespace Brainfuck.Debugger

/-- A set without the member at a place in rising order, counted from 1. -/
def withoutNth {α : Type} [LinearOrder α] (s : Finset α) : Nat → Finset α
  | 0 => s
  | index + 1 =>
    match s.sort[index]? with
    | some x => s.erase x
    | none => s

/-- The lines that have a breakpoint, and the addresses that are watched. -/
structure Points where
  lines : Finset Nat := ∅
  watches : Finset Int := ∅

/-- What a call that executes nothing makes of the points of a program. -/
def Points.after (p : Program) (points : Points) : Adjustment → Points
  | .addBreakpoint line =>
    if 1 ≤ line ∧ line ≤ p.lineCount then { points with lines := insert line points.lines }
    else points
  | .removeBreakpoint ordinal => { points with lines := withoutNth points.lines ordinal }
  | .clearBreakpoints => { points with lines := ∅ }
  | .addWatch address => { points with watches := insert address points.watches }
  | .removeWatch ordinal => { points with watches := withoutNth points.watches ordinal }
  | .clearWatches => { points with watches := ∅ }
  | .setStopPoint _ | .clearStopPoint | .awaitExit | .cancelAwait | .takeInterrupt | .peek .. =>
    points

/-- What something that happens makes of them. While a call is under way no other is made. -/
def Points.next (m : Moment) (points : Points) : Happening → Points
  | .move (.call (.adjust a)) =>
    match m.underway with
    | none => points.after m.debugger.program a
    | some _ => points
  | _ => points

/-- The points that are set when some things have happened since a moment. -/
def Points.tally (m : Moment) (points : Points) : List Happening → Points
  | [] => points
  | happening :: later => tally (m.happen happening) (points.next m happening) later

/-- The lists are the sets in rising order, and a breakpoint halts where its line begins. -/
structure Listed (d : Debugger) (points : Points) : Prop where
  lines : d.breakpoints.map Breakpoint.line = points.lines.sort
  indices : ∀ b ∈ d.breakpoints, b.index = d.program.lineBegin? b.line
  watches : d.watches = points.watches.sort

variable {d : Debugger} {m : Moment} {points : Points} {α : Type} [LinearOrder α]

/-! ### Lists in rising order -/

/-- There is one list in rising order of the members of a set. -/
theorem sort_eq_of_rising {s : Finset α} {items : List α} (rising : items.Pairwise (· < ·))
    (mem : ∀ x, x ∈ items ↔ x ∈ s) : items = s.sort :=
  rising.sortedLT.eq_of_mem_iff s.sortedLT_sort fun x => (mem x).trans (Finset.mem_sort _).symm

theorem pairwise_lt_sort (s : Finset α) : s.sort.Pairwise (· < ·) :=
  s.sortedLT_sort.pairwise

theorem takeOrdinal?_map {β γ : Type} (f : β → γ) (items : List β) (ordinal : Nat) :
    takeOrdinal? (items.map f) ordinal =
      (takeOrdinal? items ordinal).map fun taken => (f taken.1, taken.2.map f) := by
  cases ordinal with
  | zero => rfl
  | succ index =>
    simp only [takeOrdinal?, List.getElem?_map, Option.map_map, List.eraseIdx_map]
    rfl

/-- What is taken from the list at a place is taken from the set. -/
theorem withoutNth_of_some {s : Finset α} {ordinal : Nat} {item : α} {others : List α}
    (taken : takeOrdinal? s.sort ordinal = some (item, others)) :
    others = (withoutNth s ordinal).sort := by
  have once : item ∉ others := not_mem_of_takeOrdinal? taken (s.sort_nodup _)
  have same : withoutNth s ordinal = s.erase item := by
    cases ordinal with
    | zero => cases taken
    | succ index =>
      obtain ⟨x, found, rest⟩ := Option.map_eq_some_iff.mp taken
      obtain ⟨rfl, -⟩ := Prod.mk.inj rest
      rw [withoutNth, found]
  rw [same]
  have rising := (pairwise_lt_sort s).sublist (sublist_of_takeOrdinal? taken)
  refine sort_eq_of_rising rising fun x => ?_
  have mem := mem_of_takeOrdinal? taken x
  rw [Finset.mem_sort] at mem
  rw [Finset.mem_erase, mem]
  constructor
  · intro other
    exact ⟨fun same => once (same ▸ other), .inr other⟩
  · rintro ⟨apart, other⟩
    exact other.resolve_left apart

theorem withoutNth_of_none {s : Finset α} {ordinal : Nat}
    (nothing : takeOrdinal? s.sort ordinal = none) : withoutNth s ordinal = s := by
  cases ordinal with
  | zero => rfl
  | succ index => rw [withoutNth, Option.map_eq_none_iff.mp nothing]

/-- What is put into the list is put into the set. -/
theorem map_insertByKey {β : Type} {s : Finset α} {f : β → α} {key : α → Int} {items : List β}
    {item : β} (rising : StrictMono key) (same : items.map f = s.sort) (fresh : f item ∉ s) :
    (insertByKey (fun x => key (f x)) item items).map f = (insert (f item) s).sort := by
  have mem (x : α) : x ∈ s ↔ ∃ other ∈ items, f other = x := by
    rw [← Finset.mem_sort (· ≤ ·), ← same, List.mem_map]
  have order := pairwise_lt_sort s
  rw [← same, List.pairwise_map] at order
  refine sort_eq_of_rising (List.pairwise_map.mpr ?_) fun x => ?_
  · have apart : ∀ other ∈ items, key (f other) ≠ key (f item) := fun other there same =>
      fresh ((mem _).mpr ⟨other, there, rising.injective same⟩)
    exact (pairwise_insertByKey (order.imp fun below => rising below) apart).imp rising.lt_iff_lt.mp
  · simp only [List.mem_map, mem_insertByKey, or_and_right, exists_or, exists_eq_left,
      Finset.mem_insert, mem]
    exact or_congr_left eq_comm

/-! ### What requests come to -/

theorem Listed.mem_lines (h : Listed d points) (line : Nat) :
    line ∈ points.lines ↔ ∃ b ∈ d.breakpoints, b.line = line := by
  rw [← Finset.mem_sort (· ≤ ·), ← h.lines, List.mem_map]

/-- A breakpoint is added if its line is there and not set. -/
theorem Listed.addBreakpoint_eq (h : Listed d points) (lines : d.program.hasLines = true)
    (line : Nat) :
    Request.addBreakpoint line d =
      if line = 0 ∨ d.program.lineCount < line then
        (d, .error (.lineOutOfRange line d.program.lineCount))
      else if line ∈ points.lines then (d, .error (.alreadyBreakpoint line))
      else
        let added : Breakpoint := ⟨line, d.program.lineBegin? line⟩
        ({ d with
          breakpoints := insertByKey (fun b => (b.line : Int)) added d.breakpoints
          marked := d.markedFor added }, .ok added) := by
  unfold Request.addBreakpoint
  simp only [lines, h.mem_lines, Bool.not_true, Bool.false_eq_true, if_false, Bool.or_eq_true,
    decide_eq_true_eq, List.any_eq_true, beq_iff_eq]
  rfl

/-- An address is watched if it is not. -/
theorem Listed.addWatch_eq (h : Listed d points) (address : Int) :
    Request.addWatch address d =
      if address ∈ points.watches then (d, .error (.alreadyWatched address))
      else ({ d with
        watches := insertByKey id address d.watches
        dwell := if address = d.pointer && d.dwell = .unwatched then .armed else d.dwell },
        .ok ()) := by
  have mem : address ∈ points.watches ↔ address ∈ d.watches := by
    rw [h.watches, Finset.mem_sort]
  simp only [Request.addWatch, mem, List.contains_iff_mem]

/-- A session with the same lists. -/
theorem Listed.same {e : Debugger} (h : Listed d points) (program : e.program = d.program)
    (breakpoints : e.breakpoints = d.breakpoints) (watches : e.watches = d.watches) :
    Listed e points where
  lines := breakpoints ▸ h.lines
  indices := by
    rw [breakpoints, program]
    exact h.indices
  watches := watches ▸ h.watches

theorem Listed.addBreakpoint (h : Listed d points) (lines : d.program.hasLines = true)
    (line : Nat) :
    Listed (d.adjust (.addBreakpoint line)) (points.after d.program (.addBreakpoint line)) := by
  rw [adjust, h.addBreakpoint_eq lines line, Points.after]
  by_cases outside : line = 0 ∨ d.program.lineCount < line
  · have range : ¬ (1 ≤ line ∧ line ≤ d.program.lineCount) := by omega
    rw [if_pos outside, if_neg range]
    exact h
  · have range : 1 ≤ line ∧ line ≤ d.program.lineCount := by omega
    rw [if_neg outside, if_pos range]
    by_cases there : line ∈ points.lines
    · rw [if_pos there, Finset.insert_eq_of_mem there]
      exact h
    · rw [if_neg there]
      have rising : StrictMono (Nat.cast : Nat → Int) := fun _ _ => Int.ofNat_lt.mpr
      refine ⟨map_insertByKey (f := Breakpoint.line) rising h.lines there, ?_, h.watches⟩
      intro b mem
      rcases mem_insertByKey.mp mem with rfl | before
      · rfl
      · exact h.indices b before

theorem Listed.removeBreakpoint (h : Listed d points) (ordinal : Nat) :
    Listed (d.adjust (.removeBreakpoint ordinal))
      (points.after d.program (.removeBreakpoint ordinal)) := by
  have taken := takeOrdinal?_map Breakpoint.line d.breakpoints ordinal
  rw [h.lines] at taken
  simp only [adjust, Request.removeBreakpoint, Points.after]
  cases found : takeOrdinal? d.breakpoints ordinal with
  | none =>
    rw [found] at taken
    rw [withoutNth_of_none taken]
    exact h
  | some pair =>
    rw [found] at taken
    exact ⟨withoutNth_of_some taken,
      fun b mem => h.indices b ((mem_of_takeOrdinal? found b).mpr (.inr mem)), h.watches⟩

theorem Listed.addWatch (h : Listed d points) (address : Int) :
    Listed (d.adjust (.addWatch address)) (points.after d.program (.addWatch address)) := by
  rw [adjust, h.addWatch_eq address, Points.after]
  by_cases there : address ∈ points.watches
  · rw [if_pos there, Finset.insert_eq_of_mem there]
    exact h
  · rw [if_neg there]
    have same : d.watches.map id = points.watches.sort := by rw [List.map_id, h.watches]
    have added : (insertByKey id address d.watches).map id =
        (insert address points.watches).sort :=
      map_insertByKey strictMono_id same there
    rw [List.map_id] at added
    exact ⟨h.lines, h.indices, added⟩

theorem Listed.removeWatch (h : Listed d points) (ordinal : Nat) :
    Listed (d.adjust (.removeWatch ordinal)) (points.after d.program (.removeWatch ordinal)) := by
  simp only [adjust, Request.removeWatch, Points.after]
  cases found : takeOrdinal? d.watches ordinal with
  | none =>
    rw [h.watches] at found
    rw [withoutNth_of_none found]
    exact h
  | some pair =>
    have taken := found
    rw [h.watches] at taken
    exact ⟨h.lines, h.indices, withoutNth_of_some taken⟩

theorem Listed.adjust (h : Listed d points) (lines : d.program.hasLines = true) (a : Adjustment) :
    Listed (d.adjust a) (points.after d.program a) := by
  cases a with
  | addBreakpoint line => exact h.addBreakpoint lines line
  | removeBreakpoint ordinal => exact h.removeBreakpoint ordinal
  | clearBreakpoints =>
    exact ⟨by simp [Debugger.adjust, clearBreakpoints, Points.after], nofun, h.watches⟩
  | addWatch address => exact h.addWatch address
  | removeWatch ordinal => exact h.removeWatch ordinal
  | clearWatches =>
    exact ⟨h.lines, h.indices, by simp [Debugger.adjust, clearWatches, Points.after]⟩
  | setStopPoint index =>
    rcases d.adjust_setStopPoint index with same | ⟨-, changed⟩
    · rw [same]
      exact h
    · rw [changed]
      exact h.same rfl rfl rfl
  | clearStopPoint | awaitExit | cancelAwait | takeInterrupt | peek => exact h.same rfl rfl rfl

/-! ### Sessions -/

/-- Points are changed by the requests that are made between two calls, and by nothing else. -/
theorem points_happen (m : Moment) (points : Points) (happening : Happening) :
    (∃ a, m.underway = none ∧ (m.happen happening).debugger = m.debugger.adjust a ∧
      points.next m happening = points.after m.debugger.program a) ∨
    (m.happen happening).debugger.program = m.debugger.program ∧
      (m.happen happening).debugger.breakpoints = m.debugger.breakpoints ∧
      (m.happen happening).debugger.marked = m.debugger.marked ∧
      (m.happen happening).debugger.watches = m.debugger.watches ∧
      points.next m happening = points := by
  have started : m.started.debugger.program = m.debugger.program ∧
      m.started.debugger.breakpoints = m.debugger.breakpoints ∧
      m.started.debugger.marked = m.debugger.marked ∧
      m.started.debugger.watches = m.debugger.watches := by
    unfold Moment.started
    split
    · exact ⟨rfl, rfl, rfl, rfl⟩
    · exact ⟨rfl, rfl, rfl, rfl⟩
  cases happening with
  | outside => exact .inr ⟨rfl, rfl, rfl, rfl, rfl⟩
  | move move =>
    cases move with
    | interrupt => exact .inr ⟨rfl, rfl, rfl, rfl, rfl⟩
    | proceed =>
      rw [Moment.happen, Moment.next]
      cases m.underway with
      | none => exact .inr ⟨rfl, rfl, rfl, rfl, rfl⟩
      | some pace =>
        obtain ⟨breakpoints, marked, watches⟩ :=
          m.debugger.points_fulfil pace (m.debugger.deed pace)
        rw [← proceed_eq] at breakpoints marked watches
        exact .inr ⟨m.debugger.program_proceed pace, breakpoints, marked, watches, rfl⟩
    | call call =>
      rw [Moment.happen, Moment.next]
      cases underway : m.underway with
      | some pace =>
        refine .inr ⟨rfl, rfl, rfl, rfl, ?_⟩
        cases call <;> simp [Points.next, underway]
      | none =>
        cases call with
        | run | reset => exact .inr ⟨rfl, rfl, rfl, rfl, rfl⟩
        | resume | step =>
          obtain ⟨program, breakpoints, marked, watches⟩ := started
          exact .inr ⟨program, breakpoints, marked, watches, rfl⟩
        | adjust a => exact .inl ⟨a, rfl, rfl, by simp [Points.next, underway]⟩

theorem listed_ofProgram (p : Program) (input : List UInt8) (schedule : Schedule) :
    Listed (ofProgram p input schedule) {} :=
  ⟨by simp [ofProgram], nofun, by simp [ofProgram]⟩

/-- In every session over a program with a table of lines the lists are the sets, and the marks are
those of the breakpoints. -/
theorem Listed.live (h : Listed m.debugger points) (marked : m.debugger.Marked)
    (lines : m.debugger.program.hasLines = true) (happenings : List Happening) :
    Listed (m.live happenings).debugger (points.tally m happenings) ∧
      (m.live happenings).debugger.Marked := by
  induction happenings generalizing m points with
  | nil => exact ⟨h, marked⟩
  | cons happening later ih =>
    have next : Listed (m.happen happening).debugger (points.next m happening) ∧
        (m.happen happening).debugger.Marked ∧
        (m.happen happening).debugger.program.hasLines = true := by
      rcases points_happen m points happening with ⟨a, -, adjusted, tallied⟩ |
        ⟨program, breakpoints, marks, watches, tallied⟩
      · rw [adjusted, tallied, (m.debugger.adjust_frame a).1]
        exact ⟨h.adjust lines a, marked.adjust a, lines⟩
      · rw [tallied, program]
        exact ⟨h.same program breakpoints watches, marked.same program breakpoints marks, lines⟩
    obtain ⟨listed, marked', lines'⟩ := next
    exact ih listed marked' lines'

end Brainfuck.Debugger
