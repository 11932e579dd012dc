import Brainfuck.Proofs.Debugger.PointSets

/-!
# What is asked of points and said of them

Requests are answered, numbers are given and breakpoints are named as if there were only the sets of
lines and addresses. `points_are_sets` says so of every session over a program with a table of
lines.
-/

namespace Brainfuck.Debugger

/-- A request that adds a point. -/
def Adjustment.isAddition : Adjustment → Bool
  | .addBreakpoint _ | .addWatch _ => true
  | _ => false

/-- A request that is refused. -/
def Refuses (d : Debugger) (fault : Fault) : Adjustment → Prop
  | .addBreakpoint line => (Request.addBreakpoint line d).2 = .error fault
  | .removeBreakpoint ordinal => (Request.removeBreakpoint ordinal d).2 = .error fault
  | .addWatch address => (Request.addWatch address d).2 = .error fault
  | .removeWatch ordinal => (Request.removeWatch ordinal d).2 = .error fault
  | .setStopPoint index => (Request.setStopPoint index d).2 = .error fault
  | .clearBreakpoints | .clearWatches | .clearStopPoint | .awaitExit | .cancelAwait | .takeInterrupt
  | .peek .. => False

/-- The line is none of the program. -/
def LineOutside (p : Program) (line : Nat) : Prop :=
  line = 0 ∨ p.lineCount < line

/-- A session in which all that matters of its points is which lines and addresses are set. -/
structure ActsAsSets (d : Debugger) (points : Points) : Prop where
  breakpoints : d.breakpoints = points.lines.sort.map fun line => ⟨line, d.program.lineBegin? line⟩
  watches : d.watches = points.watches.sort
  rising : d.breakpoints.Pairwise (·.line < ·.line) ∧ d.watches.Pairwise (· < ·)
  marks : ∀ index, d.marked[index]?.getD false = true ↔ ∃ b ∈ d.breakpoints, b.index = some index
  addBreakpoint : ∀ line,
    (d.addBreakpoint line = .error (.lineOutOfRange line d.program.lineCount) ↔
      LineOutside d.program line) ∧
    (d.addBreakpoint line = .error (.alreadyBreakpoint line) ↔
      ¬ LineOutside d.program line ∧ line ∈ points.lines) ∧
    ((∃ e, d.addBreakpoint line = .ok (e, ⟨line, d.program.lineBegin? line⟩)) ↔
      ¬ LineOutside d.program line ∧ line ∉ points.lines)
  addWatch : ∀ address,
    (d.addWatch address = .error (.alreadyWatched address) ↔ address ∈ points.watches) ∧
    ((∃ e, d.addWatch address = .ok e) ↔ address ∉ points.watches)
  /-- A new one goes where a search for it ends: behind all lesser ones and before all greater. -/
  inserted : ∀ line e b before after, d.addBreakpoint line = .ok (e, b) →
    d.breakpoints = before ++ after → (∀ x ∈ before, x.line < line) → (∀ x ∈ after, line < x.line) →
    e.breakpoints = before ++ b :: after
  insertedWatch : ∀ address e before after, d.addWatch address = .ok e →
    d.watches = before ++ after → (∀ x ∈ before, x < address) → (∀ x ∈ after, address < x) →
    e.watches = before ++ address :: after
  /-- The breakpoint that is listed under a number is removed by it. -/
  removeBreakpoint : ∀ index b, d.breakpoints[index]? = some b →
    (d.breakpoints.mapIdx Shell.breakpointRow)[index]? = some (toString (index + 1) ++ "\t" ++
      toString b.line ++ "\t" ++ (b.index.map toString).getD "- (inert)") ∧
    ∃ e, d.removeBreakpoint (index + 1) = .ok (e, b) ∧ e.breakpoints = d.breakpoints.eraseIdx index
  removeWatch : ∀ index address, d.watches[index]? = some address →
    (d.watches.mapIdx Shell.watchRow)[index]? =
      some (toString (index + 1) ++ "\t" ++ toString address) ∧
    ∃ e, d.removeWatch (index + 1) = .ok (e, address) ∧ e.watches = d.watches.eraseIdx index
  /-- There is nothing to remove under any other number. -/
  noBreakpoint : ∀ ordinal,
    d.removeBreakpoint ordinal =
        .error (.ordinalOutOfRange .breakpoint ordinal d.breakpoints.length) ↔
      ordinal = 0 ∨ d.breakpoints.length < ordinal
  noWatch : ∀ ordinal,
    d.removeWatch ordinal = .error (.ordinalOutOfRange .watchpoint ordinal d.watches.length) ↔
      ordinal = 0 ∨ d.watches.length < ordinal
  refused : ∀ fault a, d.Refuses fault a → d.adjust a = d
  /-- Points can be added in any order. -/
  order : ∀ more other : List Adjustment, (∀ a ∈ more, a.isAddition = true) → more.Perm other →
    (more.foldl adjust d).breakpoints = (other.foldl adjust d).breakpoints ∧
      (more.foldl adjust d).watches = (other.foldl adjust d).watches
  /-- A report names the first line that has a breakpoint there. -/
  reported : ∀ pace index, (d.proceed pace).2 = some (.paused (.breakpoint index)) →
    index = (d.proceed pace).1.machine.pc ∧
    ∃ line, IsLeast {line | line ∈ points.lines ∧ d.program.lineBegin? line = some index} line ∧
      Shell.describe (d.proceed pace).1.breakpoints (.breakpoint index) =
        "Hit breakpoint at line " ++ toString line

variable {d : Debugger} {points : Points}

theorem Listed.breakpoints_eq (h : Listed d points) :
    d.breakpoints = points.lines.sort.map fun line => ⟨line, d.program.lineBegin? line⟩ := by
  rw [← h.lines, List.map_map]
  conv_lhs => rw [← List.map_id d.breakpoints]
  refine List.map_congr_left fun b mem => ?_
  have index := h.indices b mem
  simp [← index]

theorem Listed.rising (h : Listed d points) : d.breakpoints.Pairwise (·.line < ·.line) := by
  rw [← List.pairwise_map (f := Breakpoint.line), h.lines]
  exact pairwise_lt_sort points.lines

/-! ### Requests -/

theorem Listed.addBreakpoint_iff (h : Listed d points) (lines : d.program.hasLines = true)
    (line : Nat) :
    (d.addBreakpoint line = .error (.lineOutOfRange line d.program.lineCount) ↔
      LineOutside d.program line) ∧
    (d.addBreakpoint line = .error (.alreadyBreakpoint line) ↔
      ¬ LineOutside d.program line ∧ line ∈ points.lines) ∧
    ((∃ e, d.addBreakpoint line = .ok (e, ⟨line, d.program.lineBegin? line⟩)) ↔
      ¬ LineOutside d.program line ∧ line ∉ points.lines) := by
  simp only [Debugger.addBreakpoint, Request.granted_eq_ok_iff, Request.granted_eq_error_iff,
    h.addBreakpoint_eq lines line]
  by_cases outside : line = 0 ∨ d.program.lineCount < line
  · have outside' : LineOutside d.program line := outside
    simp [outside, outside']
  · have inside : ¬ LineOutside d.program line := outside
    by_cases there : line ∈ points.lines <;> simp [outside, inside, there]

theorem Listed.addWatch_iff (h : Listed d points) (address : Int) :
    (d.addWatch address = .error (.alreadyWatched address) ↔ address ∈ points.watches) ∧
    ((∃ e, d.addWatch address = .ok e) ↔ address ∉ points.watches) := by
  simp only [Debugger.addWatch, Request.granted, h.addWatch_eq address]
  by_cases there : address ∈ points.watches <;> simp [there, Except.map]

theorem insertByKey_append {α : Type} {key : α → Int} {item : α} {before after : List α}
    (below : ∀ x ∈ before, key x < key item) (above : ∀ x ∈ after, key item < key x) :
    insertByKey key item (before ++ after) = before ++ item :: after := by
  induction before with
  | nil =>
    cases after with
    | nil => rfl
    | cons first rest =>
      have first := Int.not_lt.mpr (Int.le_of_lt (above first List.mem_cons_self))
      rw [List.nil_append, insertByKey, if_neg first, List.nil_append]
  | cons first rest ih =>
    obtain ⟨here, others⟩ := List.forall_mem_cons.mp below
    rw [List.cons_append, insertByKey, if_pos here, ih others, List.cons_append]

/-- What is added goes between lesser and greater ones. -/
theorem breakpoints_of_added {line : Nat} {e : Debugger} {b : Breakpoint}
    {before after : List Breakpoint} (added : d.addBreakpoint line = .ok (e, b))
    (split : d.breakpoints = before ++ after) (below : ∀ x ∈ before, x.line < line)
    (above : ∀ x ∈ after, line < x.line) : e.breakpoints = before ++ b :: after := by
  obtain ⟨-, -, -, same⟩ := d.addBreakpoint_eq_ok_iff.mp added
  obtain ⟨rfl, rfl⟩ := Prod.mk.inj same
  simp only [split]
  exact insertByKey_append (fun x mem => Int.ofNat_lt.mpr (below x mem))
    fun x mem => Int.ofNat_lt.mpr (above x mem)

theorem watches_of_added {address : Int} {e : Debugger} {before after : List Int}
    (added : d.addWatch address = .ok e) (split : d.watches = before ++ after)
    (below : ∀ x ∈ before, x < address) (above : ∀ x ∈ after, address < x) :
    e.watches = before ++ address :: after := by
  simp only [Debugger.addWatch, Request.granted, Request.addWatch] at added
  split at added
  · cases added
  · cases added
    simp only [split]
    exact insertByKey_append below above

theorem takeOrdinal?_eq_none_iff {α : Type} {items : List α} {ordinal : Nat} :
    takeOrdinal? items ordinal = none ↔ ordinal = 0 ∨ items.length < ordinal := by
  cases ordinal with
  | zero => simp [takeOrdinal?]
  | succ index =>
    rw [takeOrdinal?, Option.map_eq_none_iff, List.getElem?_eq_none_iff]
    omega

theorem takeOrdinal?_succ {α : Type} {items : List α} {index : Nat} {item : α}
    (found : items[index]? = some item) :
    takeOrdinal? items (index + 1) = some (item, items.eraseIdx index) := by
  rw [takeOrdinal?, found, Option.map_some]

theorem removeBreakpoint_eq_error_iff (d : Debugger) (ordinal : Nat) :
    d.removeBreakpoint ordinal =
        .error (.ordinalOutOfRange .breakpoint ordinal d.breakpoints.length) ↔
      ordinal = 0 ∨ d.breakpoints.length < ordinal := by
  rw [← takeOrdinal?_eq_none_iff, Debugger.removeBreakpoint, Request.granted_eq_error_iff,
    Request.removeBreakpoint]
  cases takeOrdinal? d.breakpoints ordinal <;> simp

theorem removeWatch_eq_error_iff (d : Debugger) (ordinal : Nat) :
    d.removeWatch ordinal = .error (.ordinalOutOfRange .watchpoint ordinal d.watches.length) ↔
      ordinal = 0 ∨ d.watches.length < ordinal := by
  rw [← takeOrdinal?_eq_none_iff, Debugger.removeWatch, Request.granted_eq_error_iff,
    Request.removeWatch]
  cases takeOrdinal? d.watches ordinal <;> simp

/-- Nothing that can be refused changes the session before its last check. -/
theorem adjust_of_refuses {fault : Fault} {a : Adjustment} (refused : d.Refuses fault a) :
    d.adjust a = d := by
  cases a with
  | addBreakpoint line => exact Request.atomic_addBreakpoint line d fault refused
  | removeBreakpoint ordinal => exact Request.atomic_removeBreakpoint ordinal d fault refused
  | addWatch address => exact Request.atomic_addWatch address d fault refused
  | removeWatch ordinal => exact Request.atomic_removeWatch ordinal d fault refused
  | setStopPoint index => exact Request.atomic_setStopPoint index d fault refused
  | clearBreakpoints | clearWatches | clearStopPoint | awaitExit | cancelAwait | takeInterrupt
  | peek => cases refused

/-! ### The order of additions -/

theorem Points.after_comm (p : Program) {a b : Adjustment} (adds : a.isAddition = true)
    (adds' : b.isAddition = true) (points : Points) :
    (points.after p a).after p b = (points.after p b).after p a := by
  cases a with
  | addBreakpoint line =>
    cases b with
    | addBreakpoint line' =>
      by_cases inside : 1 ≤ line ∧ line ≤ p.lineCount <;>
        by_cases inside' : 1 ≤ line' ∧ line' ≤ p.lineCount <;>
        simp [Points.after, inside, inside', Finset.insert_comm]
    | addWatch => by_cases inside : 1 ≤ line ∧ line ≤ p.lineCount <;> simp [Points.after, inside]
    | _ => cases adds'
  | addWatch address =>
    cases b with
    | addBreakpoint line =>
      by_cases inside : 1 ≤ line ∧ line ≤ p.lineCount <;> simp [Points.after, inside]
    | addWatch => simp [Points.after, Finset.insert_comm]
    | _ => cases adds'
  | _ => cases adds

theorem Listed.foldl_adjust (h : Listed d points) (lines : d.program.hasLines = true)
    (more : List Adjustment) :
    Listed (more.foldl Debugger.adjust d) (more.foldl (Points.after d.program) points) ∧
      (more.foldl Debugger.adjust d).program = d.program := by
  induction more generalizing d points with
  | nil => exact ⟨h, rfl⟩
  | cons a more ih =>
    have program := (d.adjust_frame a).1
    obtain ⟨listed, program'⟩ := ih (h.adjust lines a) (by rw [program, lines])
    rw [program] at listed program'
    exact ⟨listed, program'⟩

theorem Listed.order (h : Listed d points) (lines : d.program.hasLines = true)
    {more other : List Adjustment} (adds : ∀ a ∈ more, a.isAddition = true)
    (perm : more.Perm other) :
    (more.foldl Debugger.adjust d).breakpoints = (other.foldl Debugger.adjust d).breakpoints ∧
      (more.foldl Debugger.adjust d).watches = (other.foldl Debugger.adjust d).watches := by
  obtain ⟨first, program⟩ := h.foldl_adjust lines more
  obtain ⟨second, program'⟩ := h.foldl_adjust lines other
  have same : more.foldl (Points.after d.program) points =
      other.foldl (Points.after d.program) points :=
    perm.foldl_eq' (fun a mem b mem' points =>
      Points.after_comm d.program (adds a mem) (adds b mem') points) points
  rw [first.breakpoints_eq, second.breakpoints_eq, first.watches, second.watches, same, program,
    program']
  exact ⟨rfl, rfl⟩

/-! ### Reports -/

/-- The first breakpoint in the list that halts at an instruction is the one with the least line. -/
theorem Listed.describe_eq (h : Listed d points) {index : Nat} (has : d.HasBreakpoint index) :
    ∃ line, IsLeast {line | line ∈ points.lines ∧ d.program.lineBegin? line = some index} line ∧
      Shell.describe d.breakpoints (.breakpoint index) =
        "Hit breakpoint at line " ++ toString line := by
  obtain ⟨b', mem', there'⟩ := has
  obtain ⟨b, found⟩ : ∃ b, d.breakpoints.find? (·.index == some index) = some b :=
    Option.isSome_iff_exists.mp (List.find?_isSome.mpr ⟨b', mem', by simp [there']⟩)
  obtain ⟨there, before, after, split, others⟩ := List.find?_eq_some_iff_append.mp found
  have mem : b ∈ d.breakpoints := List.mem_of_find?_eq_some found
  refine ⟨b.line, ⟨⟨(h.mem_lines b.line).mpr ⟨b, mem, rfl⟩, ?_⟩, ?_⟩, ?_⟩
  · rw [← h.indices b mem]
    simpa using there
  · -- A breakpoint on a lesser line would stand before this one, and halt elsewhere.
    rintro line ⟨set, begins⟩
    obtain ⟨other, mem, rfl⟩ := (h.mem_lines line).mp set
    rw [← h.indices other mem] at begins
    have rising := h.rising
    rw [split] at mem rising
    obtain ⟨-, behind, -⟩ := List.pairwise_append.mp rising
    rcases List.mem_append.mp mem with earlier | here
    · have apart := others other earlier
      simp [begins] at apart
    · rcases List.mem_cons.mp here with rfl | later
      · exact le_rfl
      · exact Nat.le_of_lt ((List.pairwise_cons.mp behind).1 other later)
  · unfold Shell.describe
    simp only [found]

/-- A pause for a breakpoint is made at one of those that are set, and changes none of them. -/
theorem Listed.reported (h : Listed d points) (marked : d.Marked) {pace : Pace} {index : Nat}
    (pause : (d.proceed pace).2 = some (.paused (.breakpoint index))) :
    index = (d.proceed pace).1.machine.pc ∧
    ∃ line, IsLeast {line | line ∈ points.lines ∧ d.program.lineBegin? line = some index} line ∧
      Shell.describe (d.proceed pace).1.breakpoints (.breakpoint index) =
        "Hit breakpoint at line " ++ toString line := by
  have deed := (outcome_eq_hold_iff (by simp)).mp pause
  have found := d.found_deed pace
  rw [deed] at found
  obtain ⟨breakpoints, -, -⟩ := d.points_fulfil pace (d.deed pace)
  rw [proceed_eq, breakpoints, deed, machine_fulfil]
  cases found with
  | breakpoint i here _ breaks =>
    exact ⟨rfl, h.describe_eq ((marked.breaks_iff here).mp breaks).1⟩

/-! ### Sessions -/

theorem InOrder.marks_iff (h : d.InOrder) (marked : d.Marked) (index : Nat) :
    d.marked[index]?.getD false = true ↔ ∃ b ∈ d.breakpoints, b.index = some index := by
  by_cases inside : index < d.program.size
  · exact marked.marks index inside
  · have outside : d.marked[index]? = none := by
      rw [Array.getElem?_eq_none_iff, h.marks]
      omega
    rw [outside]
    refine iff_of_false (by simp) ?_
    rintro ⟨b, mem, there⟩
    exact inside (h.breakpoints b mem index there)

theorem hasLines_of_ofSource {source : String} {p : Program}
    (h : Program.ofSource true source = .ok p) : p.hasLines = true := by
  obtain ⟨chunks, -, -, -, table⟩ := exists_chunks_of_ofSource h
  simp [Program.hasLines, table]

/-- In every session over a program with a table of lines, breakpoints and watches act as the sets
of lines and addresses that have been set and not been removed since. -/
theorem points_are_sets {source : String} {p : Program}
    (accepted : Program.ofSource true source = .ok p) (input : List UInt8) (schedule : Schedule)
    (happenings : List Happening) :
    let start : Moment := { debugger := ofProgram p input schedule }
    let d := (start.live happenings).debugger
    d.program = p ∧ ActsAsSets d (Points.tally start {} happenings) := by
  intro start d
  have lines : p.hasLines = true := hasLines_of_ofSource accepted
  have wellFormed : WellFormed start := wellFormed_ofProgram p input schedule
  obtain ⟨wellFormed, program⟩ := wellFormed.live (inRange_of_ofSource accepted) happenings
  obtain ⟨listed, marked⟩ := (listed_ofProgram p input schedule).live (m := start)
    (marked_ofProgram p input schedule) lines happenings
  have program : d.program = p := program
  have lines : d.program.hasLines = true := program ▸ lines
  refine ⟨program, ?_⟩
  constructor
  case breakpoints => exact listed.breakpoints_eq
  case watches => exact listed.watches
  case rising => exact ⟨listed.rising, listed.watches ▸ pairwise_lt_sort _⟩
  case marks => exact wellFormed.inOrder.marks_iff marked
  case addBreakpoint => exact listed.addBreakpoint_iff lines
  case addWatch => exact listed.addWatch_iff
  case inserted => exact fun line e b before after => breakpoints_of_added
  case insertedWatch => exact fun address e before after => watches_of_added
  case removeBreakpoint =>
    intro index b found
    refine ⟨?_, ?_⟩
    · rw [List.getElem?_mapIdx, found]
      rfl
    · simp [removeBreakpoint, Request.granted_eq_ok_iff, Request.removeBreakpoint,
        takeOrdinal?_succ found]
  case removeWatch =>
    intro index address found
    refine ⟨?_, ?_⟩
    · rw [List.getElem?_mapIdx, found]
      rfl
    · simp [removeWatch, Request.granted_eq_ok_iff, Request.removeWatch, takeOrdinal?_succ found]
  case noBreakpoint => exact d.removeBreakpoint_eq_error_iff
  case noWatch => exact d.removeWatch_eq_error_iff
  case refused => exact fun fault a => adjust_of_refuses
  case order => exact fun more other => listed.order lines
  case reported => exact fun pace index => listed.reported marked

/-- Two lines share the second instruction. The breakpoint on the lesser of them is the first in the
list, though it was added last, and it is the one that is reported. -/
theorem shared_instruction_is_named_by_least_line :
    let p : Program :=
      ⟨#[⟨.increment, 1⟩, ⟨.output, 1⟩], some #[some 0, some 1, some 1], 3, #[]⟩
    let start : Moment := { debugger := ofProgram p [] {} }
    let happenings : List Happening := [.move (.call (.adjust (.addBreakpoint 3))),
      .move (.call (.adjust (.addWatch 5))), .move (.call (.adjust (.addBreakpoint 2))),
      .move (.call .run), .move .proceed]
    let d := (start.live happenings).debugger
    Program.ofSource true "+\n \n." = .ok p ∧
      (Points.tally start {} happenings).lines = {2, 3} ∧
      ActsAsSets d (Points.tally start {} happenings) ∧
      d.breakpoints = [⟨2, some 1⟩, ⟨3, some 1⟩] ∧
      Shell.describe (d.proceed .running).1.breakpoints (.breakpoint 1) =
        "Hit breakpoint at line 2" := by
  intro p start happenings d
  have accepted : Program.ofSource true "+\n \n." = .ok p := by cbv
  have sets : ActsAsSets d (Points.tally start {} happenings) :=
    (points_are_sets accepted [] {} happenings).2
  have paused : (d.proceed .running).2 = some (.paused (.breakpoint 1)) := by decide +kernel
  obtain ⟨-, line, least, named⟩ := sets.reported .running 1 paused
  have lines : (Points.tally start {} happenings).lines = {2, 3} := by decide +kernel
  obtain rfl : line = 2 := by
    have set : line ∈ (Points.tally start {} happenings).lines := least.1.1
    have le : line ≤ 2 := least.2 ⟨by rw [lines]; decide, rfl⟩
    simp only [lines, Finset.mem_insert, Finset.mem_singleton] at set
    omega
  exact ⟨accepted, lines, sets, by decide +kernel, named⟩

end Brainfuck.Debugger
