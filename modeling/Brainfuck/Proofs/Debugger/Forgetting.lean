import Brainfuck.Proofs.Debugger.PointSets
import Brainfuck.Proofs.Debugger.Preceded
import Brainfuck.Proofs.Debugger.Stopping

/-!
# A new run knows nothing of the old ones

Of all that has happened in a session, only its points, what is left of its input and the interrupt
are still there when it is set back. `pointRequests` says what has to be asked of a new session so
that it has the same points. Asked in any order, this makes a session that behaves like the old one
from its next run on: `run_forgets_history`.
-/

namespace Brainfuck.Debugger

/-- What has to be asked of a new session for the points of this one. -/
def pointRequests (d : Debugger) : List Adjustment :=
  d.breakpoints.map (fun b => .addBreakpoint b.line) ++ d.watches.map .addWatch ++
    d.stopPoint.toList.map .setStopPoint

/-- A session over the same program that has just been created, with the input that is left and the
interrupt as it is. -/
def anew (d : Debugger) : Debugger :=
  { ofProgram d.program d.machine.input d.signal.schedule with signal := d.signal }

/-- A session with the points of another one. -/
def withPointsOf (d e : Debugger) : Debugger :=
  { d with
    breakpoints := e.breakpoints
    marked := e.marked
    watches := e.watches
    stopPoint := e.stopPoint }

/-- The lists of points are in order, and each point is one that can be asked for. -/
structure Requestable (d : Debugger) : Prop where
  rising : d.breakpoints.Pairwise (·.line < ·.line)
  lines : ∀ b ∈ d.breakpoints,
    d.program.hasLines = true ∧ (1 ≤ b.line ∧ b.line ≤ d.program.lineCount) ∧
      b = ⟨b.line, d.program.lineBegin? b.line⟩
  marked : d.Marked
  watches : d.watches.Pairwise (· < ·)
  stopPoint : ∀ index, d.stopPoint = some index → index < d.program.size

variable {d e : Debugger} {a b : Adjustment}

theorem mem_pointRequests : b ∈ d.pointRequests ↔
    (∃ x ∈ d.breakpoints, b = .addBreakpoint x.line) ∨
      (∃ address ∈ d.watches, b = .addWatch address) ∨
      ∃ index, d.stopPoint = some index ∧ b = .setStopPoint index := by
  simp [pointRequests, eq_comm]

/-! ### Every session has points that can be asked for -/

/-- A session with the same points, but for a stop point that may be gone. -/
theorem Requestable.same (h : d.Requestable) (program : e.program = d.program)
    (breakpoints : e.breakpoints = d.breakpoints) (marked : e.marked = d.marked)
    (watches : e.watches = d.watches)
    (stopPoint : ∀ index, e.stopPoint = some index → index < d.program.size) : e.Requestable where
  rising := breakpoints ▸ h.rising
  lines := by
    rw [breakpoints, program]
    exact h.lines
  marked := h.marked.same program breakpoints marked
  watches := watches ▸ h.watches
  stopPoint := program ▸ stopPoint

theorem Requestable.adjust (h : d.Requestable) (a : Adjustment) : (d.adjust a).Requestable := by
  have marked := h.marked.adjust a
  cases a with
  | addBreakpoint line =>
    rw [Debugger.adjust] at marked ⊢
    rcases asked : Request.addBreakpoint line d with ⟨e, fault | added⟩
    · have same := Request.atomic_addBreakpoint line d fault (congrArg Prod.snd asked)
      rw [asked] at same
      exact same ▸ h
    · obtain ⟨lines, inside, fresh, changed⟩ :=
        d.addBreakpoint_eq_ok_iff.mp (Request.granted_eq_ok_iff.mpr asked)
      obtain ⟨rfl, rfl⟩ := Prod.mk.inj changed
      rw [asked] at marked
      refine ⟨?_, ?_, marked, h.watches, h.stopPoint⟩
      · have rising := h.rising.imp fun below => Int.ofNat_lt.mpr below
        refine (pairwise_insertByKey rising fun x mem => ?_).imp Int.ofNat_lt.mp
        exact fun same => fresh x mem (Int.ofNat_inj.mp same)
      · intro x mem
        rcases mem_insertByKey.mp mem with rfl | before
        · exact ⟨lines, inside, rfl⟩
        · exact h.lines x before
  | removeBreakpoint ordinal =>
    rcases d.adjust_removeBreakpoint ordinal with same | ⟨removed, others, taken, changed⟩
    · rw [same]
      exact h
    · rw [changed] at marked ⊢
      exact ⟨h.rising.sublist (sublist_of_takeOrdinal? taken),
        fun x mem => h.lines x ((mem_of_takeOrdinal? taken x).mpr (.inr mem)), marked, h.watches,
        h.stopPoint⟩
  | clearBreakpoints =>
    exact ⟨.nil, fun _ mem => absurd mem List.not_mem_nil, marked, h.watches, h.stopPoint⟩
  | addWatch address =>
    rcases d.adjust_addWatch address with same | ⟨fresh, changed⟩
    · rw [same]
      exact h
    · rw [changed] at marked ⊢
      refine ⟨h.rising, h.lines, marked, ?_, h.stopPoint⟩
      exact pairwise_insertByKey h.watches fun x mem same => fresh (same ▸ mem)
  | removeWatch ordinal =>
    rcases d.adjust_removeWatch ordinal with same | ⟨address, others, taken, changed⟩
    · rw [same]
      exact h
    · rw [changed] at marked ⊢
      exact ⟨h.rising, h.lines, marked, h.watches.sublist (sublist_of_takeOrdinal? taken),
        h.stopPoint⟩
  | clearWatches => exact ⟨h.rising, h.lines, marked, .nil, h.stopPoint⟩
  | setStopPoint index =>
    rcases d.adjust_setStopPoint index with same | ⟨inside, changed⟩
    · rw [same]
      exact h
    · rw [changed]
      refine h.same rfl rfl rfl rfl ?_
      rintro _ ⟨⟩
      exact inside
  | clearStopPoint => exact h.same rfl rfl rfl rfl fun _ there => by cases there
  | awaitExit | cancelAwait | takeInterrupt | peek => exact h.same rfl rfl rfl rfl h.stopPoint

theorem Requestable.proceed (h : d.Requestable) (pace : Pace) :
    (d.proceed pace).1.Requestable := by
  rw [proceed_eq]
  obtain ⟨breakpoints, marked, watches⟩ := d.points_fulfil pace (d.deed pace)
  refine h.same (d.program_fulfil pace _) breakpoints marked watches fun index there => ?_
  rw [stopPoint_fulfil] at there
  split at there
  · cases there
  · exact h.stopPoint index there

theorem Requestable.reset (h : d.Requestable) : d.reset.Requestable :=
  h.same rfl rfl rfl rfl h.stopPoint

theorem requestable_ofProgram (p : Program) (input : List UInt8) (schedule : Schedule) :
    (ofProgram p input schedule).Requestable :=
  ⟨.nil, nofun, marked_ofProgram p input schedule, .nil, nofun⟩

theorem Requestable.live {m : Moment} (h : m.debugger.Requestable) (happenings : List Happening) :
    (m.live happenings).debugger.Requestable := by
  induction happenings generalizing m with
  | nil => exact h
  | cons happening later ih =>
    refine ih ?_
    have passes := m.passes_happen happening
    generalize m.happen happening = after at passes
    cases passes with
    | turn pace on => exact h.proceed pace
    | setBack call => exact h.reset
    | goOn call => exact h
    | adjust a => exact h.adjust a
    | busy call => exact h
    | unbegun => exact h
    | interrupt => exact h.same rfl rfl rfl rfl h.stopPoint
    | outside => exact h.same rfl rfl rfl rfl h.stopPoint

/-! ### Asking for points -/

/-- A line with a breakpoint somewhere can be given one in another session over the program. -/
theorem Requestable.mem_addBreakpoint (h : d.Requestable) (program : e.program = d.program)
    {x : Breakpoint} (mem : x ∈ d.breakpoints) :
    b ∈ (e.adjust (.addBreakpoint x.line)).pointRequests ↔
      b = .addBreakpoint x.line ∨ b ∈ e.pointRequests := by
  by_cases there : ∃ y ∈ e.breakpoints, y.line = x.line
  · obtain ⟨y, set, same⟩ := there
    have before : .addBreakpoint x.line ∈ e.pointRequests :=
      mem_pointRequests.mpr (.inl ⟨y, set, by rw [same]⟩)
    have refused : e.adjust (.addBreakpoint x.line) = e := by
      rcases e.adjust_addBreakpoint x.line with unchanged | ⟨_, rfl, fresh, -⟩
      · exact unchanged
      · exact absurd same (fresh y set)
    rw [refused]
    refine ⟨.inr, ?_⟩
    rintro (rfl | other)
    · exact before
    · exact other
  · push Not at there
    obtain ⟨lines, inside, -⟩ := h.lines x mem
    rw [← program] at lines inside
    have added := Request.granted_eq_ok_iff.mp
      (e.addBreakpoint_eq_ok_iff.mpr ⟨lines, inside, there, rfl⟩)
    simp only [Debugger.adjust, added, mem_pointRequests, mem_insertByKey, or_and_right, exists_or,
      exists_eq_left, or_assoc]

theorem mem_addWatch (address : Int) :
    b ∈ (e.adjust (.addWatch address)).pointRequests ↔
      b = .addWatch address ∨ b ∈ e.pointRequests := by
  by_cases there : address ∈ e.watches
  · have before : .addWatch address ∈ e.pointRequests :=
      mem_pointRequests.mpr (.inr (.inl ⟨address, there, rfl⟩))
    have refused : e.adjust (.addWatch address) = e := by
      rcases e.adjust_addWatch address with unchanged | ⟨fresh, -⟩
      · exact unchanged
      · exact absurd there fresh
    rw [refused]
    refine ⟨.inr, ?_⟩
    rintro (rfl | other)
    · exact before
    · exact other
  · simp only [Debugger.adjust, Request.addWatch, List.contains_iff_mem, if_neg there,
      mem_pointRequests, mem_insertByKey, or_and_right, exists_or, exists_eq_left, or_assoc]
    exact or_left_comm

/-- A point that can be asked for is there when it has been, and no other has come or gone. -/
theorem Requestable.mem_adjust (h : d.Requestable) (program : e.program = d.program)
    (within : ∀ x ∈ e.pointRequests, x ∈ d.pointRequests) (asked : a ∈ d.pointRequests) :
    b ∈ (e.adjust a).pointRequests ↔ b = a ∨ b ∈ e.pointRequests := by
  rcases mem_pointRequests.mp asked with ⟨x, mem, rfl⟩ | ⟨address, -, rfl⟩ | ⟨index, there, rfl⟩
  · exact h.mem_addBreakpoint program mem
  · exact mem_addWatch address
  · have inside : index < e.program.size := program ▸ h.stopPoint index there
    -- There is one stop point to ask for, so that none is replaced by another.
    have replaced (j : Nat) (set : e.stopPoint = some j) : j = index := by
      have mem := within _ (mem_pointRequests.mpr (.inr (.inr ⟨j, set, rfl⟩)))
      simpa [mem_pointRequests, there, eq_comm] using mem
    simp only [Debugger.adjust, Request.setStopPoint, if_pos inside, mem_pointRequests,
      Option.some_inj, exists_eq_left']
    constructor
    · rintro (line | watch | rfl)
      · exact .inr (.inl line)
      · exact .inr (.inr (.inl watch))
      · exact .inl rfl
    · rintro (rfl | line | watch | ⟨j, set, rfl⟩)
      · exact .inr (.inr rfl)
      · exact .inl line
      · exact .inr (.inl watch)
      · exact .inr (.inr (by rw [replaced j set]))

/-- A request for a point touches nothing but points while nobody has looked for a watch. -/
theorem withPointsOf_adjust (unchecked : e.dwell = .unchecked) (asked : a ∈ d.pointRequests) :
    e.withPointsOf (e.adjust a) = e.adjust a := by
  rcases mem_pointRequests.mp asked with ⟨x, -, rfl⟩ | ⟨address, -, rfl⟩ | ⟨index, -, rfl⟩
  · rcases e.adjust_addBreakpoint x.line with same | ⟨_, _, _, changed⟩
    · rw [same]
      rfl
    · rw [changed]
      rfl
  · rcases e.adjust_addWatch address with same | ⟨_, changed⟩
    · rw [same]
      rfl
    · rw [changed]
      simp [withPointsOf, unchecked]
  · rcases e.adjust_setStopPoint index with same | ⟨_, changed⟩
    · rw [same]
      rfl
    · rw [changed]
      rfl

/-- What has been asked for is there, and all else is as it was. -/
theorem Requestable.foldl_adjust (h : d.Requestable) {requests : List Adjustment}
    (asked : ∀ a ∈ requests, a ∈ d.pointRequests) (e : Debugger) (program : e.program = d.program)
    (points : e.Requestable) (unchecked : e.dwell = .unchecked)
    (within : ∀ x ∈ e.pointRequests, x ∈ d.pointRequests) :
    let after := requests.foldl Debugger.adjust e
    after.Requestable ∧ (∀ b, b ∈ after.pointRequests ↔ b ∈ requests ∨ b ∈ e.pointRequests) ∧
      e.withPointsOf after = after := by
  induction requests generalizing e with
  | nil => exact ⟨points, by simp, rfl⟩
  | cons a later ih =>
    obtain ⟨first, others⟩ := List.forall_mem_cons.mp asked
    have mem (b : Adjustment) : b ∈ (e.adjust a).pointRequests ↔ b = a ∨ b ∈ e.pointRequests :=
      h.mem_adjust program within first
    have changed : e.withPointsOf (e.adjust a) = e.adjust a := withPointsOf_adjust unchecked first
    have within' : ∀ x ∈ (e.adjust a).pointRequests, x ∈ d.pointRequests := by
      intro x there
      rcases (mem x).mp there with rfl | before
      · exact first
      · exact within x before
    have unchecked' : (e.adjust a).dwell = .unchecked := by
      rw [← changed]
      exact unchecked
    obtain ⟨points', mem', changed'⟩ := ih others (e.adjust a)
      ((e.adjust_frame a).1.trans program) (points.adjust a) unchecked' within'
    refine ⟨points', fun b => ?_, ?_⟩
    · rw [List.foldl_cons, mem' b, mem b, List.mem_cons]
      tauto
    · -- The points of the session in between do not matter.
      calc e.withPointsOf ((a :: later).foldl Debugger.adjust e)
          = (e.withPointsOf (e.adjust a)).withPointsOf (later.foldl Debugger.adjust (e.adjust a)) :=
            rfl
        _ = later.foldl Debugger.adjust (e.adjust a) := by rw [changed, changed']

theorem Requestable.breakpoints_eq (h : d.Requestable) :
    d.breakpoints =
      (d.breakpoints.map Breakpoint.line).map fun line => ⟨line, d.program.lineBegin? line⟩ := by
  rw [List.map_map]
  conv_lhs => rw [← List.map_id d.breakpoints]
  exact List.map_congr_left fun b mem => (h.lines b mem).2.2

/-- Sessions over one program for which the same points are asked have the same points. -/
theorem Requestable.unique (h : d.Requestable) (h' : e.Requestable)
    (program : e.program = d.program)
    (same : ∀ a, a ∈ e.pointRequests ↔ a ∈ d.pointRequests) (other : Debugger) :
    other.withPointsOf e = other.withPointsOf d := by
  have breakpoints : e.breakpoints = d.breakpoints := by
    rw [h.breakpoints_eq, h'.breakpoints_eq, program]
    refine congrArg (List.map _) ?_
    refine (List.pairwise_map.mpr h'.rising).sortedLT.eq_of_mem_iff
      (List.pairwise_map.mpr h.rising).sortedLT fun line => ?_
    simpa [mem_pointRequests, eq_comm] using same (.addBreakpoint line)
  have marked : e.marked = d.marked := by
    have size : e.marked.size = d.marked.size := by rw [h'.marked.size, h.marked.size, program]
    refine Array.ext size fun index inside inside' => ?_
    have there : index < d.program.size := h.marked.size ▸ inside'
    have here := h'.marked.marks index (program ▸ there)
    have marks := h.marked.marks index there
    simp only [HasBreakpoint, breakpoints] at here marks
    have iff := here.trans marks.symm
    rw [Bool.eq_iff_iff]
    simpa [inside, inside'] using iff
  have watches : e.watches = d.watches := by
    refine h'.watches.sortedLT.eq_of_mem_iff h.watches.sortedLT fun address => ?_
    simpa [mem_pointRequests] using same (.addWatch address)
  have stopPoint : e.stopPoint = d.stopPoint := by
    refine Option.ext fun index => ?_
    simpa [mem_pointRequests] using same (.setStopPoint index)
  simp only [withPointsOf, breakpoints, marked, watches, stopPoint]

/-! ### Setting back -/

/-- A session that is set back is a new one with the same points, but for the output that it has
behind it. A new one is set back already. -/
theorem Requestable.reset_eq (h : d.Requestable) {requests : List Adjustment}
    (same : ∀ a, a ∈ requests ↔ a ∈ d.pointRequests) :
    let fresh := requests.foldl Debugger.adjust d.anew
    d.reset = fresh.preceded d.machine.output ∧ fresh.reset = fresh ∧ fresh.phase = .idle := by
  intro fresh
  have none (a : Adjustment) : a ∉ d.anew.pointRequests := by simp [pointRequests, anew, ofProgram]
  have new : d.anew.Requestable :=
    (requestable_ofProgram d.program d.machine.input d.signal.schedule).same rfl rfl rfl rfl
      fun _ there => by cases there
  obtain ⟨points, mem, changed⟩ := h.foldl_adjust (fun a => (same a).mp) d.anew rfl new rfl
    fun x there => absurd there (none x)
  have asked (a : Adjustment) : a ∈ fresh.pointRequests ↔ a ∈ d.pointRequests := by
    rw [mem a, same a, or_iff_left (none a)]
  have program : fresh.program = d.program := (congrArg Debugger.program changed).symm
  have there : fresh = d.anew.withPointsOf d := changed.symm.trans (h.unique points program asked _)
  rw [there]
  refine ⟨?_, rfl, rfl⟩
  simp [Debugger.reset, Machine.restart, preceded, Machine.preceded, withPointsOf, anew, ofProgram]

/-- A call that sets the session back begins with a reset. -/
theorem next_of_setsBack {m : Moment} {call : Call} (returned : m.underway = none)
    (back : call.setsBack m.debugger = true) :
    m.next (.call call) = { m.reset with underway := call.pace? } := by
  have passes := m.passes_happen (.move (.call call))
  rw [Moment.happen] at passes
  generalize m.next (.call call) = after at passes
  cases passes with
  | setBack => rfl
  | goOn _ pace _ _ onward => cases back.symm.trans onward
  | adjust => cases back
  | busy _ pace on => cases returned.symm.trans on

/-- From its next run on, every session behaves like one that has just been created over the same
program and has been asked for the same points in any order, with the same input left and the
interrupt as it is. It only has other output and another history before its own. So does a session
that is idle when it is resumed or stepped, and this holds of all further calls. -/
theorem run_forgets_history (p : Program) (input : List UInt8) (schedule : Schedule)
    (happenings : List Happening) :
    let m := ({ debugger := ofProgram p input schedule } : Moment).live happenings
    let d := m.debugger
    let written := d.machine.output
    m.underway = none → ∀ requests : List Adjustment,
      (∀ a, a ∈ requests ↔ a ∈ d.pointRequests) →
      let fresh := requests.foldl Debugger.adjust d.anew
      (∀ fuel, d.run fuel = Prod.map (·.preceded written) id (fresh.run fuel)) ∧
      (d.phase = .idle →
        (∀ fuel, d.resume fuel = Prod.map (·.preceded written) id (fresh.resume fuel)) ∧
        d.step = Prod.map (·.preceded written) id fresh.step) ∧
      ∀ (call : Call) (later : List Move), call.setsBack d = true →
        m.play (.call call :: later) =
          (Moment.play { debugger := fresh } (.call call :: later)).preceded written m.history := by
  intro m d written returned requests same fresh
  have points : d.Requestable := (requestable_ofProgram p input schedule).live happenings
  obtain ⟨reset, again, idle⟩ :
      d.reset = fresh.preceded written ∧ fresh.reset = fresh ∧ fresh.phase = .idle :=
    points.reset_eq same
  have started : fresh.started = fresh := by
    rw [Debugger.started, idle]
    exact again
  have begun (there : d.phase = .idle) : d.started = fresh.started.preceded written := by
    rw [Debugger.started, there, started]
    exact reset
  refine ⟨fun fuel => ?_, fun there => ⟨fun fuel => ?_, ?_⟩, fun call later back => ?_⟩
  · rw [run, run, again, reset, advance_preceded]
  · rw [resume, resume, begun there, advance_preceded]
  · rw [step, step, begun there, single_preceded]
  · have back' : call.setsBack fresh = true := by
      cases call with
      | run | reset => rfl
      | resume | step => simp [Call.setsBack, idle]
      | adjust => cases back
    have same : m.next (.call call) =
        (Moment.next { debugger := fresh } (.call call)).preceded written m.history := by
      rw [next_of_setsBack returned back, next_of_setsBack rfl back']
      simp only [Moment.reset, Moment.preceded, again, List.cons_append, List.nil_append, ← reset]
      rfl
    rw [Moment.play_cons, same, Moment.play_preceded, Moment.play_cons]

/-- The countdown has been run to its end, a breakpoint has been added and removed again, and
another run is held at the watched cell while the end of the loop is awaited. From there a new run
goes as in a new session that has been asked for the same points in another order. -/
theorem held_countdown_forgets_history :
    let happenings : List Happening := List.map .move
      [.call .run, .proceed, .proceed, .proceed, .proceed, .proceed, .proceed, .proceed, .proceed,
        .call (.adjust (.addBreakpoint 3)), .call (.adjust (.addWatch 0)),
        .call (.adjust (.addBreakpoint 2)), .call (.adjust (.removeBreakpoint 1)),
        .call (.adjust (.setStopPoint 3)), .call .resume, .proceed, .call (.adjust .awaitExit)]
    let m := ({ debugger := ofProgram .countdown [] {} } : Moment).live happenings
    let d := m.debugger
    let requests : List Adjustment := [.setStopPoint 3, .addWatch 0, .addBreakpoint 3]
    let fresh := requests.foldl Debugger.adjust d.anew
    (m.underway = none ∧ d.phase = .paused (.watch 0) ∧ d.awaitsExit = true ∧
      d.machine.output = #[0]) ∧
    (∀ a, a ∈ requests ↔ a ∈ d.pointRequests) ∧
    (∀ fuel, d.run fuel = Prod.map (·.preceded d.machine.output) id (fresh.run fuel)) ∧
    m.play [.call .run, .proceed, .call .resume, .proceed] =
      (Moment.play { debugger := fresh } [.call .run, .proceed, .call .resume, .proceed]).preceded
        d.machine.output m.history := by
  intro happenings
  have forgets := run_forgets_history .countdown [] {} happenings
  have facts : let m := ({ debugger := ofProgram .countdown [] {} } : Moment).live happenings
      (m.underway = none ∧ m.debugger.phase = .paused (.watch 0) ∧ m.debugger.awaitsExit = true ∧
        m.debugger.machine.output = #[0]) ∧
      m.debugger.pointRequests = [.addBreakpoint 3, .addWatch 0, .setStopPoint 3] := by
    decide +kernel
  -- Nothing else about the session is used, so that it need not be looked into again.
  revert forgets facts
  generalize ({ debugger := ofProgram .countdown [] {} } : Moment).live happenings = m
  intro forgets ⟨facts, listed⟩ m d requests fresh
  have same (a : Adjustment) : a ∈ requests ↔ a ∈ d.pointRequests := by
    rw [listed]
    exact (List.reverse_perm requests).mem_iff.symm
  obtain ⟨run, -, calls⟩ := forgets facts.1 requests same
  exact ⟨facts, same, run, calls .run [.proceed, .call .resume, .proceed] rfl⟩

end Brainfuck.Debugger
