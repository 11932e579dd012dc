import Brainfuck.Proofs.Debugger.Moment

/-!
# Breakpoints, once per visit

A visit to an instruction lasts from the moment it becomes the next one until it is executed or the
session is set back. `Marked` says that the marks are those of the breakpoints, and `Visited` that
the debugger remembers of a visit what has been reported in it. So no run passes an unreported
breakpoint, and none is reported twice.
-/

namespace Brainfuck.Debugger

/-- A visit begins with a reset and with the execution of an instruction. -/
def Event.startsVisit : Event → Bool
  | .reset | .executed _ _ => true
  | .halted _ => false

/-- Some breakpoint halts at an instruction. -/
def HasBreakpoint (d : Debugger) (index : Nat) : Prop :=
  ∃ b ∈ d.breakpoints, b.index = some index

instance (d : Debugger) : DecidablePred d.HasBreakpoint :=
  fun index => inferInstanceAs (Decidable (∃ b ∈ d.breakpoints, b.index = some index))

/-- The instructions of the program that are marked are those with a breakpoint. -/
structure Marked (d : Debugger) : Prop where
  size : d.marked.size = d.program.size
  marks : ∀ index < d.program.size,
    d.marked[index]?.getD false = true ↔ d.HasBreakpoint index

/-- A breakpoint has been reported in the current visit. -/
def BreakReported (history : List Event) (index : Nat) : Prop :=
  .halted (.paused (.breakpoint index)) ∈ since Event.startsVisit history

/-- What is remembered of the current visit is right. -/
structure Visited (d : Debugger) (history : List Event) : Prop where
  reported : d.visit.breakpoint = true ↔ ∃ index, BreakReported history index
  place : ∀ index, BreakReported history index →
    index = d.machine.pc ∧ d.machine.pc < d.program.size

variable {d : Debugger} {history : List Event}

/-! ### Marks -/

theorem getD_setIfInBounds {marked : Array Bool} {place index : Nat} {mark : Bool}
    (inside : index < marked.size) :
    (marked.setIfInBounds place mark)[index]?.getD false =
      if place = index then mark else marked[index]?.getD false := by
  rw [Array.getElem?_setIfInBounds]
  by_cases same : place = index
  · simp [same, inside]
  · simp [same]

/-- A session with the same breakpoints and the same marks. -/
theorem Marked.same {e : Debugger} (h : d.Marked) (program : e.program = d.program)
    (breakpoints : e.breakpoints = d.breakpoints) (marked : e.marked = d.marked) : e.Marked := by
  refine ⟨by rw [marked, program, h.size], ?_⟩
  unfold HasBreakpoint
  rw [marked, program, breakpoints]
  exact h.marks

theorem Marked.addBreakpoint (h : d.Marked) (line : Nat) :
    (d.adjust (.addBreakpoint line)).Marked := by
  rcases d.adjust_addBreakpoint line with same | ⟨added, -, -, changed⟩
  · rw [same]
    exact h
  · rw [changed]
    have mem (b : Breakpoint) :
        b ∈ insertByKey (fun b => (b.line : Int)) added d.breakpoints ↔
          b = added ∨ b ∈ d.breakpoints :=
      mem_insertByKey
    refine ⟨(d.size_markedFor added).trans h.size, ?_⟩
    intro index inside
    show (d.markedFor added)[index]?.getD false = true ↔ _
    have old := h.marks index inside
    simp only [HasBreakpoint, mem, exists_eq_or_imp] at old ⊢
    unfold markedFor
    split
    · rename_i place found
      rw [getD_setIfInBounds (h.size ▸ inside), ← old, found, Option.some_inj]
      by_cases same : place = index <;> simp [same]
    · rename_i none
      simp [none, old]

theorem Marked.removeBreakpoint (h : d.Marked) (ordinal : Nat) :
    (d.adjust (.removeBreakpoint ordinal)).Marked := by
  rcases d.adjust_removeBreakpoint ordinal with same | ⟨removed, others, taken, changed⟩
  · rw [same]
    exact h
  · rw [changed]
    have mem := mem_of_takeOrdinal? taken
    refine ⟨(d.size_markedWithout removed others).trans h.size, ?_⟩
    intro index inside
    show (d.markedWithout removed others)[index]?.getD false = true ↔ _
    have old := h.marks index inside
    simp only [HasBreakpoint, mem, or_and_right, exists_or, exists_eq_left] at old ⊢
    unfold markedWithout
    split
    · rename_i place found
      rw [found, Option.some_inj] at old
      split
      · -- The mark stays for another breakpoint at the same instruction.
        rename_i another
        obtain ⟨b, hb, there⟩ : ∃ b ∈ others, b.index = some place := by
          simpa using another
        rw [old]
        refine ⟨?_, .inr⟩
        rintro (rfl | h)
        · exact ⟨b, hb, there⟩
        · exact h
      · rename_i alone
        rw [getD_setIfInBounds (h.size ▸ inside)]
        by_cases same : place = index
        · subst same
          simpa using alone
        · simp [same, old]
    · rename_i none
      simpa [none] using old

theorem Marked.clearBreakpoints (h : d.Marked) : (d.adjust .clearBreakpoints).Marked := by
  have size : (d.marked.map fun _ => false).size = d.program.size := by simp [h.size]
  refine ⟨size, fun index _ => ?_⟩
  have unmarked : (d.marked.map fun _ => false)[index]?.getD false = false := by
    cases h : d.marked[index]? <;> simp [h]
  simp only [Debugger.adjust, Debugger.clearBreakpoints, HasBreakpoint, unmarked]
  simp

theorem Marked.adjust (h : d.Marked) (a : Adjustment) : (d.adjust a).Marked := by
  by_cases other : a.concernsBreakpoints = false
  · obtain ⟨breakpoints, marked⟩ := d.breakpoints_adjust other
    exact h.same (d.adjust_frame a).1 breakpoints marked
  · cases a with
    | addBreakpoint line => exact h.addBreakpoint line
    | removeBreakpoint ordinal => exact h.removeBreakpoint ordinal
    | clearBreakpoints => exact h.clearBreakpoints
    | _ => exact absurd rfl other

theorem Marked.proceed (h : d.Marked) (pace : Pace) : (d.proceed pace).1.Marked := by
  rw [proceed_eq]
  obtain ⟨breakpoints, marked, -⟩ := d.points_fulfil pace (d.deed pace)
  exact h.same (d.program_fulfil pace _) breakpoints marked

/-- A turn that finds a mark finds a breakpoint. -/
theorem Marked.breaks_iff (h : d.Marked) {i : Instruction}
    (here : d.program.get? d.machine.pc = some i) :
    d.breaks = true ↔ d.HasBreakpoint d.machine.pc ∧ d.visit.breakpoint = false := by
  rw [breaks, Bool.and_eq_true, Bool.not_eq_true', h.marks _ (lt_size_of_get? here)]

/-! ### Visits -/

@[simp] theorem index_visit (d : Debugger) : d.visit.index = d.machine.pc := by
  unfold visit
  split
  · split
    · assumption
    · rfl
  · rfl

/-- Nothing has been reported yet. -/
theorem visit_of_reported (none : d.reported = none) : d.visit = { index := d.machine.pc } := by
  simp [visit, none]

/-- What has been reported at the next instruction is remembered. -/
theorem visit_of_report {report : Report} (some : d.reported = some report)
    (here : report.index = d.machine.pc) : d.visit = report := by
  simp [visit, some, here]

/-- A reported breakpoint is remembered. -/
theorem visit_held (d : Debugger) : (d.held (.breakpoint d.machine.pc)).visit =
    { d.visit with breakpoint := true } :=
  visit_of_report rfl d.index_visit

/-- So is a reported stop point. -/
theorem visit_held_stopPoint (d : Debugger) (index : Nat) :
    (d.held (.stopPoint index)).visit = { d.visit with stopPoint := true } :=
  visit_of_report rfl d.index_visit

/-- And so is a watch pause. -/
theorem visit_held_watch (d : Debugger) (address : Int) :
    (d.held (.watch address)).visit = { d.visit with watch := true } :=
  visit_of_report rfl d.index_visit

/-- Another pause before the instruction leaves it remembered whether its breakpoint was
reported. -/
theorem breakpoint_visit_held (d : Debugger) {reason : Pause}
    (other : ∀ index, reason ≠ .breakpoint index) :
    (d.held reason).visit.breakpoint = d.visit.breakpoint := by
  cases reason with
  | breakpoint index => exact absurd rfl (other index)
  | stopPoint index => rw [visit_held_stopPoint]
  | watch address => rw [visit_held_watch]
  | loopExit | stepped | interrupted => rfl

theorem breakReported_halted {outcome : Outcome} {index : Nat} :
    BreakReported (.halted outcome :: history) index ↔
      outcome = .paused (.breakpoint index) ∨ BreakReported history index := by
  simp [BreakReported, since_cons, Event.startsVisit, eq_comm]

theorem not_breakReported_executed (index : Nat) (operator : Operator) (other : Nat) :
    ¬ BreakReported (.executed index operator :: history) other := by
  simp [BreakReported, since_cons, Event.startsVisit]

/-- A visit in which nothing has been reported yet. -/
theorem Visited.fresh (none : d.reported = none)
    (unreported : ∀ index, ¬ BreakReported history index) : Visited d history where
  reported := by simp [visit_of_reported none, unreported]
  place := fun index h => absurd h (unreported index)

/-- A session in which the same is remembered of breakpoints at the same place. -/
theorem Visited.same {e : Debugger} (v : Visited d history) (machine : e.machine = d.machine)
    (program : e.program = d.program) (breakpoint : e.visit.breakpoint = d.visit.breakpoint) :
    Visited e history where
  reported := by rw [breakpoint, v.reported]
  place := by
    rw [machine, program]
    exact v.place

/-- A report that is no breakpoint's leaves the visit as it is. -/
theorem Visited.halted (v : Visited d history) {outcome : Outcome}
    (other : ∀ index, outcome ≠ .paused (.breakpoint index)) :
    Visited d (.halted outcome :: history) where
  reported := by simpa [breakReported_halted, other] using v.reported
  place := by simpa [breakReported_halted, other] using v.place

theorem Visited.hold (v : Visited d history) {pace : Pace} {reason : Pause}
    (deed : d.deed pace = .hold reason) :
    Visited (d.held reason) (.halted (.paused reason) :: history) := by
  have found := d.found_deed pace
  rw [deed] at found
  cases found with
  | breakpoint i here =>
    refine ⟨?_, ?_⟩
    · rw [visit_held]
      exact iff_of_true rfl ⟨_, breakReported_halted.mpr (.inl rfl)⟩
    · intro index h
      refine ⟨?_, lt_size_of_get? here⟩
      rcases breakReported_halted.mp h with now | before
      · cases now
        rfl
      · exact (v.place index before).1
  | interrupted | stopPoint | watch =>
    exact (v.halted (by simp)).same rfl rfl (breakpoint_visit_held d (by simp))

/-- What a call returns with after an instruction is no breakpoint. -/
theorem EndsInstruction.ne_breakpoint {outcome : Outcome} (h : EndsInstruction outcome)
    (index : Nat) : outcome ≠ .paused (.breakpoint index) := by
  rcases h with rfl | rfl | rfl <;> simp

theorem Visited.proceed (v : Visited d history) (pace : Pace) :
    Visited (d.proceed pace).1 (d.events pace ++ history) := by
  rw [proceed_eq]
  cases deed : d.deed pace with
  | finish =>
    rw [events_of_finish deed]
    have found := d.found_deed pace
    rw [deed] at found
    cases found with
    | ended nothing =>
      -- Nothing has been reported at the end, so that nothing is forgotten there.
      have unreported (index : Nat) : ¬ BreakReported history index := by
        intro h
        have inside := (v.place index h).2
        have outside : d.program.size ≤ d.machine.pc := Array.getElem?_eq_none_iff.mp nothing
        omega
      refine Visited.fresh rfl fun index h => ?_
      rcases breakReported_halted.mp h with now | before
      · cases now
      · exact unreported index before
  | hold reason =>
    rw [events_of_hold deed]
    exact v.hold deed
  | execute i =>
    obtain ⟨phase, awaitsExit, h⟩ := d.fulfil_execute_eq pace i
    rw [h]
    refine Visited.fresh rfl fun index reported => ?_
    rcases events_of_execute deed with ⟨-, e⟩ | ⟨outcome, -, ends, e⟩
    · rw [e] at reported
      exact not_breakReported_executed _ _ _ reported
    · rw [e] at reported
      rcases breakReported_halted.mp reported with now | before
      · exact ends.ne_breakpoint index now
      · exact not_breakReported_executed _ _ _ before

/-! ### Sessions -/

theorem marked_ofProgram (program : Program) (input : List UInt8) (schedule : Schedule) :
    (ofProgram program input schedule).Marked := by
  refine ⟨by simp [ofProgram], fun index inside => ?_⟩
  have inside : index < program.size := inside
  simp [ofProgram, HasBreakpoint, inside]

/-- In every session the marks and what is remembered of the visit are right at every moment. -/
theorem marked_visited_session (program : Program) (input : List UInt8) (schedule : Schedule)
    (moves : List Move) :
    let m := (ofProgram program input schedule).session moves
    m.debugger.Marked ∧ Visited m.debugger m.history := by
  refine Moment.play_induction (P := fun m => m.debugger.Marked ∧ Visited m.debugger m.history)
    moves ?_ ?_ ?_ ?_
  · exact ⟨marked_ofProgram program input schedule,
      Visited.fresh rfl (by simp [BreakReported, since])⟩
  · rintro m call _ _ ⟨h, v⟩
    have reset : m.reset.debugger.Marked ∧ Visited m.reset.debugger m.reset.history :=
      ⟨⟨h.size, h.marks⟩, Visited.fresh rfl (by
        simp [Moment.reset, BreakReported, since_cons, Event.startsVisit])⟩
    have started : m.started.debugger.Marked ∧ Visited m.started.debugger m.started.history := by
      unfold Moment.started
      split
      · exact reset
      · exact ⟨h, v⟩
    cases call with
    | run => exact reset
    | resume => exact started
    | step => exact started
    | reset => exact reset
    | adjust a =>
      obtain ⟨program, machine, -, reported⟩ := m.debugger.adjust_frame a
      have visit : (m.debugger.adjust a).visit = m.debugger.visit := by
        rw [Debugger.visit, Debugger.visit, machine, reported]
      exact ⟨h.adjust a, v.same machine program (congrArg Report.breakpoint visit)⟩
  · rintro m pace _ ⟨h, v⟩
    exact ⟨h.proceed pace, v.proceed pace⟩
  · rintro m ⟨h, v⟩
    exact ⟨⟨h.size, h.marks⟩, v.same rfl rfl rfl⟩

/-- A run executes no instruction with a breakpoint that has not been reported in this visit. -/
theorem breakReported_of_executes (h : d.Marked) (v : Visited d history) {i : Instruction}
    (executes : d.deed .running = .execute i) (has : d.HasBreakpoint d.machine.pc) :
    BreakReported history d.machine.pc := by
  have ready := (deed_eq_execute_iff.mp executes).1
  have remembered : d.visit.breakpoint = true := by
    by_contra unreported
    have breaks := (h.breaks_iff ready.here).mpr ⟨has, by simpa using unreported⟩
    rw [ready.unbroken rfl] at breaks
    cases breaks
  obtain ⟨index, reported⟩ := v.reported.mp remembered
  exact (v.place index reported).1 ▸ reported

/-- What is reported is the breakpoint at the next instruction, for the first time in this
visit. -/
theorem of_breakpoint_pause (h : d.Marked) (v : Visited d history) {pace : Pace} {index : Nat}
    (pause : (d.proceed pace).2 = some (.paused (.breakpoint index))) :
    index = d.machine.pc ∧ d.HasBreakpoint index ∧ (∀ earlier, ¬ BreakReported history earlier) ∧
      (d.proceed pace).1.machine = d.machine := by
  have deed := (outcome_eq_hold_iff (by simp)).mp pause
  have found := d.found_deed pace
  rw [deed] at found
  cases found with
  | breakpoint i here _ breaks =>
    obtain ⟨has, unreported⟩ := (h.breaks_iff here).mp breaks
    refine ⟨rfl, has, ?_, by rw [proceed_eq, deed, machine_fulfil]⟩
    intro earlier reported
    rw [v.reported.mpr ⟨earlier, reported⟩] at unreported
    cases unreported

end Brainfuck.Debugger
