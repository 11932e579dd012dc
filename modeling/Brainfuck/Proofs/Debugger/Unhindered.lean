import Brainfuck.Proofs.Debugger.Deed

/-!
# Runs that nothing but a breakpoint can halt

Without watches, a stop point, an awaited loop and interrupts a turn has three things to do: finish,
report a breakpoint, or execute an instruction. Where there is no breakpoint either, a run is
uninterrupted execution; `Unhindered.advance_iff` says so.
-/

namespace Brainfuck.Debugger

/-- Nothing but a breakpoint can halt the program on its way. -/
structure Unhindered (d : Debugger) : Prop where
  unwatched : d.watches = []
  unstopped : d.stopPoint = none
  unawaited : d.awaitsExit = false
  lowered : d.signal.raised = false
  silent : ∀ count, d.signal.schedule.duringRead count = false ∧
    d.signal.schedule.duringWrite count = false

variable {d : Debugger} {i : Instruction}

theorem Unhindered.executed (u : d.Unhindered) (i : Instruction) : (d.executed i).Unhindered where
  unwatched := u.unwatched
  unstopped := u.unstopped
  unawaited := by simp [Debugger.executed, u.unawaited]
  lowered := by
    show (d.signal.during i.operator).raised = false
    cases i.operator <;> simp [Signal.during, u.lowered, u.silent]
  silent := by
    intro count
    have same : (d.signal.during i.operator).schedule = d.signal.schedule := by
      cases i.operator <;> rfl
    show (d.signal.during i.operator).schedule.duringRead count = false ∧
      (d.signal.during i.operator).schedule.duringWrite count = false
    rw [same]
    exact u.silent count

theorem Unhindered.held (u : d.Unhindered) (index : Nat) :
    (d.held (.breakpoint index)).Unhindered :=
  ⟨u.unwatched, u.unstopped, u.unawaited, u.lowered, u.silent⟩

theorem turn_of_ended (ended : d.program.get? d.machine.pc = none) :
    d.turn = (d.finish.1, some .finished) := by
  simp [turn, ended, finish]

/-- Before an instruction only a breakpoint counts. -/
theorem Unhindered.turn_eq (u : d.Unhindered) (here : d.program.get? d.machine.pc = some i) :
    d.turn =
      if d.breaks then
        (d.held (.breakpoint d.machine.pc), some (.paused (.breakpoint d.machine.pc)))
      else (d.executed i, none) := by
  show d.proceed .running = _
  have unstopped : d.stops = false := by simp [stops, u.unstopped]
  have unguarded : d.guards i = false := by simp [guards, u.unwatched]
  rw [proceed_eq]
  by_cases h : d.breaks = true
  · simp [deed, here, u.lowered, h, fulfil]
  · have on : d.pauseAfter i .running = none := by simp [pauseAfter, exits, u.unawaited]
    simp [deed, here, u.lowered, h, unstopped, attempt, unguarded, fulfil, on]

/-! ### Without breakpoints -/

/-- No breakpoint halts at any instruction. -/
def Unmarked (d : Debugger) : Prop :=
  ∀ index : Nat, d.marked[index]?.getD false = false

theorem Unhindered.turn_of_unmarked (u : d.Unhindered) (unmarked : d.Unmarked)
    (here : d.program.get? d.machine.pc = some i) : d.turn = (d.executed i, none) := by
  rw [u.turn_eq here, if_neg]
  simp [breaks, unmarked d.machine.pc]

/-- As far as the machine comes, so far comes the run. -/
theorem Unhindered.advance_of_after? (u : d.Unhindered) (unmarked : d.Unmarked) {n : Nat}
    {m : Machine} (h : after? (Machine.step? d.program) n d.machine = some m) :
    ∃ e, d.advance n = (e, none) ∧ e.machine = m ∧ e.program = d.program := by
  induction n generalizing d with
  | zero => exact ⟨d, rfl, Option.some.inj h, rfl⟩
  | succ n ih =>
    obtain ⟨next, first, rest⟩ := Option.bind_eq_some_iff.mp h
    obtain ⟨i, here, rfl⟩ := Option.map_eq_some_iff.mp first
    obtain ⟨e, he, machine, program⟩ := ih (u.executed i) unmarked rest
    refine ⟨e, ?_, machine, program⟩
    rw [advance, u.turn_of_unmarked unmarked here]
    exact he

/-- As far as the run comes, so far comes the machine. -/
theorem Unhindered.after?_of_advance (u : d.Unhindered) (unmarked : d.Unmarked) {fuel : Nat}
    {e : Debugger} (h : d.advance fuel = (e, none)) :
    after? (Machine.step? d.program) fuel d.machine = some e.machine := by
  induction fuel generalizing d with
  | zero => exact congrArg some (congrArg (fun pair => pair.1.machine) h)
  | succ fuel ih =>
    rw [advance] at h
    cases here : d.program.get? d.machine.pc with
    | none =>
      rw [turn_of_ended here] at h
      cases h
    | some i =>
      rw [u.turn_of_unmarked unmarked here] at h
      rw [after?, Machine.step?_of_get? here]
      exact ih (u.executed i) unmarked h

/-- A run that ends is finished, at the end of the program. -/
theorem Unhindered.finished_of_advance (u : d.Unhindered) (unmarked : d.Unmarked) {fuel : Nat}
    {e : Debugger} {outcome : Outcome} (h : d.advance fuel = (e, some outcome)) :
    outcome = .finished ∧ Ends (Machine.step? d.program) d.machine e.machine := by
  induction fuel generalizing d with
  | zero => cases h
  | succ fuel ih =>
    rw [advance] at h
    cases here : d.program.get? d.machine.pc with
    | none =>
      rw [turn_of_ended here] at h
      cases h
      exact ⟨rfl, 0, rfl, Machine.step?_eq_none_iff.mpr here⟩
    | some i =>
      rw [u.turn_of_unmarked unmarked here] at h
      obtain ⟨finished, n, after, ended⟩ := ih (u.executed i) unmarked h
      refine ⟨finished, n + 1, ?_, ended⟩
      rw [after?, Machine.step?_of_get? here]
      exact after

/-- Without anything to halt it, a run ends if and only if uninterrupted execution does, and at the
same place. -/
theorem Unhindered.advance_iff (u : d.Unhindered) (unmarked : d.Unmarked) (outcome : Outcome)
    (m : Machine) :
    (∃ fuel e, d.advance fuel = (e, some outcome) ∧ e.machine = m) ↔
      outcome = .finished ∧ Ends (Machine.step? d.program) d.machine m := by
  constructor
  · rintro ⟨fuel, e, h, rfl⟩
    exact u.finished_of_advance unmarked h
  · rintro ⟨rfl, n, after, ended⟩
    obtain ⟨e, he, rfl, program⟩ := u.advance_of_after? unmarked after
    have last : e.program.get? e.machine.pc = none :=
      program ▸ Machine.step?_eq_none_iff.mp ended
    refine ⟨n + 1, e.finish.1, ?_, rfl⟩
    rw [advance_add he, advance, turn_of_ended last]

end Brainfuck.Debugger
