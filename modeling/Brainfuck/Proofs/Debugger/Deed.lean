import Brainfuck.Debugger.Run
import Brainfuck.Proofs.Machine.Steps

/-!
# What a call does in one turn

A turn of a run and a single step look for the same things in the same order, only that a step
passes over breakpoints and the stop point. `deed` names what is found, `fulfil` says what becomes
of the session, and `proceed_eq` says that the two together are the debugger's turns and steps.
What a turn does to one part of a session is then read off `fulfil`.
-/

namespace Brainfuck

/-- The operators that change the cell under the pointer. Watches are about these. -/
def Operator.changesCell : Operator → Bool
  | .increment | .decrement | .input => true
  | _ => false

theorem Operator.changesCell_eq (op : Operator) :
    op.changesCell = (op = .increment || op = .decrement || op = .input) := by
  cases op <;> rfl

theorem Dwell.after_of_ne {op : Operator} (left : op ≠ .shiftLeft) (right : op ≠ .shiftRight)
    (dwell : Dwell) : dwell.after op = dwell := by
  cases op <;> first | contradiction | rfl

namespace Debugger

/-- How far a call goes: until there is something to report, or for one instruction. -/
inductive Pace
  | running
  | stepping
  deriving DecidableEq

/-- What a turn comes to: the program is at its end, a pause is made before the next instruction, or
that is executed. -/
inductive Deed
  | finish
  | hold (reason : Pause)
  | execute (i : Instruction)
  deriving DecidableEq

/-- Takes one turn of a call. A step is over after it. -/
def proceed (d : Debugger) : Pace → Debugger × Option Outcome
  | .running => d.turn
  | .stepping => Prod.map id some d.single

/-! ### What is looked for -/

/-- There is a breakpoint at the next instruction, and it has not been reported in this visit. -/
def breaks (d : Debugger) : Bool :=
  d.marked[d.machine.pc]?.getD false && !d.visit.breakpoint

/-- The stop point is at the next instruction, and none has been reported in this visit. -/
def stops (d : Debugger) : Bool :=
  d.stopPoint = some d.machine.pc && !d.visit.stopPoint

/-- The instruction is about to change a watched cell whose pause has not been made. -/
def guards (d : Debugger) (i : Instruction) : Bool :=
  i.operator.changesCell && d.look.dwell = .armed && !d.watches.isEmpty

/-- What comes of an instruction that no breakpoint, stop point or interrupt stands before. -/
def attempt (d : Debugger) (i : Instruction) : Deed :=
  if d.guards i then .hold (.watch d.pointer) else .execute i

/-- What the next turn of a call comes to. -/
def deed (d : Debugger) : Pace → Deed
  | .running =>
    match d.program.get? d.machine.pc with
    | none => .finish
    | some i =>
      if d.signal.raised then .hold .interrupted
      else if d.breaks then .hold (.breakpoint d.machine.pc)
      else if d.stops then .hold (.stopPoint d.machine.pc)
      else d.attempt i
  | .stepping =>
    if d.signal.raised then .hold .interrupted
    else
      match d.program.get? d.machine.pc with
      | none => .finish
      | some i => d.attempt i

/-! ### What becomes of the session -/

/-- The session held before the next instruction: what is reported is remembered or used up. -/
def held (d : Debugger) (reason : Pause) : Debugger :=
  match reason with
  | .interrupted => { d with signal := d.signal.lower, phase := .paused reason }
  | .breakpoint _ =>
    { d with reported := some { d.visit with breakpoint := true }, phase := .paused reason }
  | .stopPoint _ =>
    { d with
      reported := some { d.visit with stopPoint := true }
      stopPoint := none
      phase := .paused reason }
  | .watch _ =>
    { d with
      reported := some { d.visit with watch := true }
      dwell := .consumed
      phase := .paused reason }
  | .loopExit | .stepped => { d with phase := .paused reason }

/-- What is known of the cell under the pointer when an instruction has been carried out. -/
def dwellAfter (d : Debugger) (i : Instruction) : Dwell :=
  (if i.operator.changesCell then d.look.dwell else d.dwell).after i.operator

/-- The session after an instruction, before the call is looked at again. -/
def executed (d : Debugger) (i : Instruction) : Debugger :=
  { d.carryOut i with dwell := d.dwellAfter i, awaitsExit := d.awaitsExit && !d.exits i }

/-- The pause that an instruction ends in, if it ends in one. -/
def pauseAfter (d : Debugger) (i : Instruction) (pace : Pace) : Option Pause :=
  if d.exits i then some .loopExit
  else
    match pace with
    | .running => none
    | .stepping => some .stepped

/-- What becomes of the session and of the call. -/
def fulfil (d : Debugger) (pace : Pace) : Deed → Debugger × Option Outcome
  | .finish => Prod.map id some d.finish
  | .hold reason => (d.held reason, some (.paused reason))
  | .execute i =>
    match d.pauseAfter i pace with
    | none => (d.executed i, none)
    | some reason => Prod.map id some ((d.executed i).halt reason)

/-! ### Turns and steps do just that -/

@[simp] theorem look_machine (d : Debugger) : d.look.machine = d.machine := by
  unfold look
  split <;> rfl

@[simp] theorem look_watches (d : Debugger) : d.look.watches = d.watches := by
  unfold look
  split <;> rfl

@[simp] theorem look_pointer (d : Debugger) : d.look.pointer = d.pointer := by
  simp [pointer]

@[simp] theorem look_visit (d : Debugger) : d.look.visit = d.visit := by
  unfold look
  split <;> rfl

@[simp] theorem look_exits (d : Debugger) (i : Instruction) : d.look.exits i = d.exits i := by
  unfold look
  split <;> rfl

theorem look_eq (d : Debugger) : d.look = { d with dwell := d.look.dwell } := by
  unfold look
  split <;> rfl

theorem perform_eq (d : Debugger) (i : Instruction) :
    d.perform i = ({ d.carryOut i with awaitsExit := d.awaitsExit && !d.exits i },
      if d.exits i then some .loopExit else none) := by
  unfold perform
  cases h : d.exits i <;> simp [carryOut]

theorem execute_eq (d : Debugger) (i : Instruction) :
    d.execute i =
      if d.guards i then
        ({ d with dwell := .consumed, reported := some { d.visit with watch := true } },
          some (.watch d.pointer))
      else (d.executed i, if d.exits i then some .loopExit else none) := by
  have look := d.look_eq
  unfold execute
  simp only [← Operator.changesCell_eq, look_watches, look_pointer, look_visit]
  by_cases hc : i.operator.changesCell = true
  · by_cases hg : (decide (d.look.dwell = .armed) && !d.watches.isEmpty) = true
    · rw [if_pos hc, if_pos hg, if_pos (by simpa [guards, hc] using hg), look]
    · rw [if_pos hc, if_neg hg, if_neg (by simpa [guards, hc] using hg), perform_eq, look_exits,
        look]
      simp [executed, dwellAfter, carryOut, hc]
  · rw [if_neg hc, if_neg (by simp [guards, hc]), perform_eq]
    simp [executed, dwellAfter, carryOut, hc]

theorem halt_watch {d : Debugger} (h : d.machine.pc < d.program.size) (address : Int) :
    ({ d with dwell := .consumed, reported := some { d.visit with watch := true } } :
        Debugger).halt (.watch address) = (d.held (.watch address), .paused (.watch address)) := by
  simp [halt, h, pause, held]

theorem lt_size_of_get? {p : Program} {pc : Nat} {i : Instruction} (h : p.get? pc = some i) :
    pc < p.size :=
  (Array.getElem?_eq_some_iff.mp h).1

/-- A turn of a call does its deed. -/
theorem proceed_eq (d : Debugger) (pace : Pace) :
    d.proceed pace = d.fulfil pace (d.deed pace) := by
  cases pace with
  | running =>
    -- The turn and its deed look for the same things in the same order.
    simp only [proceed, turn, deed]
    cases hi : d.program.get? d.machine.pc with
    | none => rfl
    | some i =>
      have inside := lt_size_of_get? hi
      simp only [← breaks.eq_def, ← stops.eq_def]
      split
      · rfl
      · split
        · rfl
        · split
          · rfl
          · rw [execute_eq, attempt]
            cases d.guards i with
            | true => simp [halt_watch inside, fulfil]
            | false => cases he : d.exits i <;> simp [fulfil, pauseAfter, he]
  | stepping =>
    simp only [proceed, single, deed]
    split
    · rfl
    · cases hi : d.program.get? d.machine.pc with
      | none => rfl
      | some i =>
        have inside := lt_size_of_get? hi
        simp only [execute_eq, attempt]
        cases d.guards i with
        | true => simp [halt_watch inside, fulfil]
        | false => cases he : d.exits i <;> simp [fulfil, pauseAfter, he]

/-! ### What is changed and what is not -/

/-- An instruction leaves a call under way, or halted before another instruction, or finished. -/
theorem fulfil_execute_cases (d : Debugger) (pace : Pace) (i : Instruction) :
    (d.fulfil pace (.execute i) = (d.executed i, none) ∧ d.pauseAfter i pace = none) ∨
    (∃ reason, d.fulfil pace (.execute i) =
        ({ d.executed i with phase := .paused reason }, some (.paused reason)) ∧
      d.pauseAfter i pace = some reason ∧ (d.machine.execute i).pc < d.program.size) ∨
    (∃ reason, d.fulfil pace (.execute i) =
        ({ d.executed i with phase := .idle, awaitsExit := false }, some .finished) ∧
      d.pauseAfter i pace = some reason ∧ d.program.size ≤ (d.machine.execute i).pc) := by
  rw [fulfil]
  cases hp : d.pauseAfter i pace with
  | none => exact .inl ⟨rfl, rfl⟩
  | some reason =>
    by_cases inside : (d.machine.execute i).pc < d.program.size
    · have low : (d.executed i).machine.pc < (d.executed i).program.size := inside
      exact .inr (.inl ⟨reason, by simp [halt, low, pause], rfl, inside⟩)
    · have high : ¬ (d.executed i).machine.pc < (d.executed i).program.size := inside
      refine .inr (.inr ⟨reason, ?_, rfl, Nat.le_of_not_lt inside⟩)
      simp only [halt, if_neg high]
      rfl

/-- What comes after an instruction changes no more than how the call ends. -/
theorem fulfil_execute_eq (d : Debugger) (pace : Pace) (i : Instruction) :
    ∃ phase awaitsExit, (d.fulfil pace (.execute i)).1 = { d.executed i with phase, awaitsExit } := by
  rcases d.fulfil_execute_cases pace i with ⟨h, -⟩ | ⟨_, h, -⟩ | ⟨_, h, -⟩ <;>
    exact ⟨_, _, congrArg Prod.fst h⟩

@[simp] theorem program_fulfil (d : Debugger) (pace : Pace) (deed : Deed) :
    (d.fulfil pace deed).1.program = d.program := by
  cases deed with
  | finish => rfl
  | hold reason => cases reason <;> rfl
  | execute i =>
    obtain ⟨_, _, h⟩ := d.fulfil_execute_eq pace i
    rw [h]
    rfl

theorem program_proceed (d : Debugger) (pace : Pace) : (d.proceed pace).1.program = d.program := by
  rw [proceed_eq, program_fulfil]

theorem machine_fulfil (d : Debugger) (pace : Pace) (deed : Deed) :
    (d.fulfil pace deed).1.machine =
      match deed with
      | .execute i => d.machine.execute i
      | .finish | .hold _ => d.machine := by
  cases deed with
  | finish => rfl
  | hold reason => cases reason <;> rfl
  | execute i =>
    obtain ⟨_, _, h⟩ := d.fulfil_execute_eq pace i
    rw [h]
    rfl

/-- A deed changes neither the breakpoints nor the marks nor the watches. -/
theorem points_fulfil (d : Debugger) (pace : Pace) (deed : Deed) :
    (d.fulfil pace deed).1.breakpoints = d.breakpoints ∧
      (d.fulfil pace deed).1.marked = d.marked ∧ (d.fulfil pace deed).1.watches = d.watches := by
  cases deed with
  | finish => exact ⟨rfl, rfl, rfl⟩
  | hold reason => cases reason <;> exact ⟨rfl, rfl, rfl⟩
  | execute i =>
    obtain ⟨_, _, h⟩ := d.fulfil_execute_eq pace i
    rw [h]
    exact ⟨rfl, rfl, rfl⟩

/-! ### What a deed tells about the session -/

/-- A call is about to execute an instruction: no interrupt stands before it, and in a run no
breakpoint and no stop point that is still to be reported. -/
structure Ready (d : Debugger) (pace : Pace) (i : Instruction) : Prop where
  here : d.program.get? d.machine.pc = some i
  lowered : d.signal.raised = false
  unbroken : pace = .running → d.breaks = false
  unstopped : pace = .running → d.stops = false

/-- What is found before an instruction, with what it is found from. -/
inductive Found (d : Debugger) (pace : Pace) : Deed → Prop
  | ended (nothing : d.program.get? d.machine.pc = none) : Found d pace .finish
  | interrupted (raised : d.signal.raised = true) : Found d pace (.hold .interrupted)
  | breakpoint (i : Instruction) (here : d.program.get? d.machine.pc = some i)
      (running : pace = .running) (breaks : d.breaks = true) :
      Found d pace (.hold (.breakpoint d.machine.pc))
  | stopPoint (i : Instruction) (here : d.program.get? d.machine.pc = some i)
      (running : pace = .running) (unbroken : d.breaks = false) (stops : d.stops = true) :
      Found d pace (.hold (.stopPoint d.machine.pc))
  | watch (i : Instruction) (ready : d.Ready pace i) (guarded : d.guards i = true) :
      Found d pace (.hold (.watch d.pointer))
  | execute (i : Instruction) (ready : d.Ready pace i) (unguarded : d.guards i = false) :
      Found d pace (.execute i)

theorem Ready.found {d : Debugger} {pace : Pace} {i : Instruction} (ready : d.Ready pace i) :
    d.Found pace (d.attempt i) := by
  rw [attempt]
  cases hg : d.guards i with
  | true => exact .watch i ready hg
  | false => exact .execute i ready hg

/-- Every deed is done for its reason. -/
theorem found_deed (d : Debugger) (pace : Pace) : d.Found pace (d.deed pace) := by
  cases pace with
  | running =>
    cases hi : d.program.get? d.machine.pc with
    | none => simpa [deed, hi] using Found.ended hi
    | some i =>
      simp only [deed, hi]
      split
      · exact .interrupted ‹_›
      · split
        · exact .breakpoint i hi rfl ‹_›
        · split
          · exact .stopPoint i hi rfl (by simpa using ‹¬ d.breaks = true›) ‹_›
          · exact Ready.found ⟨hi, by simp_all, by simp_all, by simp_all⟩
  | stepping =>
    simp only [deed]
    split
    · exact .interrupted ‹_›
    · cases hi : d.program.get? d.machine.pc with
      | none => exact .ended hi
      | some i => exact Ready.found ⟨hi, by simp_all, by simp, by simp⟩

/-- A call that is about to execute an instruction looks at the watches only. -/
theorem Ready.deed_eq {d : Debugger} {pace : Pace} {i : Instruction} (ready : d.Ready pace i) :
    d.deed pace = d.attempt i := by
  cases pace with
  | running => simp [deed, ready.here, ready.lowered, ready.unbroken rfl, ready.unstopped rfl]
  | stepping => simp [deed, ready.here, ready.lowered]

theorem deed_eq_watch_iff {d : Debugger} {pace : Pace} {address : Int} :
    d.deed pace = .hold (.watch address) ↔
      ∃ i, d.Ready pace i ∧ d.guards i = true ∧ d.pointer = address := by
  constructor
  · intro h
    have found := d.found_deed pace
    rw [h] at found
    cases found with
    | watch i ready guarded => exact ⟨i, ready, guarded, rfl⟩
  · rintro ⟨i, ready, guarded, rfl⟩
    rw [ready.deed_eq, attempt, if_pos guarded]

theorem deed_eq_execute_iff {d : Debugger} {pace : Pace} {i : Instruction} :
    d.deed pace = .execute i ↔ d.Ready pace i ∧ d.guards i = false := by
  constructor
  · intro h
    have found := d.found_deed pace
    rw [h] at found
    cases found with
    | execute _ ready unguarded => exact ⟨ready, unguarded⟩
  · rintro ⟨ready, unguarded⟩
    rw [ready.deed_eq, attempt, if_neg (by simp [unguarded])]

/-- A pause after an instruction is for a loop or for a step. -/
theorem pauseAfter_cases {d : Debugger} {i : Instruction} {pace : Pace} {reason : Pause}
    (h : d.pauseAfter i pace = some reason) : reason = .loopExit ∨ reason = .stepped := by
  unfold pauseAfter at h
  split at h
  · exact .inl (Option.some.inj h).symm
  · cases pace with
    | running => cases h
    | stepping => exact .inr (Option.some.inj h).symm

/-- The outcome of a turn is that of its deed; one that executes an instruction pauses for
nothing that is looked for before an instruction. -/
theorem outcome_eq_hold_iff {d : Debugger} {pace : Pace} {reason : Pause}
    (before : reason ≠ .loopExit ∧ reason ≠ .stepped) :
    (d.proceed pace).2 = some (.paused reason) ↔ d.deed pace = .hold reason := by
  rw [proceed_eq]
  cases d.deed pace with
  | finish => simp [fulfil, finish]
  | hold other => simp [fulfil]
  | execute i =>
    simp only [reduceCtorEq, iff_false]
    intro h
    have after : d.pauseAfter i pace = some reason := by
      rcases d.fulfil_execute_cases pace i with ⟨e, -⟩ | ⟨r, e, hr, -⟩ | ⟨_, e, -⟩ <;>
        rw [e] at h <;> simp_all
    exact (pauseAfter_cases after).elim before.1 before.2

theorem phase_of_paused {d : Debugger} {pace : Pace} {reason : Pause}
    (h : (d.proceed pace).2 = some (.paused reason)) :
    (d.proceed pace).1.phase = .paused reason := by
  rw [proceed_eq] at h ⊢
  cases hd : d.deed pace with
  | finish => simp [hd, fulfil, finish] at h
  | hold other =>
    rw [hd] at h
    obtain rfl : other = reason := by simpa [fulfil] using h
    cases other <;> rfl
  | execute i =>
    rw [hd] at h
    rcases d.fulfil_execute_cases pace i with ⟨e, -⟩ | ⟨_, e, -⟩ | ⟨_, e, -⟩ <;> rw [e] at h ⊢
    · cases h
    · exact congrArg Phase.paused (by simpa using h)
    · cases h

/-- A call that finishes leaves nothing to execute. -/
theorem ended_of_finished {d : Debugger} {pace : Pace}
    (h : (d.proceed pace).2 = some .finished) :
    (d.proceed pace).1.machine.step? d.program = none := by
  rw [proceed_eq] at h ⊢
  have found := d.found_deed pace
  rw [machine_fulfil, Machine.step?_eq_none_iff]
  cases hd : d.deed pace with
  | finish =>
    rw [hd] at found
    cases found with
    | ended nothing => exact nothing
  | hold reason => simp [hd, fulfil] at h
  | execute i =>
    rw [hd] at h
    rcases d.fulfil_execute_cases pace i with ⟨e, -⟩ | ⟨_, e, -⟩ | ⟨_, e, -, ended⟩
    · simp [e] at h
    · simp [e] at h
    · exact Array.getElem?_eq_none ended

end Debugger

end Brainfuck
