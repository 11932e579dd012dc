import Brainfuck.Proofs.Debugger.Moment
import Brainfuck.Proofs.Machine.Steps

/-!
# Debugging changes nothing

Whatever calls a session consists of, as long as none of them sets it back: at every moment its
machine is the one that uninterrupted execution has after as many instructions as were executed in
the session. Main statement: `session_follows_machine`.
-/

namespace Brainfuck.Debugger

/-- A session that has just been created or set back. -/
def Fresh (d : Debugger) : Prop :=
  (∃ program input schedule, d = .ofProgram program input schedule) ∨ ∃ e : Debugger, d = e.reset

/-- The calls that go on with a program, and those that execute nothing. -/
def Call.goesOn : Call → Bool
  | .run | .reset => false
  | .resume | .step | .adjust _ => true

/-- A session does not begin anew with a move. -/
def Move.goesOn : Move → Bool
  | .call c => c.goesOn
  | .proceed | .interrupt => true

def Event.isExecution : Event → Bool
  | .executed _ _ => true
  | .reset | .halted _ => false

/-- How many instructions have been executed. -/
def executions (history : List Event) : Nat :=
  history.countP Event.isExecution

/-! ### A session is where uninterrupted execution is -/

/-- The machine is the one that uninterrupted execution has after as many instructions. As long as
nothing has begun, setting it back changes nothing; at the end nothing is left to execute. -/
structure Follows (d₀ : Debugger) (m : Moment) : Prop where
  program : m.debugger.program = d₀.program
  machine : after? (Machine.step? d₀.program) (executions m.history) d₀.machine =
    some m.debugger.machine
  unbegun : m.underway = none → m.debugger.phase = .idle →
    .halted .finished ∉ m.history → m.debugger.machine.restart = m.debugger.machine
  ended : m.history.head? = some (.halted .finished) →
    m.debugger.machine.step? d₀.program = none

theorem Fresh.follows {d : Debugger} (fresh : d.Fresh) : Follows d ⟨d, none, []⟩ := by
  refine ⟨rfl, rfl, ?_, by simp⟩
  intro _ _ _
  rcases fresh with ⟨_, _, _, rfl⟩ | ⟨_, rfl⟩ <;> rfl

@[simp] theorem executions_append (later earlier : List Event) :
    executions (later ++ earlier) = executions later + executions earlier :=
  List.countP_append

/-- Setting back a session in which nothing has begun. -/
theorem Follows.reset {d₀ : Debugger} {m : Moment} (f : Follows d₀ m) (idle : m.underway = none)
    (phase : m.debugger.phase = .idle) (unfinished : .halted .finished ∉ m.history)
    (underway : Option Pace) : Follows d₀ { m.reset with underway } where
  program := f.program
  machine := by
    have same : m.reset.debugger.machine = m.debugger.machine := f.unbegun idle phase unfinished
    rw [same]
    exact f.machine
  unbegun := fun _ _ _ => rfl
  ended := by simp [Moment.reset]

theorem Follows.adjust {d₀ : Debugger} {m : Moment} (f : Follows d₀ m) (a : Adjustment) :
    Follows d₀ (m.begin (.adjust a)) := by
  obtain ⟨program, machine, phase, -⟩ := m.debugger.adjust_frame a
  refine ⟨program.trans f.program, ?_, ?_, ?_⟩
  · exact f.machine.trans (congrArg some machine.symm)
  · intro idle unbegun unfinished
    simp only [Moment.begin] at unbegun ⊢
    rw [machine]
    exact f.unbegun idle (phase ▸ unbegun) unfinished
  · intro finished
    simp only [Moment.begin]
    rw [machine]
    exact f.ended finished

theorem Follows.proceed {d₀ : Debugger} {m : Moment} (f : Follows d₀ m) (pace : Pace) :
    Follows d₀ (m.proceed pace) where
  program := by rw [Moment.proceed, proceed_eq, program_fulfil, f.program]
  machine := by
    have f' := f.machine
    simp only [Moment.proceed, executions_append]
    rw [proceed_eq, machine_fulfil]
    cases h : m.debugger.deed pace with
    | finish => simpa [events_of_finish h, executions, Event.isExecution] using f'
    | hold reason => simpa [events_of_hold h, executions, Event.isExecution] using f'
    | execute i =>
      have here := (deed_eq_execute_iff.mp h).1.here
      have one : executions (m.debugger.events pace) = 1 := by
        rcases events_of_execute h with ⟨-, e⟩ | ⟨_, -, -, e⟩ <;> rw [e] <;> rfl
      rw [one, Nat.add_comm, after?_succ f', Machine.step?_of_get? (f.program ▸ here)]
  unbegun := fun returned idle unfinished =>
    absurd (Moment.finished_of_idle returned idle) unfinished
  ended := by
    intro finished
    rw [← f.program]
    apply ended_of_finished
    cases h : m.debugger.deed pace with
    | finish => rw [proceed_eq, h]; rfl
    | hold reason =>
      simp [Moment.proceed, events_of_hold h] at finished
    | execute i =>
      rcases events_of_execute h with ⟨-, e⟩ | ⟨outcome, ho, -, e⟩
      · simp [Moment.proceed, e] at finished
      · rw [ho]
        simpa [Moment.proceed, e] using finished

/-- What holds at the start of a session that only goes on, and is kept by its calls, by their turns
and by interrupts as long as no call has finished, holds up to the first call that finishes. -/
theorem onward_induction {P : Moment → Prop} {d₀ : Debugger} {moves : List Move}
    (onward : ∀ move ∈ moves, move.goesOn)
    (first : .halted .finished ∉ (d₀.session moves).history.tail) (start : P ⟨d₀, none, []⟩)
    (begun : ∀ m pace, m.underway = none → m.debugger.phase = .idle →
      .halted .finished ∉ m.history → P m → P { m.reset with underway := some pace })
    (resumed : ∀ m pace reason, m.underway = none → m.debugger.phase = .paused reason → P m →
      P { m with underway := some pace })
    (adjusted : ∀ m a, m.underway = none → P m → P (m.begin (.adjust a)))
    (turn : ∀ m pace, m.underway = some pace → .halted .finished ∉ m.history → P m →
      P (m.proceed pace))
    (raise : ∀ m : Moment, P m → P { m with debugger := m.debugger.interrupt }) :
    P (d₀.session moves) := by
  revert first
  -- A call that has finished is followed by none, so the case of an idle session is its first call.
  refine Moment.play_induction (P := fun m => .halted .finished ∉ m.history.tail → P m)
    moves (fun _ => start) ?_ ?_ fun m ih first => raise m (ih first)
  · intro m call mem idle ih first
    have goesOn := onward _ mem
    have started (pace : Pace) (first : .halted .finished ∉ m.started.history.tail) :
        P { m.started with underway := some pace } := by
      unfold Moment.started at first ⊢
      cases phase : m.debugger.phase with
      | idle =>
        simp only [phase] at first ⊢
        have unfinished : .halted .finished ∉ m.history := first
        exact begun m pace idle phase unfinished
          (ih fun mem => unfinished (List.mem_of_mem_tail mem))
      | paused reason =>
        simp only [phase] at first ⊢
        exact resumed m pace reason idle phase (ih first)
    cases call with
    | run => cases goesOn
    | reset => cases goesOn
    | resume => exact started .running first
    | step => exact started .stepping first
    | adjust a => exact adjusted m a idle (ih first)
  · intro m pace underway ih first
    have later : (m.proceed pace).history = m.debugger.events pace ++ m.history := rfl
    have unfinished : .halted .finished ∉ m.history := by
      intro mem
      rw [later] at first
      cases h : m.debugger.events pace with
      | nil => exact events_ne_nil _ _ h
      | cons e rest =>
        rw [h] at first
        exact first (List.mem_append_right _ mem)
    exact turn m pace underway unfinished (ih fun mem => unfinished (List.mem_of_mem_tail mem))

/-- A session that only goes on follows uninterrupted execution up to the first call that
finishes. -/
theorem follows_play {d₀ : Debugger} (fresh : d₀.Fresh) {moves : List Move}
    (onward : ∀ move ∈ moves, move.goesOn)
    (first : .halted .finished ∉ (d₀.session moves).history.tail) :
    Follows d₀ (d₀.session moves) := by
  refine onward_induction onward first fresh.follows ?_ ?_ ?_ ?_ ?_
  · intro m pace idle phase unfinished f
    exact f.reset idle phase unfinished _
  · intro m pace reason _ _ f
    exact ⟨f.program, f.machine, by simp, f.ended⟩
  · intro m a _ f
    exact f.adjust a
  · intro m pace _ _ f
    exact f.proceed pace
  · intro m f
    exact ⟨f.program, f.machine, f.unbegun, f.ended⟩

/-- At every moment of a session that only goes on, up to the first call that finishes, the machine
is that of uninterrupted execution after as many instructions as were executed; their number never
decreases; and when the call has finished, there is nothing left to execute. -/
theorem session_follows_machine {d₀ : Debugger} (fresh : d₀.Fresh) (moves more : List Move)
    (onward : ∀ move ∈ moves ++ more, move.goesOn)
    (first : .halted .finished ∉ (d₀.session (moves ++ more)).history.tail) :
    let early := d₀.session moves
    let late := d₀.session (moves ++ more)
    executions early.history ≤ executions late.history ∧
      after? (Machine.step? d₀.program) (executions early.history) d₀.machine =
        some early.debugger.machine ∧
      after? (Machine.step? d₀.program) (executions late.history) d₀.machine =
        some late.debugger.machine ∧
      (late.history.head? = some (.halted .finished) →
        late.debugger.machine.step? d₀.program = none) := by
  intro early late
  have grows : early.history <:+ late.history := by
    show early.history <:+ (d₀.session (moves ++ more)).history
    rw [session_append]
    exact early.history_play more
  have followsLate : Follows d₀ late := follows_play fresh onward first
  have followsEarly : Follows d₀ early :=
    follows_play fresh (fun move mem => onward move (List.mem_append_left _ mem))
      fun mem => first (grows.sublist.tail.subset mem)
  exact ⟨grows.countP_le, followsEarly.machine, followsLate.machine, followsLate.ended⟩

/-- A watched cell is reported, a step is taken, an interrupt stops the loop, and then the program
runs to its end: it has executed seven instructions, and one of them at the first look. -/
theorem interrupted_session_follows_machine :
    let d₀ := ofProgram .countdown [] {}
    let moves : List Move :=
      [.call (.adjust (.addWatch 0)), .call .resume, .proceed, .call .step, .proceed]
    let more : List Move :=
      [.interrupt, .call .resume, .proceed, .call .resume] ++ List.replicate 8 .proceed
    (d₀.Fresh ∧ (∀ move ∈ moves ++ more, move.goesOn) ∧
      .halted .finished ∉ (d₀.session (moves ++ more)).history.tail) ∧
    (executions (d₀.session moves).history = 1 ∧
      executions (d₀.session (moves ++ more)).history = 7 ∧
      (d₀.session (moves ++ more)).history.head? = some (.halted .finished)) ∧
    executions (d₀.session moves).history ≤ executions (d₀.session (moves ++ more)).history ∧
      after? (Machine.step? d₀.program) (executions (d₀.session moves).history) d₀.machine =
        some (d₀.session moves).debugger.machine ∧
      after? (Machine.step? d₀.program) (executions (d₀.session (moves ++ more)).history) d₀.machine =
        some (d₀.session (moves ++ more)).debugger.machine ∧
      ((d₀.session (moves ++ more)).history.head? = some (.halted .finished) →
        (d₀.session (moves ++ more)).debugger.machine.step? d₀.program = none) := by
  intro d₀ moves more
  have fresh : d₀.Fresh := .inl ⟨.countdown, [], {}, rfl⟩
  have onward : ∀ move ∈ moves ++ more, move.goesOn := by decide
  have first : .halted .finished ∉ (d₀.session (moves ++ more)).history.tail := by
    decide +kernel
  exact ⟨⟨fresh, onward, first⟩, by decide +kernel,
    session_follows_machine fresh moves more onward first⟩

end Brainfuck.Debugger
