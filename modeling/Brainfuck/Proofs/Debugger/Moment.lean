import Brainfuck.Proofs.Debugger.Adjustment
import Brainfuck.Proofs.Debugger.Deed

/-!
# Debug sessions, turn by turn

A session is a list of moves: a call is made, the call that is under way takes a turn, or somebody
else raises the interrupt. So a session can be looked at in the middle of a call too, and also in a
call that never returns. Every moment knows what has happened before it, the latest first;
properties of the form "not twice since" are stated on that history and not on what the debugger
itself remembers.

`play_proceed` and `play_step` say that calls played turn by turn are the debugger's own.
-/

namespace Brainfuck.Debugger

/-- A call of a session. -/
inductive Call
  | run
  | resume
  | step
  | reset
  | adjust (adjustment : Adjustment)
  deriving DecidableEq

/-- What happens in a session. -/
inductive Event
  /-- The tape and the next instruction were set back. -/
  | reset
  /-- The instruction at an index was executed. -/
  | executed (index : Nat) (operator : Operator)
  /-- A call returned. -/
  | halted (outcome : Outcome)
  deriving DecidableEq

/-- What has happened since the last event of a kind, the latest first. -/
def since (begins : Event → Bool) (history : List Event) : List Event :=
  history.takeWhile fun event => !begins event

theorem since_cons (begins : Event → Bool) (event : Event) (history : List Event) :
    since begins (event :: history) =
      if begins event then [] else event :: since begins history := by
  cases h : begins event <;> simp [since, h]

/-- A session at one moment. -/
structure Moment where
  debugger : Debugger
  /-- The pace of the call that is under way, if there is one. -/
  underway : Option Pace := none
  /-- What has happened before, the latest first. -/
  history : List Event := []

/-- How a session can go on. -/
inductive Move
  | call (call : Call)
  | proceed
  /-- The interrupt is raised, be a call under way or not. -/
  | interrupt
  deriving DecidableEq

/-- The events of one turn, the latest first. -/
def events (d : Debugger) (pace : Pace) : List Event :=
  ((d.proceed pace).2.map Event.halted).toList ++
    match d.deed pace with
    | .execute i => [.executed d.machine.pc i.operator]
    | .finish | .hold _ => []

theorem events_of_finish {d : Debugger} {pace : Pace} (h : d.deed pace = .finish) :
    d.events pace = [.halted .finished] := by
  simp [events, proceed_eq, h, fulfil, finish]

theorem events_of_hold {d : Debugger} {pace : Pace} {reason : Pause}
    (h : d.deed pace = .hold reason) : d.events pace = [.halted (.paused reason)] := by
  simp [events, proceed_eq, h, fulfil]

/-- What a call can return with right after an instruction. -/
def EndsInstruction (outcome : Outcome) : Prop :=
  outcome = .finished ∨ outcome = .paused .loopExit ∨ outcome = .paused .stepped

/-- An instruction is executed before the call returns, if it returns. -/
theorem events_of_execute {d : Debugger} {pace : Pace} {i : Instruction}
    (h : d.deed pace = .execute i) :
    ((d.proceed pace).2 = none ∧ d.events pace = [.executed d.machine.pc i.operator]) ∨
    ∃ outcome, (d.proceed pace).2 = some outcome ∧ EndsInstruction outcome ∧
      d.events pace = [.halted outcome, .executed d.machine.pc i.operator] := by
  have same : d.proceed pace = d.fulfil pace (.execute i) := by rw [proceed_eq, h]
  rcases d.fulfil_execute_cases pace i with ⟨e, -⟩ | ⟨reason, e, hr, -⟩ | ⟨reason, e, -, -⟩
  · exact .inl ⟨by rw [same, e], by simp [events, same, e, h]⟩
  · refine .inr ⟨.paused reason, by rw [same, e], ?_, by simp [events, same, e, h]⟩
    rcases pauseAfter_cases hr with rfl | rfl
    · exact .inr (.inl rfl)
    · exact .inr (.inr rfl)
  · exact .inr ⟨.finished, by rw [same, e], .inl rfl, by simp [events, same, e, h]⟩

/-- Something happens in every turn. -/
theorem events_ne_nil (d : Debugger) (pace : Pace) : d.events pace ≠ [] := by
  cases h : d.deed pace with
  | finish => simp [events_of_finish h]
  | hold reason => simp [events_of_hold h]
  | execute i => rcases events_of_execute h with ⟨-, e⟩ | ⟨_, -, -, e⟩ <;> simp [e]

namespace Moment

/-- Sets a session back. -/
def reset (m : Moment) : Moment :=
  { m with debugger := m.debugger.reset, history := .reset :: m.history }

/-- Sets an idle session back, and leaves any other as it is. -/
def started (m : Moment) : Moment :=
  match m.debugger.phase with
  | .idle => m.reset
  | .paused _ => m

/-- Makes a call. One that executes instructions is under way then. -/
def begin (m : Moment) : Call → Moment
  | .run => { m.reset with underway := some .running }
  | .resume => { m.started with underway := some .running }
  | .step => { m.started with underway := some .stepping }
  | .reset => m.reset
  | .adjust adjustment => { m with debugger := m.debugger.adjust adjustment }

/-- Lets the call that is under way take a turn. It is over when it has an outcome. -/
def proceed (m : Moment) (pace : Pace) : Moment where
  debugger := (m.debugger.proceed pace).1
  underway := if (m.debugger.proceed pace).2.isNone then some pace else none
  history := m.debugger.events pace ++ m.history

/-- A call that leaves the session idle has finished. -/
theorem finished_of_idle {m : Moment} {pace : Pace} (returned : (m.proceed pace).underway = none)
    (idle : (m.proceed pace).debugger.phase = .idle) :
    .halted .finished ∈ (m.proceed pace).history := by
  simp only [proceed] at returned idle ⊢
  cases h : (m.debugger.proceed pace).2 with
  | none => simp [h] at returned
  | some outcome =>
    cases outcome with
    | finished => simp [events, h]
    | paused reason =>
      rw [phase_of_paused h] at idle
      cases idle

/-- One move. No call is made while another is under way, and without one there is no turn to
take. -/
def next (m : Moment) : Move → Moment
  | .call call =>
    match m.underway with
    | none => m.begin call
    | some _ => m
  | .proceed =>
    match m.underway with
    | none => m
    | some pace => m.proceed pace
  | .interrupt => { m with debugger := m.debugger.interrupt }

/-- Some moves, one after the other. -/
def play (m : Moment) (moves : List Move) : Moment :=
  moves.foldl next m

theorem play_append (m : Moment) (first second : List Move) :
    m.play (first ++ second) = (m.play first).play second :=
  List.foldl_append

@[simp] theorem play_cons (m : Moment) (move : Move) (rest : List Move) :
    m.play (move :: rest) = (m.next move).play rest := rfl

@[simp] theorem play_nil (m : Moment) : m.play [] = m := rfl

/-- What holds at the start and is kept by calls, by turns and by interrupts holds in the whole
session. -/
theorem play_induction {P : Moment → Prop} {m : Moment} (moves : List Move) (start : P m)
    (call : ∀ n call, .call call ∈ moves → n.underway = none → P n → P (n.begin call))
    (turn : ∀ n pace, n.underway = some pace → P n → P (n.proceed pace))
    (raise : ∀ n : Moment, P n → P { n with debugger := n.debugger.interrupt }) :
    P (m.play moves) := by
  induction moves generalizing m with
  | nil => exact start
  | cons move rest ih =>
    refine ih ?_ fun n c mem => call n c (List.mem_cons_of_mem _ mem)
    cases move with
    | call c =>
      rw [next]
      cases h : m.underway with
      | none => exact call m c List.mem_cons_self h start
      | some pace => exact start
    | proceed =>
      rw [next]
      cases h : m.underway with
      | none => exact start
      | some pace => exact turn m pace h start
    | interrupt => exact raise m start

@[simp] theorem debugger_started (m : Moment) : m.started.debugger = m.debugger.started := by
  unfold started Debugger.started
  cases m.debugger.phase <;> rfl

/-- What has happened stays so. -/
theorem history_next (m : Moment) (move : Move) : m.history <:+ (m.next move).history := by
  have started : m.history <:+ m.started.history := by
    unfold Moment.started
    split
    · exact List.suffix_cons _ _
    · exact List.suffix_refl _
  cases move with
  | call c =>
    rw [next]
    cases m.underway with
    | none =>
      cases c with
      | run => exact List.suffix_cons _ _
      | resume => exact started
      | step => exact started
      | reset => exact List.suffix_cons _ _
      | adjust a => exact List.suffix_refl _
    | some _ => exact List.suffix_refl _
  | proceed =>
    rw [next]
    cases m.underway with
    | none => exact List.suffix_refl _
    | some pace => exact List.suffix_append _ _
  | interrupt => exact List.suffix_refl _

theorem history_play (m : Moment) (moves : List Move) : m.history <:+ (m.play moves).history := by
  induction moves generalizing m with
  | nil => exact List.suffix_refl _
  | cons move rest ih => exact (m.history_next move).trans (ih (m.next move))

/-! ### Calls played turn by turn -/

/-- Without a call under way no turn is taken. -/
theorem play_replicate_proceed {m : Moment} (h : m.underway = none) (n : Nat) :
    m.play (List.replicate n .proceed) = m := by
  induction n with
  | zero => rfl
  | succ n ih =>
    rw [List.replicate_succ, play_cons, next, h]
    exact ih

/-- Turns under way are those of the debugger: the session is at the same place, the call is over
if and only if it has an outcome, and the outcome is the last thing that has happened. -/
theorem play_proceed {d e : Debugger} {fuel : Nat} {outcome : Option Outcome}
    (h : d.advance fuel = (e, outcome)) (history : List Event) :
    let after := play ⟨d, some .running, history⟩ (List.replicate fuel .proceed)
    after.debugger = e ∧ (after.underway = if outcome.isNone then some .running else none) ∧
      ∀ reached ∈ outcome, after.history.head? = some (.halted reached) := by
  induction fuel generalizing d history with
  | zero =>
    cases h
    exact ⟨rfl, rfl, by simp⟩
  | succ fuel ih =>
    rw [advance] at h
    have turned : d.proceed .running = d.turn := rfl
    rcases ht : d.turn with ⟨after, _ | reached⟩
    · rw [ht] at h turned
      simpa [List.replicate_succ, next, proceed, turned] using ih h (d.events .running ++ history)
    · rw [ht] at h turned
      cases h
      have returned : (proceed ⟨d, some .running, history⟩ .running).underway = none := by
        simp [proceed, turned]
      rw [List.replicate_succ, play_cons, next, play_replicate_proceed returned]
      simp [proceed, turned, events]

/-- A run played turn by turn is the debugger's. -/
theorem play_run {d e : Debugger} {fuel : Nat} {outcome : Option Outcome}
    (h : d.run fuel = (e, outcome)) (history : List Event) :
    let after := play ⟨d, none, history⟩ (.call .run :: List.replicate fuel .proceed)
    after.debugger = e ∧ (after.underway = if outcome.isNone then some .running else none) ∧
      ∀ reached ∈ outcome, after.history.head? = some (.halted reached) :=
  play_proceed h _

/-- So is a call to go on. -/
theorem play_resume {d e : Debugger} {fuel : Nat} {outcome : Option Outcome}
    (h : d.resume fuel = (e, outcome)) (history : List Event) :
    let after := play ⟨d, none, history⟩ (.call .resume :: List.replicate fuel .proceed)
    after.debugger = e ∧ (after.underway = if outcome.isNone then some .running else none) ∧
      ∀ reached ∈ outcome, after.history.head? = some (.halted reached) := by
  rw [resume, ← debugger_started ⟨d, none, history⟩] at h
  exact play_proceed h _

/-- A step played turn by turn is the debugger's. -/
theorem play_step (d : Debugger) (history : List Event) :
    let after := play ⟨d, none, history⟩ [.call .step, .proceed]
    after.debugger = d.step.1 ∧ after.underway = none ∧
      after.history.head? = some (.halted d.step.2) := by
  have stepped : d.started.proceed .stepping = (d.step.1, some d.step.2) := rfl
  simp [next, begin, proceed, events, stepped]

end Moment

/-- A session after some moves, begun with a debugger between two calls. -/
def session (d : Debugger) (moves : List Move) : Moment :=
  Moment.play { debugger := d } moves

theorem session_append (d : Debugger) (moves more : List Move) :
    d.session (moves ++ more) = (d.session moves).play more :=
  Moment.play_append _ _ _

end Brainfuck.Debugger
