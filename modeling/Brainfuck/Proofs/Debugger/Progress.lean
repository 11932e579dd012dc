import Brainfuck.Proofs.Debugger.Breaking
import Brainfuck.Proofs.Debugger.Transparency
import Brainfuck.Proofs.Program.Reading

/-!
# Debug sessions make progress

Before an instruction a session can pause for a breakpoint, for the stop point and for a watched
cell, once for each, whatever is asked of it in between; after the instruction it can pause once
more. So every executed instruction pays for four calls, and only calls that were interrupted come
on top. `session_makes_progress` says so, and that no call goes on for ever, if uninterrupted
execution does not.
-/

namespace Brainfuck.Debugger

def Event.isReturn : Event → Bool
  | .halted _ => true
  | .reset | .executed _ _ => false

/-- How many calls have returned. -/
def returns (history : List Event) : Nat :=
  history.countP Event.isReturn

/-- How many of them have returned because of an interrupt. -/
def interruptions (history : List Event) : Nat :=
  history.count (.halted (.paused .interrupted))

@[simp] theorem returns_cons (event : Event) (history : List Event) :
    returns (event :: history) = returns history + if event.isReturn then 1 else 0 :=
  List.countP_cons

@[simp] theorem interruptions_cons (event : Event) (history : List Event) :
    interruptions (event :: history) =
      interruptions history + if event = .halted (.paused .interrupted) then 1 else 0 := by
  simp [interruptions, List.count_cons]

@[simp] theorem executions_cons (event : Event) (history : List Event) :
    executions (event :: history) = executions history + if event.isExecution then 1 else 0 :=
  List.countP_cons

/-! ### What is paid for -/

/-- How many pauses have been made before the next instruction, other than for interrupts. -/
def pausesMade (d : Debugger) : Nat :=
  d.visit.breakpoint.toNat + d.visit.stopPoint.toNat + (decide (d.dwell = .consumed)).toNat

theorem pausesMade_le (d : Debugger) : d.pausesMade ≤ 3 := by
  unfold pausesMade
  have breakpoint := d.visit.breakpoint.toNat_le
  have stopPoint := d.visit.stopPoint.toNat_le
  have watch := (decide (d.dwell = .consumed)).toNat_le
  omega

theorem pausesMade_adjust (d : Debugger) (a : Adjustment) :
    (d.adjust a).pausesMade = d.pausesMade := by
  obtain ⟨-, machine, -, reported⟩ := d.adjust_frame a
  simp only [pausesMade, visit, machine, reported, d.consumed_adjust a]

/-- Every pause that is made before an instruction is one more, except for an interrupt. -/
theorem pausesMade_held {d : Debugger} {pace : Pace} {reason : Pause}
    (deed : d.deed pace = .hold reason) :
    (d.held reason).pausesMade = d.pausesMade + if reason = .interrupted then 0 else 1 := by
  have found := d.found_deed pace
  rw [deed] at found
  cases found with
  | interrupted => rfl
  | breakpoint _ _ _ breaks =>
    simp only [Debugger.breaks, Bool.and_eq_true, Bool.not_eq_true'] at breaks
    have dwell : (d.held (.breakpoint d.machine.pc)).dwell = d.dwell := rfl
    simp only [pausesMade, visit_held, breaks.2, dwell, Bool.toNat_true, Bool.toNat_false,
      reduceCtorEq, if_false]
    omega
  | stopPoint _ _ _ _ stops =>
    simp only [Debugger.stops, Bool.and_eq_true, Bool.not_eq_true'] at stops
    have dwell : (d.held (.stopPoint d.machine.pc)).dwell = d.dwell := rfl
    simp only [pausesMade, visit_held_stopPoint, stops.2, dwell, Bool.toNat_true, Bool.toNat_false,
      reduceCtorEq, if_false]
    omega
  | watch i _ guarded =>
    have open' : d.dwell ≠ .consumed := by
      intro consumed
      simp [guards, look, consumed] at guarded
    have dwell : (d.held (.watch d.pointer)).dwell = .consumed := rfl
    simp [pausesMade, visit_held_watch, dwell, open']

/-- Calls are paid for by the instructions that have been executed. Before the next instruction the
pauses made there are still to be paid; at the end of the program there is nothing more to pay, and
the call that has come there is paid too. -/
structure Paid (m : Moment) : Prop where
  inside : m.debugger.machine.pc < m.debugger.program.size →
    returns m.history ≤
      4 * executions m.history + interruptions m.history + m.debugger.pausesMade
  outside : m.debugger.program.size ≤ m.debugger.machine.pc →
    (m.underway = some .running ∧
        returns m.history + 1 ≤ 4 * executions m.history + interruptions m.history) ∨
      (.halted .finished ∈ m.history ∧
        returns m.history ≤ 4 * executions m.history + interruptions m.history)
  unbegun : m.underway = none → m.debugger.phase = .idle →
    .halted .finished ∉ m.history → m.history = []

variable {d₀ : Debugger} {m : Moment}

theorem Fresh.pc_eq {d : Debugger} (fresh : d.Fresh) : d.machine.pc = 0 := by
  rcases fresh with ⟨_, _, _, rfl⟩ | ⟨_, rfl⟩ <;> rfl

theorem Fresh.paid {d : Debugger} (fresh : d.Fresh) (some : 0 < d.program.size) :
    Paid ⟨d, none, []⟩ where
  inside := fun _ => Nat.zero_le _
  outside := by
    intro ended
    have ended : d.program.size ≤ d.machine.pc := ended
    rw [fresh.pc_eq] at ended
    omega
  unbegun := fun _ _ _ => rfl

/-- The first call sets back a session in which nothing has happened yet. -/
theorem Paid.begun (h : Paid m) (some : 0 < m.debugger.program.size) (idle : m.underway = none)
    (phase : m.debugger.phase = .idle) (unfinished : .halted .finished ∉ m.history) (pace : Pace) :
    Paid { m.reset with underway := .some pace } where
  inside := by
    intro _
    simp [Moment.reset, h.unbegun idle phase unfinished, Event.isReturn, returns]
  outside := fun ended => absurd some (Nat.not_lt.mpr ended)
  unbegun := fun returned => by cases returned

theorem Paid.adjust (h : Paid m) (a : Adjustment) : Paid (m.begin (.adjust a)) := by
  obtain ⟨program, machine, phase, -⟩ := m.debugger.adjust_frame a
  have pauses := m.debugger.pausesMade_adjust a
  refine ⟨?_, ?_, ?_⟩
  · simpa only [Moment.begin, program, machine, pauses] using h.inside
  · simpa only [Moment.begin, program, machine] using h.outside
  · simpa only [Moment.begin, phase] using h.unbegun

theorem Paid.hold (h : Paid m) {pace : Pace} {reason : Pause}
    (inside : m.debugger.machine.pc < m.debugger.program.size)
    (deed : m.debugger.deed pace = .hold reason) : Paid (m.proceed pace) where
  inside := by
    intro _
    have paid := h.inside inside
    have pauses := pausesMade_held deed
    simp only [Moment.proceed, proceed_eq, deed, fulfil, events_of_hold deed, List.singleton_append,
      returns_cons, executions_cons, interruptions_cons, Event.isReturn, Event.isExecution, pauses]
    by_cases interrupt : reason = .interrupted
    · simp only [interrupt, if_true]
      omega
    · simp only [interrupt, Event.halted.injEq, Outcome.paused.injEq, if_true, if_false]
      omega
  outside := by
    intro ended
    simp only [Moment.proceed, proceed_eq, deed, program_fulfil, machine_fulfil] at ended
    omega
  unbegun := fun returned idle unfinished => absurd (Moment.finished_of_idle returned idle) unfinished

theorem EndsInstruction.ne_interrupted {outcome : Outcome} (h : EndsInstruction outcome) :
    outcome ≠ .paused .interrupted := by
  rcases h with rfl | rfl | rfl <;> simp

theorem Paid.execute (h : Paid m) {pace : Pace} {i : Instruction}
    (deed : m.debugger.deed pace = .execute i) : Paid (m.proceed pace) := by
  have inside := lt_size_of_get? (deed_eq_execute_iff.mp deed).1.here
  have paid := h.inside inside
  have few := m.debugger.pausesMade_le
  have finishes : ∀ outcome, (m.debugger.proceed pace).2 = some outcome →
      m.debugger.program.size ≤ (m.debugger.machine.execute i).pc → outcome = .finished := by
    intro outcome returned ended
    rw [proceed_eq, deed] at returned
    rcases m.debugger.fulfil_execute_cases pace i with ⟨e, -⟩ | ⟨_, -, -, inside⟩ | ⟨_, e, -⟩
    · simp [e] at returned
    · omega
    · simpa [e, eq_comm] using returned
  -- At most three pauses have been made here, so the instruction pays for one more return.
  refine ⟨fun _ => ?_, fun ended => ?_, fun returned idle unfinished =>
    absurd (Moment.finished_of_idle returned idle) unfinished⟩
  · rcases events_of_execute deed with ⟨-, e⟩ | ⟨outcome, -, ends, e⟩
    · simp [Moment.proceed, e, Event.isReturn, Event.isExecution]
      omega
    · simp [Moment.proceed, e, Event.isReturn, Event.isExecution, ends.ne_interrupted]
      omega
  · simp only [Moment.proceed, proceed_eq, deed, program_fulfil, machine_fulfil] at ended
    rcases events_of_execute deed with ⟨none, e⟩ | ⟨outcome, some, ends, e⟩
    · left
      obtain rfl : pace = .running := by
        cases pace with
        | running => rfl
        | stepping => cases none
      refine ⟨by simp [Moment.proceed, none], ?_⟩
      simp [Moment.proceed, e, Event.isReturn, Event.isExecution]
      omega
    · right
      obtain rfl := finishes outcome some ended
      simp [Moment.proceed, e, Event.isReturn, Event.isExecution]
      omega

theorem Paid.proceed (h : Paid m) {pace : Pace} (underway : m.underway = some pace)
    (unfinished : .halted .finished ∉ m.history) : Paid (m.proceed pace) := by
  by_cases inside : m.debugger.machine.pc < m.debugger.program.size
  · cases deed : m.debugger.deed pace with
    | finish =>
      have found := m.debugger.found_deed pace
      rw [deed] at found
      cases found with
      | ended nothing => exact absurd inside (Nat.not_lt.mpr (Array.getElem?_eq_none_iff.mp nothing))
    | hold reason => exact h.hold inside deed
    | execute i => exact h.execute deed
  · -- The call that has come to the end is a run, and all it can do is to finish.
    rcases h.outside (Nat.le_of_not_lt inside) with ⟨running, paid⟩ | ⟨finished, -⟩
    · obtain rfl : pace = .running := Option.some.inj (underway.symm.trans running)
      have nothing : m.debugger.program.get? m.debugger.machine.pc = none :=
        Array.getElem?_eq_none (Nat.le_of_not_lt inside)
      have deed : m.debugger.deed .running = .finish := by simp [Debugger.deed, nothing]
      refine ⟨fun now => ?_, fun _ => .inr ?_, fun returned idle unfinished =>
        absurd (Moment.finished_of_idle returned idle) unfinished⟩
      · simp only [Moment.proceed, proceed_eq, deed, program_fulfil, machine_fulfil] at now
        exact absurd now inside
      · simp [Moment.proceed, events_of_finish deed, Event.isReturn, Event.isExecution]
        omega
    · exact absurd finished unfinished

/-- Calls are paid for up to the first one that finishes. -/
theorem paid_session (fresh : d₀.Fresh) (some : 0 < d₀.program.size) {moves : List Move}
    (onward : ∀ move ∈ moves, move.goesOn)
    (first : .halted .finished ∉ (d₀.session moves).history.tail) :
    Paid (d₀.session moves) := by
  refine (onward_induction (P := fun m => m.debugger.program = d₀.program ∧ Paid m) onward first
    ⟨rfl, fresh.paid some⟩ ?_ ?_ ?_ ?_ ?_).2
  · rintro m pace idle phase unfinished ⟨program, h⟩
    exact ⟨program, h.begun (program ▸ some) idle phase unfinished pace⟩
  · rintro m pace reason idle phase ⟨program, h⟩
    refine ⟨program, h.inside, fun ended => ?_, fun returned => by cases returned⟩
    rcases h.outside ended with ⟨running, -⟩ | finished
    · rw [idle] at running
      cases running
    · exact .inr finished
  · rintro m a _ ⟨program, h⟩
    exact ⟨(m.debugger.adjust_frame a).1.trans program, h.adjust a⟩
  · rintro m pace underway unfinished ⟨program, h⟩
    refine ⟨?_, h.proceed underway unfinished⟩
    rw [Moment.proceed, proceed_eq, program_fulfil, program]
  · rintro m ⟨program, h⟩
    exact ⟨program, h.inside, h.outside, h.unbegun⟩

/-! ### No call goes on for ever -/

/-- A call is left to itself, but for interrupts. -/
def Move.isTurn : Move → Bool
  | .proceed | .interrupt => true
  | .call _ => false

/-- Nothing happens without a call. -/
theorem play_of_returned {more : List Move} (turns : ∀ move ∈ more, move.isTurn)
    (returned : m.underway = none) : (m.play more).underway = none := by
  induction more generalizing m with
  | nil => exact returned
  | cons move rest ih =>
    obtain ⟨first, others⟩ := List.forall_mem_cons.mp turns
    refine ih others ?_
    cases move with
    | call => cases first
    | proceed => simp [Moment.next, returned]
    | interrupt => simpa [Moment.next] using returned

/-- A turn without an outcome is a step of the machine. -/
theorem step?_of_proceed {d : Debugger} {pace : Pace} (going : (d.proceed pace).2 = none) :
    d.machine.step? d.program = some (d.proceed pace).1.machine := by
  rw [proceed_eq] at going ⊢
  cases deed : d.deed pace with
  | finish => simp [deed, fulfil, finish] at going
  | hold reason => simp [deed, fulfil] at going
  | execute i =>
    rw [machine_fulfil, Machine.step?_of_get? (deed_eq_execute_iff.mp deed).1.here]

/-- As long as a call is under way, each of its turns is a step of the machine. -/
theorem after?_of_underway {more : List Move} (turns : ∀ move ∈ more, move.isTurn)
    (going : (m.play more).underway ≠ none) :
    after? (Machine.step? m.debugger.program) (more.count .proceed) m.debugger.machine =
      some (m.play more).debugger.machine := by
  induction more generalizing m with
  | nil => rfl
  | cons move rest ih =>
    obtain ⟨first, others⟩ := List.forall_mem_cons.mp turns
    have later := ih (m := m.next move) others going
    cases move with
    | call => cases first
    | interrupt =>
      rw [List.count_cons_of_ne (by decide)]
      exact later
    | proceed =>
      cases underway : m.underway with
      | none => exact absurd (play_of_returned turns underway) going
      | some pace =>
        have next : m.next .proceed = m.proceed pace := by simp [Moment.next, underway]
        have open' : (m.debugger.proceed pace).2 = none := by
          by_contra outcome
          have returned : (m.next .proceed).underway = none := by
            simp [next, Moment.proceed, outcome]
          have stopped : ((m.next .proceed).play rest).underway = none :=
            play_of_returned others returned
          exact going stopped
        have program := m.debugger.program_proceed pace
        rw [next] at later
        simp only [Moment.proceed, program] at later
        rw [List.count_cons_self, after?, step?_of_proceed open', Moment.play_cons, next]
        exact later

/-- If uninterrupted execution of an analysed program ends after some instructions, a session that
goes on with it, up to the first call that finishes, has no more than four calls for each of them
and one for each interrupt, and when it has had so many, one has finished. No call goes on for ever:
it returns after as many turns as there are instructions, and one more. -/
theorem session_makes_progress {byLine : Bool} {source : String} {d₀ : Debugger}
    (analysed : Program.ofSource byLine source = .ok d₀.program) (fresh : d₀.Fresh) {n : Nat}
    {last : Machine} (reached : after? (Machine.step? d₀.program) n d₀.machine = some last)
    (ended : last.step? d₀.program = none) {moves : List Move}
    (onward : ∀ move ∈ moves, move.goesOn)
    (first : .halted .finished ∉ (d₀.session moves).history.tail) :
    let m := d₀.session moves
    returns m.history ≤ 4 * n + interruptions m.history ∧
      (4 * n + interruptions m.history ≤ returns m.history → .halted .finished ∈ m.history) ∧
      ∀ more : List Move, (∀ move ∈ more, move.isTurn) → n < more.count .proceed →
        (m.play more).underway = none := by
  intro m
  have paid : Paid m := paid_session fresh (size_pos_of_ofSource analysed) onward first
  have follows : Follows d₀ m := follows_play fresh onward first
  have executed : executions m.history ≤ n := le_of_after? reached ended follows.machine
  have bounds : returns m.history ≤ 4 * n + interruptions m.history ∧
      (4 * n + interruptions m.history ≤ returns m.history → .halted .finished ∈ m.history) := by
    by_cases inside : m.debugger.machine.pc < m.debugger.program.size
    · -- The next instruction is one of those that pay.
      obtain ⟨i, here⟩ : ∃ i, d₀.program.get? m.debugger.machine.pc = some i :=
        ⟨_, Array.getElem?_eq_getElem (follows.program ▸ inside)⟩
      have next := after?_succ follows.machine
      rw [Machine.step?_of_get? here] at next
      have more := le_of_after? reached ended next
      have bound := paid.inside inside
      have few := m.debugger.pausesMade_le
      omega
    · rcases paid.outside (Nat.le_of_not_lt inside) with ⟨-, bound⟩ | ⟨finished, bound⟩
      · omega
      · exact ⟨by omega, fun _ => finished⟩
  refine ⟨bounds.1, bounds.2, fun more turns enough => ?_⟩
  by_contra going
  have further := after?_of_underway turns going
  rw [follows.program] at further
  have far := le_of_after? reached ended (after?_trans follows.machine further)
  omega

/-- An interrupt, a breakpoint, the stop point and a watch before the only instruction: the fifth
call finishes, and no session with the program takes more of them. -/
theorem fifth_call_finishes :
    let p : Program := ⟨#[⟨.increment, 1⟩], some #[some 0], 1, #[]⟩
    let d₀ := ofProgram p [] {}
    let points : List Move := [.call (.adjust (.addBreakpoint 1)),
      .call (.adjust (.setStopPoint 0)), .call (.adjust (.addWatch 0)), .interrupt]
    let moves := points ++ (List.replicate 5 [.call .resume, .proceed, .proceed]).flatten
    (Program.ofSource true "+" = .ok d₀.program ∧ d₀.Fresh ∧
      (∃ last, after? (Machine.step? d₀.program) 1 d₀.machine = some last ∧
        last.step? d₀.program = none) ∧
      (∀ move ∈ moves, move.goesOn) ∧ .halted .finished ∉ (d₀.session moves).history.tail) ∧
    (returns (d₀.session moves).history = 5 ∧ interruptions (d₀.session moves).history = 1) ∧
    returns (d₀.session moves).history ≤ 4 * 1 + interruptions (d₀.session moves).history ∧
    .halted .finished ∈ (d₀.session moves).history := by
  intro p d₀ points moves
  have analysed : Program.ofSource true "+" = .ok d₀.program := by cbv
  have fresh : d₀.Fresh := .inl ⟨p, [], {}, rfl⟩
  have ended : (d₀.machine.execute ⟨.increment, 1⟩).step? p = none := by rfl
  have onward : ∀ move ∈ moves, move.goesOn := by decide
  have first : .halted .finished ∉ (d₀.session moves).history.tail := by decide +kernel
  have counts : returns (d₀.session moves).history = 5 ∧
      interruptions (d₀.session moves).history = 1 := by
    decide +kernel
  obtain ⟨bound, finishes, -⟩ :=
    session_makes_progress analysed fresh (n := 1) rfl ended onward first
  refine ⟨⟨analysed, fresh, ⟨_, rfl, ended⟩, onward, first⟩, counts, bound, finishes ?_⟩
  omega

end Brainfuck.Debugger
