import Brainfuck.Proofs.Debugger.Happenings

/-!
# The interrupt within a call

A call that is left to itself looks for the interrupt before each instruction. Here such a call is
followed turn by turn (`calling`): nothing is executed while the flag is raised, a raised flag is
lowered by the pause for it and by nothing else, and that pause leaves the session as the last
instruction did. `heedsInterrupt` puts this together.
-/

namespace Brainfuck.Debugger

variable {d : Debugger} {pace : Pace} {call : Call} {outcome : Outcome} {k n : Nat}

/-! ### Turns -/

theorem deed_of_raised (raised : d.signal.raised = true) (pace : Pace) :
    d.deed pace = .hold .interrupted ∨ d.deed pace = .finish := by
  cases pace with
  | stepping => exact .inl (by simp [deed, raised])
  | running =>
    cases here : d.program.get? d.machine.pc with
    | none => exact .inr (by simp [deed, here])
    | some i => exact .inl (by simp [deed, here, raised])

/-- A raised flag ends a call at once: with the pause for it, which lowers it, or with the program,
which does not. -/
theorem proceed_of_raised (raised : d.signal.raised = true) (pace : Pace) :
    ∃ outcome, (d.proceed pace).2 = some outcome ∧ d.events pace = [.halted outcome] ∧
      (d.proceed pace).1.machine = d.machine ∧
      (outcome = .paused .interrupted ∧ (d.proceed pace).1.signal.raised = false ∨
        outcome ≠ .paused .interrupted ∧ (d.proceed pace).1.signal.raised = true) := by
  rcases deed_of_raised raised pace with deed | deed
  · refine ⟨.paused .interrupted, ?_, events_of_hold deed, ?_, .inl ⟨rfl, ?_⟩⟩ <;>
      rw [proceed_eq, deed] <;> rfl
  · refine ⟨.finished, ?_, events_of_finish deed, ?_, .inr ⟨nofun, ?_⟩⟩ <;> rw [proceed_eq, deed]
    · rfl
    · rfl
    · exact raised

/-- The pause for the interrupt is made for a raised flag, and changes nothing else. -/
theorem of_interrupted_pause (returns : (d.proceed pace).2 = some (.paused .interrupted)) :
    d.signal.raised = true ∧
      (d.proceed pace).1 = { d with signal := d.signal.lower, phase := .paused .interrupted } := by
  have deed := (outcome_eq_hold_iff (by simp)).mp returns
  have found := d.found_deed pace
  rw [deed] at found
  cases found with
  | interrupted raised => exact ⟨raised, by rw [proceed_eq, deed]; rfl⟩

/-- What is executed in a turn is executed with the flag lowered. -/
theorem lowered_of_executes {index : Nat} {operator : Operator}
    (executes : .executed index operator ∈ d.events pace) : d.signal.raised = false := by
  cases deed : d.deed pace with
  | finish => simp [events_of_finish deed] at executes
  | hold reason => simp [events_of_hold deed] at executes
  | execute i => exact (deed_eq_execute_iff.mp deed).1.lowered

/-- A turn from which the call goes on has executed an instruction. -/
theorem executes_of_goesOn (goesOn : (d.proceed pace).2 = none) :
    ∃ index operator, .executed index operator ∈ d.events pace := by
  cases deed : d.deed pace with
  | finish => simp [proceed_eq, deed, fulfil, finish] at goesOn
  | hold reason => simp [proceed_eq, deed, fulfil] at goesOn
  | execute i =>
    refine ⟨d.machine.pc, i.operator, ?_⟩
    rcases events_of_execute deed with ⟨-, e⟩ | ⟨_, -, -, e⟩ <;> simp [e]

/-! ### Calls left to themselves -/

namespace Moment

variable {m : Moment}

/-- Some turns, with nothing in between. -/
def turns (m : Moment) (n : Nat) : Moment :=
  m.play (List.replicate n .proceed)

theorem turns_add (m : Moment) (k n : Nat) : m.turns (k + n) = (m.turns k).turns n := by
  rw [turns, List.replicate_add, play_append]
  rfl

theorem turns_succ (on : (m.turns n).underway = some pace) :
    m.turns (n + 1) = (m.turns n).proceed pace := by
  rw [turns_add]
  simp [turns, next] at on ⊢
  rw [on]

theorem turns_of_returned (returned : (m.turns k).underway = none) (later : k ≤ n) :
    m.turns n = m.turns k := by
  obtain ⟨more, rfl⟩ := Nat.exists_eq_add_of_le later
  rw [turns_add]
  exact play_replicate_proceed returned more

/-- A call is under way from its beginning on. -/
theorem underway_turns (on : m.underway = some pace) (still : (m.turns n).underway ≠ none)
    (before : k ≤ n) : (m.turns k).underway = some pace := by
  induction k with
  | zero => exact on
  | succ k ih =>
    have ih := ih (Nat.le_of_succ_le before)
    have next := turns_succ ih
    have there : (m.turns (k + 1)).underway ≠ none := fun returned =>
      still (by rw [turns_of_returned returned before, returned])
    rw [next] at there ⊢
    simp only [proceed] at there ⊢
    split
    · rfl
    · simp [*] at there

theorem turns_eq_live (m : Moment) (n : Nat) :
    m.turns n = m.live (List.replicate n (.move .proceed)) := by
  rw [turns, play, live, ← List.map_replicate, List.foldl_map]
  rfl

/-- A call that has returned took a last turn, and nothing has changed since. -/
theorem exists_last_of_turns (on : m.underway = some pace)
    (returned : (m.turns n).underway = none) :
    ∃ last < n, ∃ outcome, (m.turns last).underway = some pace ∧
      ((m.turns last).debugger.proceed pace).2 = some outcome ∧
      m.turns n = (m.turns last).proceed pace := by
  rw [turns_eq_live] at returned
  obtain ⟨before, outcome, last⟩ :=
    exists_last_turn on (by simp [Happening.isTurn]) returned
  obtain ⟨after, split⟩ := last.split
  obtain ⟨length, alike, -⟩ := List.append_eq_replicate_iff.mp split.symm
  have there : m.live before = m.turns before.length := by rw [turns_eq_live, ← alike]
  have still : (m.turns before.length).underway = some pace := there ▸ last.on
  have returns : ((m.turns before.length).debugger.proceed pace).2 = some outcome :=
    there ▸ last.returned
  have next := turns_succ still
  rw [List.length_cons] at length
  refine ⟨before.length, by omega, outcome, still, returns, ?_⟩
  rw [← next]
  exact turns_of_returned (by rw [next]; exact (returned_proceed returns).1) (by omega)

/-- It returned with what its last turn came to. -/
theorem exists_last_of_returned (on : m.underway = some pace)
    (returned : (m.turns n).Returned outcome) :
    ∃ last < n, (m.turns last).underway = some pace ∧
      ((m.turns last).debugger.proceed pace).2 = some outcome ∧
      m.turns n = (m.turns last).proceed pace := by
  obtain ⟨last, before, other, still, returns, same⟩ := exists_last_of_turns on returned.1
  have ended : (m.turns n).Returned other := same ▸ returned_proceed returns
  obtain rfl := ended.unique returned
  exact ⟨last, before, still, returns, same⟩

/-- A raised flag is looked at in the next turn at the latest. -/
theorem returned_of_raised (on : m.underway = some pace)
    (raised : (m.turns k).debugger.signal.raised = true) (later : k < n) :
    ∃ outcome, (m.turns n).Returned outcome ∧
      (m.turns n).debugger.machine = (m.turns k).debugger.machine ∧
      (m.turns n).history.filterMap Event.execution? =
        (m.turns k).history.filterMap Event.execution? := by
  cases there : (m.turns k).underway with
  | none =>
    obtain ⟨last, -, outcome, -, returns, same⟩ := exists_last_of_turns on there
    rw [turns_of_returned there (Nat.le_of_lt later)]
    refine ⟨outcome, ?_, rfl, rfl⟩
    rw [same]
    exact returned_proceed returns
  | some _ =>
    have still := underway_turns on (by simp [there]) (Nat.le_refl k)
    obtain ⟨outcome, returns, events, machine, -⟩ := proceed_of_raised raised pace
    have next := turns_succ still
    have returned : (m.turns (k + 1)).Returned outcome := next ▸ returned_proceed returns
    rw [turns_of_returned returned.1 later]
    refine ⟨outcome, returned, by rw [next]; exact machine, ?_⟩
    rw [next, proceed, events]
    rfl

/-- A flag that has been raised is lowered by the pause for it, and by nothing else. -/
theorem raised_of_returned (on : m.underway = some pace)
    (raised : (m.turns k).debugger.signal.raised = true)
    (returned : (m.turns n).Returned outcome) :
    outcome = .paused .interrupted ∧ (m.turns n).debugger.signal.raised = false ∨
      outcome ≠ .paused .interrupted ∧ (m.turns n).debugger.signal.raised = true := by
  obtain ⟨last, before, still, returns, same⟩ := exists_last_of_returned on returned
  cases lowered : (m.turns last).debugger.signal.raised with
  | true =>
    obtain ⟨_, returns', -, -, kept⟩ := proceed_of_raised lowered pace
    obtain rfl := Option.some_inj.mp (returns'.symm.trans returns)
    rw [same]
    exact kept
  | false =>
    -- The flag was raised by the last turn, so that it is as the call has left it.
    have after : last < k := by
      by_contra notAfter
      rcases Nat.lt_or_eq_of_le (Nat.le_of_not_lt notAfter) with earlier | rfl
      · obtain ⟨_, ended, -⟩ := returned_of_raised on raised earlier
        cases still.symm.trans ended.1
      · cases raised.symm.trans lowered
    have ended : (m.turns (last + 1)).underway = none := by
      rw [turns_succ still]
      exact (returned_proceed returns).1
    have unchanged : m.turns n = m.turns k :=
      (turns_of_returned ended before).trans (turns_of_returned ended after).symm
    refine .inr ⟨?_, unchanged ▸ raised⟩
    rintro rfl
    cases (of_interrupted_pause returns).1.symm.trans lowered

/-- Before the pause for the interrupt every turn has executed an instruction, and the pause leaves
the session as the last of them did. -/
theorem unchanged_of_interrupted (on : m.underway = some pace)
    (returned : (m.turns n).Returned (.paused .interrupted)) :
    ∃ last < n, (m.turns last).debugger.signal.raised = true ∧
      (∀ j < last, ∃ index operator,
        .executed index operator ∈ (m.turns j).debugger.events pace) ∧
      (m.turns n).debugger =
        { (m.turns last).debugger with
          signal := (m.turns last).debugger.signal.lower, phase := .paused .interrupted } := by
  obtain ⟨last, before, still, returns, same⟩ := exists_last_of_returned on returned
  obtain ⟨raised, unchanged⟩ := of_interrupted_pause returns
  refine ⟨last, before, raised, fun j earlier => ?_, by rw [same]; exact unchanged⟩
  have there := underway_turns on (by simp [still]) (Nat.le_of_lt earlier)
  have next := underway_turns on (by simp [still]) (Nat.succ_le_of_lt earlier)
  refine executes_of_goesOn (Option.eq_none_iff_forall_ne_some.mpr fun outcome goesOn => ?_)
  rw [turns_succ there, (returned_proceed goesOn).1] at next
  cases next

end Moment

/-- A call, and what becomes of it when it is left to itself for some turns. -/
def calling (d : Debugger) (call : Call) (n : Nat) : Moment :=
  (Moment.begin { debugger := d } call).turns n

/-- How a call deals with the interrupt. -/
structure HeedsInterrupt (d : Debugger) (call : Call) (pace : Pace) : Prop where
  /-- The call begins with the flag as it is. -/
  begun : (d.calling call 0).underway = some pace ∧
    (d.calling call 0).debugger.signal = d.signal
  /-- Every instruction is executed with the flag lowered. -/
  lowered : ∀ n index operator, (d.calling call n).underway = some pace →
    .executed index operator ∈ (d.calling call n).debugger.events pace →
    (d.calling call n).debugger.signal.raised = false
  /-- When the flag has been raised the next turn is the last at most, and executes nothing. -/
  prompt : ∀ k n, k < n → (d.calling call k).debugger.signal.raised = true →
    ∃ outcome, (d.calling call n).Returned outcome ∧
      (d.calling call n).debugger.machine = (d.calling call k).debugger.machine ∧
      (d.calling call n).history.filterMap Event.execution? =
        (d.calling call k).history.filterMap Event.execution?
  /-- A call in which the flag was raised pauses for it and has lowered it, or returns with
  something else and the flag is still raised. -/
  kept : ∀ k n outcome, (d.calling call k).debugger.signal.raised = true →
    (d.calling call n).Returned outcome →
    outcome = .paused .interrupted ∧ (d.calling call n).debugger.signal.raised = false ∨
      outcome ≠ .paused .interrupted ∧ (d.calling call n).debugger.signal.raised = true
  /-- A call that pauses for the interrupt executed an instruction in each turn but the last one,
  and that changed nothing else. -/
  unchanged : ∀ n, (d.calling call n).Returned (.paused .interrupted) →
    ∃ last < n, (d.calling call last).debugger.signal.raised = true ∧
      (∀ j < last, ∃ index operator,
        .executed index operator ∈ (d.calling call j).debugger.events pace) ∧
      (d.calling call n).debugger =
        { (d.calling call last).debugger with
          signal := (d.calling call last).debugger.signal.lower, phase := .paused .interrupted }

/-- So does every call that executes instructions, in every session. -/
theorem heedsInterrupt (d : Debugger) {call : Call} {pace : Pace} (paced : call.pace? = some pace) :
    d.HeedsInterrupt call pace := by
  have begun : (d.calling call 0).underway = some pace ∧
      (d.calling call 0).debugger.signal = d.signal := by
    have started : (Moment.started { debugger := d }).debugger.signal = d.signal := by
      rw [Moment.debugger_started]
      unfold Debugger.started
      split <;> rfl
    cases call with
    | run => exact ⟨paced, rfl⟩
    | resume => exact ⟨paced, started⟩
    | step => exact ⟨paced, started⟩
    | reset | adjust => cases paced
  have on : (Moment.begin { debugger := d } call).underway = some pace := begun.1
  constructor
  case begun => exact begun
  case lowered => exact fun n index operator _ executes => lowered_of_executes executes
  case prompt => exact fun k n later raised => Moment.returned_of_raised on raised later
  case kept => exact fun k n outcome raised returned => Moment.raised_of_returned on raised returned
  case unchanged => exact fun n returned => Moment.unchanged_of_interrupted on returned

end Brainfuck.Debugger
