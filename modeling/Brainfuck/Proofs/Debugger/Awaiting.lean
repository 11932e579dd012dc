import Brainfuck.Proofs.Debugger.Happenings

/-!
# Ends of loops that are waited for

A session that waits for the end of a loop does so over any number of calls and pauses, until some
loop is left: the call then returns at once, and the waiting is over. `awaitsExit_happen` says what
begins and what ends the waiting, `outcome_loopExit_iff` when a turn reports the end of a loop, and
`loop_exit_reported_once` puts together what that means for whole calls and sessions.
-/

namespace Brainfuck.Debugger

/-- In its next turn a call executes the end of a loop, and the cell is zero. -/
def LeavesLoop (d : Debugger) (pace : Pace) : Prop :=
  ∃ i, d.deed pace = .execute i ∧ i.operator = .loopEnd ∧ d.machine.tape.current = 0

variable {d : Debugger} {pace : Pace} {i : Instruction} {m : Moment}

/-! ### Turns -/

theorem exits_iff (deed : d.deed pace = .execute i) :
    d.exits i = true ↔ d.awaitsExit = true ∧ d.LeavesLoop pace := by
  simp only [exits, LeavesLoop, deed, Bool.and_eq_true, decide_eq_true_eq, Deed.execute.injEq,
    exists_eq_left']
  constructor
  · rintro ⟨⟨operator, waits⟩, zero⟩
    exact ⟨waits, operator, zero⟩
  · rintro ⟨waits, operator, zero⟩
    exact ⟨⟨operator, waits⟩, zero⟩

theorem pauseAfter_eq_loopExit_iff : d.pauseAfter i pace = some .loopExit ↔ d.exits i = true := by
  unfold pauseAfter
  split
  · simp [*]
  · cases pace <;> simp [*]

/-- A loop that is left while that is waited for ends the call, with a report or with the
program. -/
theorem proceed_of_leavesLoop (leaves : d.LeavesLoop pace) (waits : d.awaitsExit = true) :
    (d.proceed pace).1.awaitsExit = false ∧
      ∃ outcome, (d.proceed pace).2 = some outcome ∧
        (outcome = if (d.proceed pace).1.machine.pc < d.program.size then .paused .loopExit
          else .finished) ∧
        d.events pace = [.halted outcome, .executed d.machine.pc .loopEnd] := by
  obtain ⟨i, deed, operator, zero⟩ := leaves
  have exits : d.exits i = true := (exits_iff deed).mpr ⟨waits, i, deed, operator, zero⟩
  have pauses : d.pauseAfter i pace = some .loopExit := pauseAfter_eq_loopExit_iff.mpr exits
  have pc : (d.proceed pace).1.machine = d.machine.execute i := by
    rw [proceed_eq, machine_fulfil, deed]
  have same : d.proceed pace = d.fulfil pace (.execute i) := by rw [proceed_eq, deed]
  rw [pc]
  rcases d.fulfil_execute_cases pace i with ⟨-, none⟩ | ⟨reason, e, some, inside⟩ | ⟨_, e, -, ended⟩
  · cases none.symm.trans pauses
  · obtain rfl : reason = .loopExit := Option.some_inj.mp (some.symm.trans pauses)
    refine ⟨?_, .paused .loopExit, by rw [same, e], (if_pos inside).symm, ?_⟩
    · rw [same, e]
      simp [executed, exits]
    · simp [events, same, e, deed, operator]
  · refine ⟨by rw [same, e], .finished, by rw [same, e], (if_neg (Nat.not_lt.mpr ended)).symm, ?_⟩
    simp [events, same, e, deed, operator]

/-- A turn reports the end of a loop if and only if that is waited for, a loop is left, and the
program does not end with it. -/
theorem outcome_loopExit_iff :
    (d.proceed pace).2 = some (.paused .loopExit) ↔
      d.awaitsExit = true ∧ d.LeavesLoop pace ∧
        (d.proceed pace).1.machine.pc < d.program.size := by
  constructor
  · intro reports
    have found := d.found_deed pace
    cases deed : d.deed pace with
    | finish => simp [proceed_eq, deed, fulfil, finish] at reports
    | hold reason =>
      obtain rfl : reason = .loopExit := by simpa [proceed_eq, deed, fulfil] using reports
      rw [deed] at found
      cases found
    | execute i =>
      have same : d.proceed pace = d.fulfil pace (.execute i) := by rw [proceed_eq, deed]
      rcases d.fulfil_execute_cases pace i with ⟨e, -⟩ | ⟨reason, e, pauses, inside⟩ | ⟨_, e, -⟩
      · simp [same, e] at reports
      · obtain rfl : reason = .loopExit := by simpa [same, e] using reports
        obtain ⟨waits, leaves⟩ := (exits_iff deed).mp (pauseAfter_eq_loopExit_iff.mp pauses)
        refine ⟨waits, leaves, ?_⟩
        rw [same, machine_fulfil]
        exact inside
      · simp [same, e] at reports
  · rintro ⟨waits, leaves, inside⟩
    obtain ⟨-, outcome, returned, reached, -⟩ := proceed_of_leavesLoop leaves waits
    rw [returned, reached, if_pos inside]

theorem awaitsExit_executed (deed : d.deed pace = .execute i) :
    (d.executed i).awaitsExit = true ↔ d.awaitsExit = true ∧ ¬ d.LeavesLoop pace := by
  have after : (d.executed i).awaitsExit = (d.awaitsExit && !d.exits i) := rfl
  rw [after, Bool.and_eq_true, Bool.not_eq_true', ← Bool.not_eq_true, exits_iff deed]
  exact and_congr_right fun waits => by simp [waits]

/-- After a turn a session still waits, unless a loop has been left or the program has finished. -/
theorem awaitsExit_proceed :
    (d.proceed pace).1.awaitsExit = true ↔
      d.awaitsExit = true ∧ ¬ d.LeavesLoop pace ∧ (d.proceed pace).2 ≠ some .finished := by
  rw [proceed_eq]
  cases deed : d.deed pace with
  | finish => simp [fulfil, finish]
  | hold reason =>
    have kept : (d.held reason).awaitsExit = d.awaitsExit := by cases reason <;> rfl
    simp [fulfil, kept, LeavesLoop, deed]
  | execute i =>
    have executed := awaitsExit_executed deed
    rcases d.fulfil_execute_cases pace i with ⟨e, -⟩ | ⟨_, e, -⟩ | ⟨_, e, -⟩ <;> rw [e]
    · simp [executed]
    · simp [executed]
    · simp

/-! ### What begins the waiting and what ends it -/

/-- A request to wait for the end of a loop, answered that this is new. -/
def Moment.arms (m : Moment) : Happening → Bool
  | .move (.call (.adjust .awaitExit)) => m.underway.isNone && m.debugger.awaitExit.2
  | _ => false

/-- What ends the waiting: a loop that is left, the end of the program, the request to wait no
longer, and a call that sets the session back. -/
def Moment.Disarms (m : Moment) : Happening → Prop
  | .move .proceed => ∃ pace, m.underway = some pace ∧
      (m.debugger.LeavesLoop pace ∨ (m.debugger.proceed pace).2 = some .finished)
  | .move (.call (.adjust a)) => m.underway = none ∧ a = .cancelAwait
  | .move (.call call) => m.underway = none ∧ call.setsBack m.debugger = true
  | .move .interrupt | .outside .. => False

theorem awaitsExit_happen (m : Moment) (happening : Happening) :
    (m.happen happening).debugger.awaitsExit = true ↔
      m.arms happening = true ∨ m.debugger.awaitsExit = true ∧ ¬ m.Disarms happening := by
  have passes := m.passes_happen happening
  generalize m.happen happening = after at passes
  cases passes with
  | turn pace on => simp [Moment.arms, Moment.Disarms, on, Moment.proceed, awaitsExit_proceed]
  | setBack call returned back =>
    have fresh : m.reset.debugger.awaitsExit = false := rfl
    cases call <;> simp_all [Moment.arms, Moment.Disarms, Call.setsBack]
  | goOn call pace returned paced onward =>
    cases call <;> simp_all [Moment.arms, Moment.Disarms, Call.setsBack, Call.pace?]
  | adjust a returned =>
    rw [awaitsExit_adjust]
    cases a <;> cases waits : m.debugger.awaitsExit <;>
      simp [Moment.arms, Moment.Disarms, returned, waits, Debugger.awaitExit]
  | busy call pace on =>
    cases call with
    | adjust a => cases a <;> simp [Moment.arms, Moment.Disarms, on]
    | run | resume | step | reset => simp [Moment.arms, Moment.Disarms, on]
  | unbegun returned => simp [Moment.arms, Moment.Disarms, returned]
  | interrupt => simp [Moment.arms, Moment.Disarms, interrupt]
  | outside => simp [Moment.arms, Moment.Disarms, surrounded]

/-! ### Whole calls -/

/-- A call does not begin to wait by itself. -/
theorem awaitsExit_of_live {later : List Happening}
    (turns : ∀ happening ∈ later, happening.isTurn = true)
    (waits : (m.live later).debugger.awaitsExit = true) : m.debugger.awaitsExit = true := by
  induction later generalizing m with
  | nil => exact waits
  | cons happening later ih =>
    obtain ⟨turn, others⟩ := List.forall_mem_cons.mp turns
    rcases (awaitsExit_happen m happening).mp (ih others waits) with arms | ⟨waits, -⟩
    · cases happening with
      | outside => cases arms
      | move move =>
        cases move with
        | call => cases turn
        | proceed | interrupt => cases arms
    · exact waits

/-- Among what happens to a call there is a turn that leaves an awaited loop, and the program goes
on after it. -/
def Moment.LeavesAwaited (m : Moment) (pace : Pace) (later : List Happening) : Prop :=
  ∃ before after, later = before ++ .move .proceed :: after ∧
    (m.live before).underway = some pace ∧ (m.live before).debugger.awaitsExit = true ∧
    (m.live before).debugger.LeavesLoop pace ∧
    ((m.live before).debugger.proceed pace).1.machine.pc < (m.live before).debugger.program.size

/-- A call that is left to itself reports the end of a loop if and only if it leaves an awaited
one on the way. -/
theorem returned_loopExit_iff (on : m.underway = some pace) {later : List Happening}
    (turns : ∀ happening ∈ later, happening.isTurn = true) :
    (m.live later).Returned (.paused .loopExit) ↔ m.LeavesAwaited pace later := by
  constructor
  · intro returned
    obtain ⟨before, outcome, last⟩ := Moment.exists_last_turn on turns returned.1
    obtain ⟨after, split⟩ := last.split
    obtain rfl := last.call_returned.unique returned
    exact ⟨before, after, split, last.on, outcome_loopExit_iff.mp last.returned⟩
  · rintro ⟨before, after, rfl, still, waits, leaves, inside⟩
    have reports : ((m.live before).debugger.proceed pace).2 = some (.paused .loopExit) :=
      outcome_loopExit_iff.mpr ⟨waits, leaves, inside⟩
    have last := Moment.lastTurn_of_returned still reports fun happening mem =>
      turns happening (List.mem_append_right _ (List.mem_cons_of_mem _ mem))
    exact last.call_returned

/-- It waited from its beginning on, the loop's end is the last thing it executed, and it waits no
longer. -/
theorem loopEnd_of_returned (on : m.underway = some pace) {later : List Happening}
    (turns : ∀ happening ∈ later, happening.isTurn = true)
    (returned : (m.live later).Returned (.paused .loopExit)) :
    m.debugger.awaitsExit = true ∧ (m.live later).debugger.awaitsExit = false ∧
      ∃ index newer, (m.live later).history =
        .halted (.paused .loopExit) :: .executed index .loopEnd :: newer ++ m.history := by
  obtain ⟨before, after, rfl, still, waits, leaves, inside⟩ :=
    (returned_loopExit_iff on turns).mp returned
  obtain ⟨ended, outcome, returns, reached, events⟩ := proceed_of_leavesLoop leaves waits
  rw [if_pos inside] at reached
  have last := Moment.lastTurn_of_returned still returns fun happening mem =>
    turns happening (List.mem_append_right _ (List.mem_cons_of_mem _ mem))
  obtain ⟨input, output, signal, same⟩ := last.debugger
  obtain ⟨newer, history⟩ := m.history_live before
  refine ⟨awaitsExit_of_live (fun happening mem => turns happening (List.mem_append_left _ mem))
    waits, ?_, (m.live before).debugger.machine.pc, newer, ?_⟩
  · rw [same]
    exact ended
  · rw [last.history, events, reached, ← history]
    rfl

/-! ### Sessions -/

/-- The end of a loop is reported when it is waited for, and then no longer. -/
theorem awaitsExit_of_returns (m : Moment) (happening : Happening)
    (returns : (m.outcome? happening).any (· = .paused .loopExit) = true) :
    m.debugger.awaitsExit = true ∧ (m.happen happening).debugger.awaitsExit = false := by
  have reports : m.outcome? happening = some (.paused .loopExit) := by
    simpa [Option.any_eq_true] using returns
  obtain ⟨rfl, pace, on, outcome⟩ := Moment.outcome?_eq_some reports
  obtain ⟨waits, leaves, -⟩ := outcome_loopExit_iff.mp outcome
  refine ⟨waits, ?_⟩
  rw [← Bool.not_eq_true, awaitsExit_happen]
  rintro (arms | ⟨-, still⟩)
  · cases arms
  · exact still ⟨pace, on, .inl leaves⟩

/-- How a session deals with the ends of loops: the flag, a turn, a call and many calls. -/
structure ReportsLoopExits (m : Moment) : Prop where
  /-- Whatever happens next, only a request to wait begins the waiting, and it ends with what
  `Disarms` names and with nothing else. -/
  changes : ∀ happening, (m.happen happening).debugger.awaitsExit = true ↔
    m.arms happening = true ∨ m.debugger.awaitsExit = true ∧ ¬ m.Disarms happening
  /-- No awaited loop is left without the call returning at once. -/
  ends : ∀ pace, m.underway = some pace → m.debugger.awaitsExit = true →
    m.debugger.LeavesLoop pace →
    let after := m.happen (.move .proceed)
    after.underway = none ∧ after.debugger.awaitsExit = false ∧
      after.history =
        .halted (if after.debugger.machine.pc < after.debugger.program.size
            then .paused .loopExit else .finished) ::
          .executed m.debugger.machine.pc .loopEnd :: m.history
  /-- A call reports the end of a loop exactly if it leaves an awaited one and the program goes
  on. -/
  reports : m.underway = none → ∀ call pace later, call.pace? = some pace →
    (∀ happening ∈ later, happening.isTurn = true) →
    let start := m.happen (.move (.call call))
    let after := start.live later
    (after.Returned (.paused .loopExit) ↔ start.LeavesAwaited pace later) ∧
      (after.Returned (.paused .loopExit) →
        start.debugger.awaitsExit = true ∧ after.debugger.awaitsExit = false ∧
          ∃ index newer, after.history =
            .halted (.paused .loopExit) :: .executed index .loopEnd :: newer ++ start.history)
  /-- Whatever happens later, no more ends of loops are reported than have been asked for. -/
  once : ∀ later,
    (m.live later).history.countP (Event.returnsWith (· = .paused .loopExit)) +
        (m.live later).debugger.awaitsExit.toNat ≤
      m.history.countP (Event.returnsWith (· = .paused .loopExit)) +
        Moment.occurrences Moment.arms m later + m.debugger.awaitsExit.toNat

/-- In every session, whatever has happened in it, the end of a loop is reported if it is waited for
when the loop is left, and once for each request to wait. -/
theorem loop_exit_reported_once (program : Program) (input : List UInt8) (schedule : Schedule)
    (happenings : List Happening) :
    ReportsLoopExits (({ debugger := ofProgram program input schedule } : Moment).live
      happenings) := by
  generalize ({ debugger := ofProgram program input schedule } : Moment).live happenings = m
  constructor
  case changes => exact awaitsExit_happen m
  case ends =>
    intro pace on waits leaves after
    obtain ⟨ended, outcome, returns, reached, events⟩ := proceed_of_leavesLoop leaves waits
    have taken : after = m.proceed pace := Moment.happen_proceed on
    rw [taken]
    refine ⟨by simp [Moment.proceed, returns], ended, ?_⟩
    simp only [Moment.proceed, events, reached, program_proceed]
    rfl
  case reports =>
    intro returned call pace later paced turns start after
    have on : start.underway = some pace := Moment.underway_of_call returned paced
    exact ⟨returned_loopExit_iff on turns, loopEnd_of_returned on turns⟩
  case once =>
    exact Moment.returned_le Debugger.awaitsExit awaitsExit_of_returns
      (fun m happening waits => ((awaitsExit_happen m happening).mp waits).imp_right And.left) m

/-- A loop that is waited for between a step and a run is reported when it is left for good: the
run goes through it twice. -/
theorem countdown_reports_its_loop :
    let start : Moment := { debugger := ofProgram .countdown [] {} }
    let asked := [.move (.call .step), .move .proceed, .move (.call (.adjust .awaitExit))]
    let m := start.live asked
    let called := m.happen (.move (.call .resume))
    let turns := List.replicate 5 (.move .proceed)
    (m.underway = none ∧ called.underway = some .running ∧ called.debugger.awaitsExit = true) ∧
      called.LeavesAwaited .running turns ∧
      (called.live turns).history =
        [.halted (.paused .loopExit), .executed 3 .loopEnd, .executed 2 .decrement,
          .executed 3 .loopEnd, .executed 2 .decrement, .executed 1 .loopStart] ++ m.history ∧
      ReportsLoopExits m := by
  intro start asked m called turns
  have returned : m.underway = none := by decide
  have history : (called.live turns).history =
      [.halted (.paused .loopExit), .executed 3 .loopEnd, .executed 2 .decrement,
        .executed 3 .loopEnd, .executed 2 .decrement, .executed 1 .loopStart] ++ m.history := by
    decide +kernel
  have reports : (called.live turns).Returned (.paused .loopExit) :=
    ⟨by decide +kernel, by simp [history]⟩
  have all : ReportsLoopExits m := loop_exit_reported_once .countdown [] {} asked
  obtain ⟨leaves, waits⟩ := all.reports returned .resume .running turns rfl
    (by simp [turns, Happening.isTurn])
  obtain ⟨waited, -⟩ := waits reports
  exact ⟨⟨returned, by decide, waited⟩, leaves.mp reports, history, all⟩

end Brainfuck.Debugger
