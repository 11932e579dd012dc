import Brainfuck.Proofs.Debugger.Upcoming

/-!
# What a happening makes of a session

A session in which anything may happen, one happening after the other. `Passes` says what one of
them makes of it: a turn is taken, the session is set back or goes on, a point is adjusted, or
nothing of the session's own is touched. `exists_last_turn` follows a call to its return, and
`returned_le` is for what can be used once: what has returned and what is still held is no more
than what was granted.
-/

namespace Brainfuck.Debugger

/-- The pace of a call that executes instructions. -/
def Call.pace? : Call → Option Pace
  | .run | .resume => some .running
  | .step => some .stepping
  | .reset | .adjust _ => none

/-- Whether a call sets the session back before it does anything else. -/
def Call.setsBack (d : Debugger) : Call → Bool
  | .run | .reset => true
  | .resume | .step => d.phase = .idle
  | .adjust _ => false

/-- A call returns with an outcome of some kind. -/
def Event.returnsWith (which : Outcome → Bool) : Event → Bool
  | .halted outcome => which outcome
  | .reset | .executed _ _ => false

namespace Moment

/-- What becomes of a session when something happens. -/
inductive Passes (m : Moment) : Happening → Moment → Prop
  | turn (pace : Pace) (on : m.underway = some pace) : Passes m (.move .proceed) (m.proceed pace)
  | setBack (call : Call) (returned : m.underway = none) (back : call.setsBack m.debugger = true) :
    Passes m (.move (.call call)) { m.reset with underway := call.pace? }
  | goOn (call : Call) (pace : Pace) (returned : m.underway = none) (paced : call.pace? = some pace)
      (onward : call.setsBack m.debugger = false) :
    Passes m (.move (.call call)) { m with underway := some pace }
  | adjust (a : Adjustment) (returned : m.underway = none) :
    Passes m (.move (.call (.adjust a))) { m with debugger := m.debugger.adjust a }
  /-- No call is made while another is under way. -/
  | busy (call : Call) (pace : Pace) (on : m.underway = some pace) : Passes m (.move (.call call)) m
  /-- Without a call there is no turn to take. -/
  | unbegun (returned : m.underway = none) : Passes m (.move .proceed) m
  | interrupt : Passes m (.move .interrupt) { m with debugger := m.debugger.interrupt }
  | outside (input : List UInt8) (output : Array UInt8) (signal : Signal) :
    Passes m (.outside input output signal)
      { m with debugger := m.debugger.surrounded input output signal }

variable {m : Moment}

theorem started_of_idle (idle : m.debugger.phase = .idle) : m.started = m.reset := by
  simp [started, idle]

theorem started_of_paused {reason : Pause} (paused : m.debugger.phase = .paused reason) :
    m.started = m := by
  simp [started, paused]

/-- A call that goes on sets an idle session back first. -/
theorem passes_onward (returned : m.underway = none) {call : Call} {pace : Pace}
    (onward : call = .resume ∨ call = .step) (paced : call.pace? = some pace) :
    Passes m (.move (.call call)) { m.started with underway := some pace } := by
  cases phase : m.debugger.phase with
  | idle =>
    rw [started_of_idle phase, ← paced]
    refine .setBack call returned ?_
    rcases onward with rfl | rfl <;> simp [Call.setsBack, phase]
  | paused reason =>
    rw [started_of_paused phase]
    refine .goOn call pace returned paced ?_
    rcases onward with rfl | rfl <;> simp [Call.setsBack, phase]

theorem passes_happen (m : Moment) (happening : Happening) :
    Passes m happening (m.happen happening) := by
  cases happening with
  | outside input output signal => exact .outside input output signal
  | move move =>
    rw [happen]
    cases move with
    | interrupt => exact .interrupt
    | proceed =>
      rw [next]
      cases on : m.underway with
      | none => exact .unbegun on
      | some pace => exact .turn pace on
    | call call =>
      rw [next]
      cases on : m.underway with
      | some pace => exact .busy call pace on
      | none =>
        cases call with
        | run => exact .setBack .run on rfl
        | resume => exact passes_onward on (.inl rfl) rfl
        | step => exact passes_onward on (.inr rfl) rfl
        | reset =>
          have same : m.begin .reset = { m.reset with underway := Call.pace? .reset } := by
            simp [begin, reset, Call.pace?, on]
          show Passes m (.move (.call .reset)) (m.begin .reset)
          rw [same]
          exact .setBack .reset on rfl
        | adjust a => exact .adjust a on

theorem happen_proceed {pace : Pace} (on : m.underway = some pace) :
    m.happen (.move .proceed) = m.proceed pace := by
  rw [happen, next, on]

/-- A call that executes instructions is under way when it has been made. -/
theorem underway_of_call (returned : m.underway = none) {call : Call} {pace : Pace}
    (paced : call.pace? = some pace) : (m.happen (.move (.call call))).underway = some pace := by
  have passes := m.passes_happen (.move (.call call))
  generalize m.happen (.move (.call call)) = after at passes
  cases passes with
  | setBack => exact paced
  | goOn _ pace' _ paced' => exact paced'.symm.trans paced
  | adjust => cases paced
  | busy _ _ on => cases returned.symm.trans on

/-! ### Sessions in parts -/

@[simp] theorem live_nil (m : Moment) : m.live [] = m := rfl

@[simp] theorem live_cons (m : Moment) (happening : Happening) (later : List Happening) :
    m.live (happening :: later) = (m.happen happening).live later := rfl

theorem live_append (m : Moment) (early late : List Happening) :
    m.live (early ++ late) = (m.live early).live late :=
  List.foldl_append

/-- What has happened stays so. -/
theorem history_live (m : Moment) (later : List Happening) :
    m.history <:+ (m.live later).history := by
  induction later generalizing m with
  | nil => exact List.suffix_refl _
  | cons happening later ih =>
    refine List.IsSuffix.trans ?_ (ih (m.happen happening))
    cases happening with
    | move move => exact m.history_next move
    | outside => exact List.suffix_refl _

/-- After its return a call is left to itself to no effect. -/
theorem live_of_returned (returned : m.underway = none) {later : List Happening}
    (turns : ∀ happening ∈ later, happening.isTurn = true) :
    ∃ input output signal,
      m.live later = { m with debugger := m.debugger.surrounded input output signal } := by
  induction later generalizing m with
  | nil => exact ⟨m.debugger.machine.input, m.debugger.machine.output, m.debugger.signal, rfl⟩
  | cons happening later ih =>
    obtain ⟨turn, others⟩ := List.forall_mem_cons.mp turns
    have passes := m.passes_happen happening
    -- Whatever happens first, it leaves the session's own as it is.
    obtain ⟨input, output, signal, same⟩ : ∃ input output signal,
        m.happen happening = { m with debugger := m.debugger.surrounded input output signal } := by
      generalize m.happen happening = after at passes
      cases passes with
      | turn pace on => cases returned.symm.trans on
      | setBack | goOn | adjust | busy => cases turn
      | unbegun => exact ⟨m.debugger.machine.input, m.debugger.machine.output, m.debugger.signal, rfl⟩
      | interrupt => exact ⟨m.debugger.machine.input, m.debugger.machine.output, _, rfl⟩
      | outside input output signal => exact ⟨input, output, signal, rfl⟩
    obtain ⟨input', output', signal', last⟩ :=
      ih (m := m.happen happening) (by rw [same]; exact returned) others
    exact ⟨input', output', signal', by rw [live_cons, last, same]; rfl⟩

/-- A call has returned with an outcome. -/
def Returned (m : Moment) (outcome : Outcome) : Prop :=
  m.underway = none ∧ m.history.head? = some (.halted outcome)

theorem head?_events {d : Debugger} {pace : Pace} {outcome : Outcome}
    (returned : (d.proceed pace).2 = some outcome) (history : List Event) :
    (d.events pace ++ history).head? = some (.halted outcome) := by
  simp [events, returned]

theorem returned_proceed {pace : Pace} {outcome : Outcome}
    (returned : (m.debugger.proceed pace).2 = some outcome) :
    (m.proceed pace).Returned outcome :=
  ⟨by simp [proceed, returned], head?_events returned m.history⟩

theorem Returned.unique {outcome other : Outcome} (h : m.Returned outcome) (h' : m.Returned other) :
    outcome = other := by
  simpa using h.2.symm.trans h'.2

/-- A call returned in the turn it took after some of what happened, with an outcome. -/
structure LastTurn (m : Moment) (pace : Pace) (later before : List Happening) (outcome : Outcome) :
    Prop where
  split : ∃ after, later = before ++ .move .proceed :: after
  on : (m.live before).underway = some pace
  returned : ((m.live before).debugger.proceed pace).2 = some outcome
  ended : (m.live later).underway = none
  history : (m.live later).history =
    (m.live before).debugger.events pace ++ (m.live before).history
  debugger : ∃ input output signal, (m.live later).debugger =
    ((m.live before).debugger.proceed pace).1.surrounded input output signal

theorem LastTurn.call_returned {pace : Pace} {later before : List Happening} {outcome : Outcome}
    (last : LastTurn m pace later before outcome) : (m.live later).Returned outcome :=
  ⟨last.ended, by rw [last.history, head?_events last.returned]⟩

/-- A turn with an outcome is the last one, whatever happens outside after it. -/
theorem lastTurn_of_returned {pace : Pace} {before after : List Happening} {outcome : Outcome}
    (on : (m.live before).underway = some pace)
    (returned : ((m.live before).debugger.proceed pace).2 = some outcome)
    (turns : ∀ happening ∈ after, happening.isTurn = true) :
    LastTurn m pace (before ++ .move .proceed :: after) before outcome := by
  have taken := happen_proceed on
  have ended : ((m.live before).happen (.move .proceed)).underway = none := by
    rw [taken]
    simp [proceed, returned]
  obtain ⟨input, output, signal, same⟩ := live_of_returned ended turns
  have last : m.live (before ++ .move .proceed :: after) =
      { (m.live before).proceed pace with
        debugger := ((m.live before).proceed pace).debugger.surrounded input output signal } := by
    rw [live_append, live_cons, same, taken]
  refine ⟨⟨after, rfl⟩, on, returned, ?_, ?_, input, output, signal, ?_⟩
  · rw [last, ← taken]
    exact ended
  · rw [last]
    rfl
  · rw [last]
    rfl

/-- A call that has been left to itself and has returned took a last turn. -/
theorem exists_last_turn {pace : Pace} (on : m.underway = some pace) {later : List Happening}
    (turns : ∀ happening ∈ later, happening.isTurn = true)
    (returned : (m.live later).underway = none) :
    ∃ before outcome, LastTurn m pace later before outcome := by
  induction later generalizing m with
  | nil => cases on.symm.trans returned
  | cons happening later ih =>
    obtain ⟨turn, others⟩ := List.forall_mem_cons.mp turns
    -- If the call is still under way after this, its last turn is among the later ones.
    have further (still : (m.happen happening).underway = some pace) :
        ∃ before outcome, LastTurn m pace (happening :: later) before outcome := by
      obtain ⟨before, outcome, ⟨⟨after, rfl⟩, on, reached, ended, history, debugger⟩⟩ :=
        ih still others returned
      exact ⟨happening :: before, outcome, ⟨⟨after, rfl⟩, on, reached, ended, history, debugger⟩⟩
    cases happening with
    | outside => exact further on
    | move move =>
      cases move with
      | call => cases turn
      | interrupt => exact further on
      | proceed =>
        cases outcome : (m.debugger.proceed pace).2 with
        | none =>
          exact further (by rw [happen_proceed on]; simp [proceed, outcome])
        | some reached =>
          have still : (m.live []).underway = some pace := on
          exact ⟨[], reached, lastTurn_of_returned still outcome others⟩

/-! ### What can be used once -/

/-- What the call that is under way returns with when something happens, if it returns then. -/
def outcome? (m : Moment) : Happening → Option Outcome
  | .move .proceed => m.underway.bind fun pace => (m.debugger.proceed pace).2
  | .move _ | .outside .. => none

/-- What returns is what the last turn returned with. -/
theorem outcome?_eq_some {happening : Happening} {outcome : Outcome}
    (returns : m.outcome? happening = some outcome) :
    happening = .move .proceed ∧
      ∃ pace, m.underway = some pace ∧ (m.debugger.proceed pace).2 = some outcome := by
  match happening with
  | .move .proceed => exact ⟨rfl, Option.bind_eq_some_iff.mp returns⟩
  | .move (.call _) | .move .interrupt | .outside .. => cases returns

/-- How often something that counts happens in a session. -/
def occurrences (counts : Moment → Happening → Bool) (m : Moment) : List Happening → Nat
  | [] => 0
  | happening :: later =>
    (counts m happening).toNat + occurrences counts (m.happen happening) later

theorem countP_events (which : Outcome → Bool) (d : Debugger) (pace : Pace) :
    (d.events pace).countP (Event.returnsWith which) =
      ((d.proceed pace).2.any which).toNat := by
  have returned : ((d.proceed pace).2.map Event.halted).toList.countP (Event.returnsWith which) =
      ((d.proceed pace).2.any which).toNat := by
    cases (d.proceed pace).2 with
    | none => rfl
    | some outcome => cases h : which outcome <;> simp [Event.returnsWith, h]
  rw [events, List.countP_append, returned]
  cases d.deed pace <;> rfl

theorem countP_history_happen (which : Outcome → Bool) (m : Moment) (happening : Happening) :
    (m.happen happening).history.countP (Event.returnsWith which) =
      m.history.countP (Event.returnsWith which) +
        ((m.outcome? happening).any which).toNat := by
  have passes := m.passes_happen happening
  generalize m.happen happening = after at passes
  cases passes with
  | turn pace on =>
    simp [outcome?, on, proceed, countP_events, Nat.add_comm]
  | setBack => simp [outcome?, reset, Event.returnsWith]
  | unbegun returned => simp [outcome?, returned]
  | goOn | adjust | busy | interrupt | outside => rfl

/-- If something is held before it returns and no longer after it, and is held only when it has
been granted or was held before, then in every session no more returns than is granted and was
held. -/
theorem returned_le (holds : Debugger → Bool) {which : Outcome → Bool}
    {grants : Moment → Happening → Bool}
    (spent : ∀ (m : Moment) (happening : Happening), (m.outcome? happening).any which = true →
      holds m.debugger = true ∧ holds (m.happen happening).debugger = false)
    (granted : ∀ (m : Moment) (happening : Happening),
      holds (m.happen happening).debugger = true →
        grants m happening = true ∨ holds m.debugger = true)
    (m : Moment) (later : List Happening) :
    (m.live later).history.countP (Event.returnsWith which) +
        (holds (m.live later).debugger).toNat ≤
      m.history.countP (Event.returnsWith which) + occurrences grants m later +
        (holds m.debugger).toNat := by
  induction later generalizing m with
  | nil => simp [occurrences]
  | cons happening later ih =>
    have first : ((m.outcome? happening).any which).toNat +
        (holds (m.happen happening).debugger).toNat ≤
          (grants m happening).toNat + (holds m.debugger).toNat := by
      cases returns : (m.outcome? happening).any which with
      | true =>
        obtain ⟨before, after⟩ := spent m happening returns
        simp [before, after]
      | false =>
        cases after : holds (m.happen happening).debugger with
        | false => simp
        | true => rcases granted m happening after with now | before <;> simp [*]
    have counted := m.countP_history_happen which happening
    have rest := ih (m.happen happening)
    rw [live_cons, occurrences]
    omega

end Moment

end Brainfuck.Debugger
