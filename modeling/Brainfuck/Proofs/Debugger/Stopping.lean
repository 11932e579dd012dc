import Brainfuck.Proofs.Debugger.Happenings

/-!
# The stop point, once

The stop point stays where it has been set, over calls, pauses and resets, until a run comes to it
and reports it or until it is taken away: `stopPoint_happen`. A run executes the instruction there
in one case only, when the stop point has been reported in the same visit and was then set again
(`SetAgain`). That this is the only case is kept by every happening, and `stop_point_reported_once`
puts it together with what a report says and how often there can be one.
-/

namespace Brainfuck.Debugger

variable {d : Debugger} {pace : Pace} {m : Moment} {happening : Happening} {index : Nat}
  {i : Instruction}

/-! ### Turns -/

/-- What a stop point's report says: a run has come to it, and nothing else has happened. -/
theorem of_stopPoint_pause (returns : (d.proceed pace).2 = some (.paused (.stopPoint index))) :
    pace = .running ∧ d.stopPoint = some index ∧ d.machine.pc = index ∧
      (d.proceed pace).1.machine = d.machine ∧ (d.proceed pace).1.stopPoint = none ∧
      d.events pace = [.halted (.paused (.stopPoint index))] := by
  have deed := (outcome_eq_hold_iff (by simp)).mp returns
  have found := d.found_deed pace
  have machine := d.machine_fulfil pace (d.deed pace)
  have taken := d.stopPoint_fulfil pace (d.deed pace)
  rw [← proceed_eq] at machine taken
  rw [deed] at found machine taken
  cases found with
  | stopPoint i here running unbroken stops =>
    obtain ⟨there, -⟩ : d.stopPoint = some d.machine.pc ∧ d.visit.stopPoint = false := by
      simpa [Debugger.stops] using stops
    exact ⟨running, there, rfl, machine, taken, events_of_hold deed⟩

/-- A turn that reports no stop point leaves it as it is. -/
theorem stopPoint_proceed_of_ne
    (silent : ∀ index, (d.proceed pace).2 ≠ some (.paused (.stopPoint index))) :
    (d.proceed pace).1.stopPoint = d.stopPoint := by
  rw [proceed_eq, stopPoint_fulfil]
  split
  · rename_i index deed
    exact absurd ((outcome_eq_hold_iff (by simp)).mpr deed) (silent index)
  · rfl

/-! ### What changes the stop point -/

/-- A request that sets the stop point, made between two calls and not refused. -/
def Moment.setsStopPoint (m : Moment) : Happening → Bool
  | .move (.call (.adjust (.setStopPoint index))) =>
    m.underway.isNone && index < m.debugger.program.size
  | _ => false

/-- The stop point when something has happened. -/
def Moment.stopPointAfter (m : Moment) (happening : Happening) : Option Nat :=
  match happening with
  | .move (.call (.adjust (.setStopPoint index))) =>
    if m.setsStopPoint happening then some index else m.debugger.stopPoint
  | .move (.call (.adjust .clearStopPoint)) =>
    if m.underway.isNone then none else m.debugger.stopPoint
  | .move .proceed =>
    match m.outcome? happening with
    | some (.paused (.stopPoint _)) => none
    | _ => m.debugger.stopPoint
  | _ => m.debugger.stopPoint

theorem stopPoint_happen (m : Moment) (happening : Happening) :
    (m.happen happening).debugger.stopPoint = m.stopPointAfter happening := by
  have passes := m.passes_happen happening
  generalize m.happen happening = after at passes
  cases passes with
  | turn pace on =>
    have outcome : m.outcome? (.move .proceed) = (m.debugger.proceed pace).2 := by
      simp [Moment.outcome?, on]
    simp only [Moment.stopPointAfter, outcome, Moment.proceed]
    split
    · rename_i index returns
      obtain ⟨-, -, -, -, taken, -⟩ := of_stopPoint_pause returns
      exact taken
    · rename_i silent
      exact stopPoint_proceed_of_ne silent
  | setBack call => cases call <;> first | rfl | contradiction
  | goOn call => cases call <;> first | rfl | contradiction
  | adjust a returned =>
    rw [stopPoint_adjust]
    cases a <;> simp [Moment.stopPointAfter, Moment.setsStopPoint, returned]
  | busy call pace on =>
    cases call with
    | adjust a => cases a <;> simp [Moment.stopPointAfter, Moment.setsStopPoint, on]
    | run | resume | step | reset => rfl
  | unbegun returned => simp [Moment.stopPointAfter, Moment.outcome?, returned]
  | interrupt => rfl
  | outside => rfl

/-- A stop point has been there, or it has just been set. -/
theorem stopPoint_cases (there : (m.happen happening).debugger.stopPoint = some index) :
    m.debugger.stopPoint = some index ∨
      happening = .move (.call (.adjust (.setStopPoint index))) ∧
        m.setsStopPoint happening = true := by
  rw [stopPoint_happen] at there
  unfold Moment.stopPointAfter at there
  split at there
  · split at there
    · obtain rfl := Option.some_inj.mp there
      exact .inr ⟨rfl, ‹_›⟩
    · exact .inl there
  · split at there
    · cases there
    · exact .inl there
  · split at there
    · cases there
    · exact .inl there
  · exact .inl there

/-! ### Visits -/

/-- The stop point has been reported in the current visit. -/
def StopReported (history : List Event) (index : Nat) : Prop :=
  .halted (.paused (.stopPoint index)) ∈ since Event.startsVisit history

/-- No visit has begun since. -/
def SameVisit (earlier later : List Event) : Prop :=
  ∃ newer, later = newer ++ earlier ∧ ∀ event ∈ newer, event.startsVisit = false

theorem SameVisit.refl (history : List Event) : SameVisit history history :=
  ⟨[], rfl, by simp⟩

theorem SameVisit.halted (history : List Event) (outcome : Outcome) :
    SameVisit history (.halted outcome :: history) :=
  ⟨[.halted outcome], rfl, by simp [Event.startsVisit]⟩

theorem SameVisit.trans {first second third : List Event} (h : SameVisit first second)
    (h' : SameVisit second third) : SameVisit first third := by
  obtain ⟨newer, rfl, within⟩ := h
  obtain ⟨newest, rfl, within'⟩ := h'
  refine ⟨newest ++ newer, by simp, fun event mem => ?_⟩
  rcases List.mem_append.mp mem with mem | mem
  · exact within' event mem
  · exact within event mem

theorem StopReported.later {earlier later : List Event} (h : StopReported earlier index)
    (same : SameVisit earlier later) : StopReported later index := by
  obtain ⟨newer, rfl, within⟩ := same
  rw [StopReported, since, List.takeWhile_append_of_pos (by simpa using within)]
  exact List.mem_append_right _ h

/-- What a turn makes of a visit: it is over, or it goes on and remembers the stop point's
report. -/
theorem visit_proceed (d : Debugger) (pace : Pace) (history : List Event) :
    (d.proceed pace).1.visit.stopPoint = false ∨
      SameVisit history (d.events pace ++ history) ∧
        (d.proceed pace).1.machine.pc = d.machine.pc ∧
        ((d.proceed pace).1.visit.stopPoint = d.visit.stopPoint ∨
          (d.proceed pace).2 = some (.paused (.stopPoint d.machine.pc))) := by
  have found := d.found_deed pace
  rw [proceed_eq]
  cases deed : d.deed pace with
  | finish => exact .inl (by simp [fulfil, finish, visit])
  | execute i =>
    obtain ⟨_, _, h⟩ := d.fulfil_execute_eq pace i
    rw [h]
    exact .inl (by simp [executed, carryOut, visit])
  | hold reason =>
    rw [deed] at found
    rw [events_of_hold deed]
    refine .inr ⟨.halted _ _, ?_⟩
    cases found with
    | interrupted => exact ⟨rfl, .inl rfl⟩
    | watch => exact ⟨rfl, .inl (by simp [fulfil, visit_held_watch])⟩
    | breakpoint => exact ⟨rfl, .inl (by simp [fulfil, visit_held])⟩
    | stopPoint => exact ⟨rfl, .inr rfl⟩

theorem visit_happen (m : Moment) (happening : Happening) :
    (m.happen happening).debugger.visit.stopPoint = false ∨
      SameVisit m.history (m.happen happening).history ∧
        (m.happen happening).debugger.machine.pc = m.debugger.machine.pc ∧
        ((m.happen happening).debugger.visit.stopPoint = m.debugger.visit.stopPoint ∨
          m.outcome? happening = some (.paused (.stopPoint m.debugger.machine.pc))) := by
  have passes := m.passes_happen happening
  generalize m.happen happening = after at passes
  cases passes with
  | turn pace on =>
    have outcome : m.outcome? (.move .proceed) = (m.debugger.proceed pace).2 := by
      simp [Moment.outcome?, on]
    rw [outcome]
    exact visit_proceed m.debugger pace m.history
  | setBack => exact .inl rfl
  | adjust a =>
    obtain ⟨-, machine, -, reported⟩ := m.debugger.adjust_frame a
    refine .inr ⟨.refl _, congrArg Machine.pc machine, .inl ?_⟩
    simp only [visit, machine, reported]
  | goOn | busy | unbegun | interrupt | outside => exact .inr ⟨.refl _, rfl, .inl rfl⟩

/-! ### Set again in the same visit -/

/-- In a visit in which the stop point had been reported it was set to the same instruction again,
and that visit goes on. -/
def Moment.SetAgain (start : Moment) (happenings : List Happening) (index : Nat) : Prop :=
  ∃ before after, happenings = before ++ .move (.call (.adjust (.setStopPoint index))) :: after ∧
    (start.live before).setsStopPoint (.move (.call (.adjust (.setStopPoint index)))) = true ∧
    StopReported (start.live before).history index ∧
    SameVisit (start.live before).history (start.live happenings).history

/-- What is remembered of a visit has been reported in it, and if the stop point is there all the
same, it was set again. -/
structure Stopped (start : Moment) (happenings : List Happening) : Prop where
  reported : (start.live happenings).debugger.visit.stopPoint = true →
    StopReported (start.live happenings).history (start.live happenings).debugger.machine.pc
  setAgain : (start.live happenings).debugger.visit.stopPoint = true →
    (start.live happenings).debugger.stopPoint =
      some (start.live happenings).debugger.machine.pc →
    start.SetAgain happenings (start.live happenings).debugger.machine.pc

theorem Moment.live_snoc (m : Moment) (happenings : List Happening) (happening : Happening) :
    m.live (happenings ++ [happening]) = (m.live happenings).happen happening :=
  m.live_append happenings [happening]

theorem Moment.SetAgain.snoc {happenings : List Happening} (h : m.SetAgain happenings index)
    (same : SameVisit (m.live happenings).history
      ((m.live happenings).happen happening).history) :
    m.SetAgain (happenings ++ [happening]) index := by
  obtain ⟨before, after, rfl, accepted, reported, within⟩ := h
  refine ⟨before, after ++ [happening], by simp, accepted, reported, ?_⟩
  rw [Moment.live_snoc]
  exact within.trans same

theorem Stopped.snoc {start : Moment} {happenings : List Happening}
    (h : Stopped start happenings) (happening : Happening) :
    Stopped start (happenings ++ [happening]) := by
  have live := start.live_snoc happenings happening
  -- Only a visit that goes on remembers anything.
  rcases visit_happen (start.live happenings) happening with gone | ⟨same, pc, kept | reports⟩
  · constructor
    · rw [live, gone]
      nofun
    · rw [live, gone]
      nofun
  · constructor
    · rw [live, kept, pc]
      exact fun remembered => (h.reported remembered).later same
    · rw [live, kept, pc]
      intro remembered there
      rcases stopPoint_cases there with before | ⟨rfl, accepted⟩
      · exact (h.setAgain remembered before).snoc same
      · exact ⟨happenings, [], rfl, accepted, h.reported remembered, live ▸ same⟩
  · obtain ⟨rfl, pace, on, returns⟩ := Moment.outcome?_eq_some reports
    obtain ⟨-, -, -, -, taken, events⟩ := of_stopPoint_pause returns
    have turned := Moment.happen_proceed on
    constructor
    · intro _
      rw [live, pc, turned]
      simp [Moment.proceed, events, StopReported, since_cons, Event.startsVisit]
    · rw [live, turned]
      intro _ there
      cases taken.symm.trans there

theorem stopped_of_live {start : Moment} (fresh : start.debugger.reported = none)
    (happenings : List Happening) : Stopped start happenings := by
  induction happenings using List.reverseRecOn with
  | nil =>
    have unreported : start.debugger.visit.stopPoint = false := by
      rw [visit_of_reported fresh]
    exact ⟨by simp [unreported], by simp [unreported]⟩
  | append_singleton happenings happening ih => exact ih.snoc happening

/-- A run that executes the instruction at the stop point has reported it in this visit. -/
theorem stopPoint_of_executes {operator : Operator}
    (executes : .executed index operator ∈ d.events .running)
    (there : d.stopPoint = some index) :
    d.machine.pc = index ∧ d.visit.stopPoint = true ∧
      (d.proceed .running).1.stopPoint = some index := by
  cases deed : d.deed .running with
  | finish => simp [events_of_finish deed] at executes
  | hold reason => simp [events_of_hold deed] at executes
  | execute i =>
    obtain rfl : index = d.machine.pc := by
      rcases events_of_execute deed with ⟨-, e⟩ | ⟨_, -, -, e⟩ <;> simp [e] at executes <;>
        exact executes.1
    have unstopped := (deed_eq_execute_iff.mp deed).1.unstopped rfl
    refine ⟨rfl, ?_, ?_⟩
    · simpa [Debugger.stops, there] using unstopped
    · rw [proceed_eq, stopPoint_fulfil, deed, there]

/-- A run that has come to the stop point reports it, unless it has reported it in this visit or
something else is to be reported first. -/
theorem stopPoint_of_comes (here : d.program.get? d.machine.pc = some i)
    (lowered : d.signal.raised = false) (unbroken : d.breaks = false)
    (there : d.stopPoint = some d.machine.pc) (unreported : d.visit.stopPoint = false) :
    (d.proceed .running).2 = some (.paused (.stopPoint d.machine.pc)) := by
  have stops : d.stops = true := by simp [Debugger.stops, there, unreported]
  rw [outcome_eq_hold_iff (by simp)]
  simp [deed, here, lowered, unbroken, stops]

/-! ### Sessions -/

/-- The outcomes that report the stop point. -/
def Outcome.isStopPoint : Outcome → Bool
  | .paused (.stopPoint _) => true
  | .paused _ | .finished => false

/-- The stop point is reported when it is set, and then no longer. -/
theorem stopPoint_of_returns (m : Moment) (happening : Happening)
    (returns : (m.outcome? happening).any Outcome.isStopPoint = true) :
    m.debugger.stopPoint.isSome = true ∧
      (m.happen happening).debugger.stopPoint.isSome = false := by
  obtain ⟨outcome, reports, stops⟩ := (Option.any_eq_true _ _).mp returns
  match outcome, stops with
  | .paused (.stopPoint index), _ =>
    obtain ⟨rfl, pace, on, outcome⟩ := Moment.outcome?_eq_some reports
    obtain ⟨-, there, -⟩ := of_stopPoint_pause outcome
    exact ⟨by simp [there], by simp [stopPoint_happen, Moment.stopPointAfter, reports]⟩

/-- What can be said of the stop point in a session that has come so far. -/
structure KeepsStopPoint (start : Moment) (happenings : List Happening) : Prop where
  /-- Whatever happens next, only a request about the stop point and its report change it. -/
  changes : let m := start.live happenings
    ∀ happening, (m.happen happening).debugger.stopPoint = m.stopPointAfter happening
  /-- It is reported by a run that has come to it, before the instruction there. -/
  reported : let m := start.live happenings
    ∀ pace index, m.underway = some pace →
      (m.debugger.proceed pace).2 = some (.paused (.stopPoint index)) →
      let after := m.happen (.move .proceed)
      pace = .running ∧ m.debugger.stopPoint = some index ∧ m.debugger.machine.pc = index ∧
        after.underway = none ∧ after.debugger.machine = m.debugger.machine ∧
        after.debugger.stopPoint = none ∧
        after.history = .halted (.paused (.stopPoint index)) :: m.history
  /-- A run that has come to it reports it, unless the interrupt or a breakpoint is reported first
  or it was set again in this visit. -/
  found : let m := start.live happenings
    ∀ i, m.debugger.program.get? m.debugger.machine.pc = some i →
      m.debugger.stopPoint = some m.debugger.machine.pc → m.debugger.signal.raised = false →
      m.debugger.breaks = false → ¬ start.SetAgain happenings m.debugger.machine.pc →
      (m.debugger.proceed .running).2 = some (.paused (.stopPoint m.debugger.machine.pc))
  /-- No run passes it, unless it has been reported in this visit and was set again. Then it stays
  for the next one. -/
  kept : let m := start.live happenings
    ∀ index operator, m.underway = some .running →
      .executed index operator ∈ m.debugger.events .running →
      m.debugger.stopPoint = some index →
      start.SetAgain happenings index ∧
        (m.happen (.move .proceed)).debugger.stopPoint = some index
  /-- Whatever happens later, it is not reported more often than it is set. -/
  once : let m := start.live happenings
    ∀ later, (m.live later).history.countP (Event.returnsWith Outcome.isStopPoint) +
        (m.live later).debugger.stopPoint.isSome.toNat ≤
      m.history.countP (Event.returnsWith Outcome.isStopPoint) +
        Moment.occurrences Moment.setsStopPoint m later + m.debugger.stopPoint.isSome.toNat

/-- In every session, whatever has happened in it, the stop point is kept until it is reported or
taken away, and reported once. -/
theorem stop_point_reported_once (program : Program) (input : List UInt8) (schedule : Schedule)
    (happenings : List Happening) :
    KeepsStopPoint { debugger := ofProgram program input schedule } happenings := by
  have stopped : Stopped { debugger := ofProgram program input schedule } happenings :=
    stopped_of_live rfl happenings
  constructor
  case changes => exact fun happening => stopPoint_happen _ happening
  case reported =>
    intro m pace index on returns after
    obtain ⟨running, there, pc, machine, taken, events⟩ := of_stopPoint_pause returns
    have turned : after = m.proceed pace := Moment.happen_proceed on
    rw [turned]
    exact ⟨running, there, pc, by simp [Moment.proceed, returns], machine, taken,
      by simp [Moment.proceed, events]⟩
  case found =>
    intro m i here there lowered unbroken once
    have unreported : m.debugger.visit.stopPoint = false := by
      rw [← Bool.not_eq_true]
      exact fun remembered => once (stopped.setAgain remembered there)
    exact stopPoint_of_comes here lowered unbroken there unreported
  case kept =>
    intro m index operator on executes there
    obtain ⟨rfl, remembered, stays⟩ := stopPoint_of_executes executes there
    refine ⟨stopped.setAgain remembered there, ?_⟩
    rw [Moment.happen_proceed on]
    exact stays
  case once =>
    intro m later
    refine Moment.returned_le (fun d => d.stopPoint.isSome) stopPoint_of_returns
      (fun m happening there => ?_) m later
    obtain ⟨index, there⟩ := Option.isSome_iff_exists.mp there
    rcases stopPoint_cases there with before | ⟨-, accepted⟩
    · exact .inr (by simp [before])
    · exact .inl accepted

/-- A stop point that is set again where it has just been reported is passed once and reported in
the next visit. -/
theorem countdown_stops_again_in_next_visit :
    let start : Moment := { debugger := ofProgram .countdown [] {} }
    let set : Happening := .move (.call (.adjust (.setStopPoint 2)))
    let happenings := [set, .move (.call .run)] ++ List.replicate 3 (.move .proceed) ++
      [set, .move (.call .resume)]
    ((start.live happenings).underway = some .running ∧
      (start.live happenings).debugger.events .running = [.executed 2 .decrement] ∧
      (start.live happenings).debugger.stopPoint = some 2) ∧
      start.SetAgain happenings 2 ∧
      ((start.live happenings).live (List.replicate 3 (.move .proceed))).history =
        [.halted (.paused (.stopPoint 2)), .executed 3 .loopEnd, .executed 2 .decrement,
          .halted (.paused (.stopPoint 2)), .executed 1 .loopStart, .executed 0 .increment,
          .reset] ∧
      KeepsStopPoint start happenings := by
  intro start set happenings
  have on : (start.live happenings).underway = some .running := by decide +kernel
  have executes : (start.live happenings).debugger.events .running = [.executed 2 .decrement] := by
    decide +kernel
  have there : (start.live happenings).debugger.stopPoint = some 2 := by decide +kernel
  have all : KeepsStopPoint start happenings := stop_point_reported_once .countdown [] {} happenings
  obtain ⟨again, -⟩ := all.kept 2 .decrement on (by rw [executes]; exact .head _) there
  exact ⟨⟨on, executes, there⟩, again, by decide +kernel, all⟩

end Brainfuck.Debugger
