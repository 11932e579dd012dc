import Brainfuck.Proofs.Debugger.WellFormed

/-!
# The next instruction

A session shows which instruction it executes next. Whatever is adjusted before the next call, this
is the first one that the call executes, if it executes any. `session_well_formed` says so, with
what holds of a session at every moment.
-/

namespace Brainfuck.Debugger

/-- Nothing is set back or executed: a call that executes nothing, or something outside. -/
def Happening.isQuiet : Happening → Bool
  | .move (.call (.adjust _)) | .move .interrupt | .outside .. => true
  | .move _ => false

/-- A call is left to itself, but for what happens outside. -/
def Happening.isTurn : Happening → Bool
  | .move next => next = .proceed || next = .interrupt
  | .outside .. => true

/-- The instruction that an event says was executed. -/
def Event.execution? : Event → Option (Nat × Operator)
  | .executed index operator => some (index, operator)
  | .reset | .halted _ => none

/-- The first instruction that was executed, the latest event standing first. -/
def firstExecution? (history : List Event) : Option (Nat × Operator) :=
  history.reverse.findSome? Event.execution?

/-- Nothing is looked for where there is nothing: a step finds its instruction, and every
instruction that a turn, a breakpoint or a line leads to has its mark. -/
structure Covered (m : Moment) : Prop where
  instruction : m.underway = some .stepping →
    ∃ i, m.debugger.program.get? m.debugger.machine.pc = some i
  mark : ∀ i, m.debugger.program.get? m.debugger.machine.pc = some i →
    ∃ mark, m.debugger.marked[m.debugger.machine.pc]? = some mark
  added : ∀ line index, m.debugger.program.lineBegin? line = some index →
    ∃ mark, m.debugger.marked[index]? = some mark
  removed : ∀ b ∈ m.debugger.breakpoints, ∀ index, b.index = some index →
    ∃ mark, m.debugger.marked[index]? = some mark

variable {m : Moment} {index : Nat} {i : Instruction} {start : List Event}

theorem WellFormed.covered (h : WellFormed m) (range : m.debugger.program.InRange) : Covered m := by
  have marks : ∀ index < m.debugger.program.size,
      ∃ mark, m.debugger.marked[index]? = some mark := by
    intro index inside
    rw [← h.inOrder.marks] at inside
    exact ⟨_, Array.getElem?_eq_getElem inside⟩
  constructor
  case instruction => exact fun step => ⟨_, Array.getElem?_eq_getElem (h.stepping step)⟩
  case mark => exact fun i here => marks _ (lt_size_of_get? here)
  case added => exact fun line index begins => marks _ (range.lines line index begins)
  case removed => exact fun b mem index there => marks _ (h.inOrder.breakpoints b mem index there)

/-! ### The first instruction of a call -/

theorem firstExecution?_append (later earlier : List Event) :
    firstExecution? (later ++ earlier) = (firstExecution? earlier).or (firstExecution? later) := by
  simp [firstExecution?]

theorem firstExecution?_events (d : Debugger) (pace : Pace) :
    firstExecution? (d.events pace) =
      match d.deed pace with
      | .execute i => some (d.machine.pc, i.operator)
      | .finish | .hold _ => none := by
  cases deed : d.deed pace with
  | finish => simp [events_of_finish deed, firstExecution?, Event.execution?]
  | hold reason => simp [events_of_hold deed, firstExecution?, Event.execution?]
  | execute i =>
    rcases events_of_execute deed with ⟨-, e⟩ | ⟨_, -, -, e⟩ <;>
      simp [e, firstExecution?, List.findSome?_cons, Event.execution?]

/-- Since a moment, an instruction was the first to be executed, or it is still to be. -/
def Heads (m : Moment) (start : List Event) (index : Nat) (i : Instruction) : Prop :=
  ∃ newer, m.history = newer ++ start ∧
    (firstExecution? newer = some (index, i.operator) ∨
      firstExecution? newer = none ∧ m.debugger.machine.pc = index)

theorem Heads.proceed (h : Heads m start index i) (here : m.debugger.program.get? index = some i)
    (pace : Pace) : Heads (m.proceed pace) start index i := by
  obtain ⟨newer, history, first⟩ := h
  refine ⟨m.debugger.events pace ++ newer, by simp [Moment.proceed, history], ?_⟩
  rw [firstExecution?_append, firstExecution?_events]
  rcases first with first | ⟨none, pc⟩
  · exact .inl (by rw [first]; rfl)
  · rw [none, Option.none_or, Moment.proceed, proceed_eq, machine_fulfil]
    cases deed : m.debugger.deed pace with
    | finish | hold => exact .inr ⟨rfl, pc⟩
    | execute j =>
      have there := (deed_eq_execute_iff.mp deed).1.here
      rw [pc] at there ⊢
      obtain rfl : i = j := Option.some_inj.mp (here.symm.trans there)
      exact .inl rfl

theorem Heads.happen (h : Heads m start index i) (here : m.debugger.program.get? index = some i)
    {happening : Happening} (turn : happening.isTurn = true) :
    Heads (m.happen happening) start index i ∧
      (m.happen happening).debugger.program = m.debugger.program := by
  cases happening with
  | outside => exact ⟨h, rfl⟩
  | move move =>
    cases move with
    | call => cases turn
    | interrupt => exact ⟨h, rfl⟩
    | proceed =>
      rw [Moment.happen, Moment.next]
      cases m.underway with
      | none => exact ⟨h, rfl⟩
      | some pace =>
        exact ⟨h.proceed here pace, program_proceed _ pace⟩

theorem Heads.live (h : Heads m start index i) (here : m.debugger.program.get? index = some i)
    {later : List Happening} (turns : ∀ happening ∈ later, happening.isTurn = true) :
    Heads (m.live later) start index i := by
  induction later generalizing m with
  | nil => exact h
  | cons happening later ih =>
    obtain ⟨first, others⟩ := List.forall_mem_cons.mp turns
    obtain ⟨next, program⟩ := h.happen here first
    exact ih next (by rw [program, here]) others

/-! ### Before the call -/

/-- What is quiet does not touch the place of a session. -/
theorem happen_quiet (returned : m.underway = none) {happening : Happening}
    (quiet : happening.isQuiet = true) :
    (m.happen happening).underway = none ∧ (m.happen happening).history = m.history ∧
      (m.happen happening).debugger.program = m.debugger.program ∧
      (m.happen happening).debugger.machine.pc = m.debugger.machine.pc := by
  cases happening with
  | outside => exact ⟨returned, rfl, rfl, rfl⟩
  | move move =>
    cases move with
    | interrupt => exact ⟨returned, rfl, rfl, rfl⟩
    | proceed => cases quiet
    | call call =>
      cases call with
      | run | resume | step | reset => cases quiet
      | adjust a =>
        obtain ⟨program, machine, -⟩ := m.debugger.adjust_frame a
        have begun : m.happen (.move (.call (.adjust a))) = m.begin (.adjust a) := by
          simp [Moment.happen, Moment.next, returned]
        rw [begun]
        exact ⟨returned, rfl, program, congrArg Machine.pc machine⟩

theorem live_quiet (returned : m.underway = none) {before : List Happening}
    (quiet : ∀ happening ∈ before, happening.isQuiet = true) :
    (m.live before).underway = none ∧ (m.live before).history = m.history ∧
      (m.live before).debugger.program = m.debugger.program ∧
      (m.live before).debugger.machine.pc = m.debugger.machine.pc := by
  induction before generalizing m with
  | nil => exact ⟨returned, rfl, rfl, rfl⟩
  | cons happening later ih =>
    obtain ⟨first, others⟩ := List.forall_mem_cons.mp quiet
    obtain ⟨returned', history, program, pc⟩ := happen_quiet returned first
    obtain ⟨last, history', program', pc'⟩ := ih returned' others
    exact ⟨last, history'.trans history, program'.trans program, pc'.trans pc⟩

/-- A call that goes on begins with the instruction that is shown as the next one. -/
theorem heads_begin (h : WellFormed m) (range : m.debugger.program.InRange)
    (returned : m.underway = none) {call : Call} (onward : call = .resume ∨ call = .step) :
    Heads (m.begin call) m.history m.debugger.nextIndex i ∧
      (m.begin call).debugger.program = m.debugger.program := by
  obtain ⟨program, pc, -⟩ := (h.atRest returned).started range
  rw [← Moment.debugger_started] at program pc
  have history : m.started.history = m.history ∨ m.started.history = .reset :: m.history := by
    unfold Moment.started
    split
    · exact .inr rfl
    · exact .inl rfl
  have started : Heads m.started m.history m.debugger.nextIndex i := by
    rcases history with same | reset
    · exact ⟨[], same, .inr ⟨rfl, pc⟩⟩
    · exact ⟨[.reset], reset, .inr ⟨rfl, pc⟩⟩
  rcases onward with rfl | rfl
  · exact ⟨started, program⟩
  · exact ⟨started, program⟩

/-- A session over an analysed program is in order at every moment, whatever calls are made and
whatever happens outside. What it shows as the next instruction is the first one that the next call
executes, if that goes on and executes any. -/
theorem session_well_formed {byLine : Bool} {source : String} {p : Program}
    (accepted : Program.ofSource byLine source = .ok p) (input : List UInt8) (schedule : Schedule)
    (happenings : List Happening) :
    let m := ({ debugger := ofProgram p input schedule } : Moment).live happenings
    m.debugger.program = p ∧ WellFormed m ∧ Covered m ∧
      ∃ i, m.debugger.next? = some (m.debugger.nextIndex, i) ∧
        (m.underway = none → ∀ before call later,
          (∀ happening ∈ before, happening.isQuiet = true) → (call = .resume ∨ call = .step) →
          (∀ happening ∈ later, happening.isTurn = true) →
          ∃ newer, (m.live (before ++ .move (.call call) :: later)).history = newer ++ m.history ∧
            ∀ first, firstExecution? newer = some first →
              first = (m.debugger.nextIndex, i.operator)) := by
  intro m
  have range := inRange_of_ofSource accepted
  obtain ⟨wellFormed, program⟩ := (wellFormed_ofProgram p input schedule).live range happenings
  have program : m.debugger.program = p := program
  have range' : m.debugger.program.InRange := program ▸ range
  have inside : m.debugger.nextIndex < m.debugger.program.size := by
    unfold nextIndex
    split
    · assumption
    · exact range'.nonempty
  obtain ⟨i, here⟩ : ∃ i, m.debugger.program.get? m.debugger.nextIndex = some i :=
    ⟨_, Array.getElem?_eq_getElem inside⟩
  refine ⟨program, wellFormed, wellFormed.covered range', i, by simp [next?, here], ?_⟩
  intro returned before call later quiet onward turns
  obtain ⟨returned', history, program', pc⟩ := live_quiet returned quiet
  have wellFormed' := (wellFormed.live range' before).1
  have next : (m.live before).debugger.nextIndex = m.debugger.nextIndex := by
    rw [nextIndex, nextIndex, pc, program']
  obtain ⟨heads, program''⟩ := heads_begin wellFormed' (program' ▸ range') returned' onward (i := i)
  rw [next, history] at heads
  obtain ⟨newer, split, first⟩ := heads.live (by rw [program'', program', here]) turns
  have begun : m.live (before ++ .move (.call call) :: later) =
      ((m.live before).begin call).live later := by
    have call' : (m.live before).happen (.move (.call call)) = (m.live before).begin call := by
      rw [Moment.happen, Moment.next, returned']
    rw [← call', Moment.live, List.foldl_append]
    rfl
  refine ⟨newer, by rw [begun, split], fun executed found => ?_⟩
  rcases first with first | ⟨none, -⟩
  · exact Option.some_inj.mp (found.symm.trans first)
  · cases none.symm.trans found

/-- When a session has finished at the end of its program, the first instruction is shown, and a
step executes it although a breakpoint is set in between. -/
theorem finished_session_shows_first_instruction :
    let p : Program := ⟨#[⟨.increment, 1⟩, ⟨.output, 1⟩], some #[some 0], 1, #[]⟩
    let m := ({ debugger := ofProgram p [] {} } : Moment).live
      (.move (.call .run) :: List.replicate 3 (.move .proceed))
    let after := m.live [.move (.call (.adjust (.addBreakpoint 1))), .move (.call .step),
      .move .proceed]
    Program.ofSource true "+." = .ok p ∧
      (m.underway = none ∧ m.debugger.machine.pc = 2 ∧ m.debugger.nextIndex = 0) ∧ WellFormed m ∧
      after.history =
        [.halted (.paused .stepped), .executed 0 .increment, .reset] ++ m.history ∧
      ∃ newer, after.history = newer ++ m.history ∧
        ∀ first, firstExecution? newer = some first → first = (0, .increment) := by
  intro p m after
  have accepted : Program.ofSource true "+." = .ok p := by cbv
  have ended : m.underway = none ∧ m.debugger.machine.pc = 2 ∧ m.debugger.nextIndex = 0 := by
    decide +kernel
  have shown : m.debugger.next? = some (0, ⟨.increment, 1⟩) := by decide +kernel
  have history : after.history =
      [.halted (.paused .stepped), .executed 0 .increment, .reset] ++ m.history := by decide +kernel
  obtain ⟨-, wellFormed, -, i, next, first⟩ :=
    session_well_formed accepted [] {} (.move (.call .run) :: List.replicate 3 (.move .proceed))
  obtain ⟨-, rfl⟩ := Prod.mk.inj (Option.some_inj.mp (shown.symm.trans next))
  obtain ⟨newer, split, executed⟩ := first ended.1 [.move (.call (.adjust (.addBreakpoint 1)))]
    .step [.move .proceed] (by simp [Happening.isQuiet]) (.inr rfl) (by simp [Happening.isTurn])
  rw [ended.2.2] at executed
  exact ⟨accepted, ended, wellFormed, history, newer, split, executed⟩

end Brainfuck.Debugger
