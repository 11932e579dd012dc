import Brainfuck.Proofs.Debugger.Breaking
import Brainfuck.Proofs.Program.Jumps
import Brainfuck.Proofs.Program.LineTable

/-!
# Sessions stay in order

Jumps, breakpoints and the stop point of an analysed program stay within it. So does a session over
it, whatever is asked of it and whatever happens outside: `InOrder` holds at every moment and
`AtRest` between two calls. Nothing is ever looked for where there is nothing, and what is shown as
the next instruction is the next one that is executed: `session_well_formed`.
-/

namespace Brainfuck

/-- Wherever a program leads, it leads to one of its instructions or to its end. -/
structure Program.InRange (p : Program) : Prop where
  nonempty : 0 < p.size
  lines : ∀ line index, p.lineBegin? line = some index → index < p.size
  jumps : ∀ index i, p.get? index = some i → isBracket i.operator.symbol = true → i.operand ≤ p.size

theorem inRange_of_ofSource {byLine : Bool} {source : String} {p : Program}
    (h : Program.ofSource byLine source = .ok p) : p.InRange where
  nonempty := size_pos_of_ofSource h
  lines := fun _ _ => lt_size_of_lineBegin? h
  jumps := by
    intro index i here bracket
    obtain ⟨texts, idle, closed, -, -⟩ := layout_of_ofSource h
    obtain ⟨l, ⟨-, rfl⟩ | ⟨-, rfl⟩⟩ := exists_loop_of_get? closed here bracket
    · exact Debugger.lt_size_of_get? l.get?_closing
    · exact Debugger.lt_size_of_get? l.get?_opening

/-- A machine that executes an instruction of such a program does not leave it. -/
theorem Machine.pc_execute_le {p : Program} {m : Machine} {i : Instruction} (h : p.InRange)
    (here : p.get? m.pc = some i) : (m.execute i).pc ≤ p.size := by
  have next : m.pc + 1 ≤ p.size := Debugger.lt_size_of_get? here
  obtain ⟨op, operand⟩ := i
  cases op with
  | increment | decrement | shiftLeft | shiftRight | output => exact next
  | input =>
    unfold Machine.execute
    cases m.input <;> exact next
  | loopStart | loopEnd =>
    have jump := h.jumps _ _ here rfl
    simp only [Machine.execute]
    split
    · assumption
    · assumption

namespace Debugger

/-- What happens to a session. -/
inductive Happening
  | move (move : Move)
  /-- Other input is at hand, output has been taken away, or another interrupt is heeded. -/
  | outside (input : List UInt8) (output : Array UInt8) (signal : Signal)

/-- The session among other things outside. -/
def surrounded (d : Debugger) (input : List UInt8) (output : Array UInt8) (signal : Signal) :
    Debugger :=
  { d with machine := { d.machine with input, output }, signal }

namespace Moment

def happen (m : Moment) : Happening → Moment
  | .move move => m.next move
  | .outside input output signal =>
    { m with debugger := m.debugger.surrounded input output signal }

/-- Some happenings, one after the other. -/
def live (m : Moment) (happenings : List Happening) : Moment :=
  happenings.foldl happen m

end Moment

/-- What is in order at every moment. -/
structure InOrder (d : Debugger) : Prop where
  pc : d.machine.pc ≤ d.program.size
  stopPoint : ∀ index, d.stopPoint = some index → index < d.program.size
  breakpoints : ∀ b ∈ d.breakpoints, ∀ index, b.index = some index → index < d.program.size
  marks : d.marked.size = d.program.size
  reported : ∀ report, d.reported = some report → report.index = d.machine.pc

/-- The session is where a pause says that it is. -/
def Fits (d : Debugger) : Pause → Prop
  | .breakpoint index | .stopPoint index => index = d.machine.pc
  | .watch address => address = d.pointer
  | .loopExit | .stepped | .interrupted => True

/-- What is in order between two calls. -/
structure AtRest (d : Debugger) : Prop where
  idle : d.phase = .idle → d.machine.pc = 0 ∨ d.machine.pc = d.program.size
  paused : ∀ reason, d.phase = .paused reason → d.machine.pc < d.program.size ∧ d.Fits reason

/-- A session in order at one moment. -/
structure WellFormed (m : Moment) : Prop where
  inOrder : m.debugger.InOrder
  atRest : m.underway = none → m.debugger.AtRest
  /-- A step begins before an instruction. -/
  stepping : m.underway = some .stepping → m.debugger.machine.pc < m.debugger.program.size

variable {d : Debugger} {m : Moment}

/-! ### Points -/

theorem InOrder.adjust (h : d.InOrder) (range : d.program.InRange) (a : Adjustment) :
    (d.adjust a).InOrder := by
  obtain ⟨pc, stopPoint, breakpoints, marks, reported⟩ := h
  cases a with
  | addBreakpoint line =>
    rcases d.adjust_addBreakpoint line with same | ⟨added, rfl, -, changed⟩
    · rw [same]
      exact ⟨pc, stopPoint, breakpoints, marks, reported⟩
    · rw [changed]
      refine ⟨pc, stopPoint, fun b mem index there => ?_, (d.size_markedFor _).trans marks,
        reported⟩
      rcases mem_insertByKey.mp mem with rfl | before
      · exact range.lines line index there
      · exact breakpoints b before index there
  | removeBreakpoint ordinal =>
    rcases d.adjust_removeBreakpoint ordinal with same | ⟨removed, others, taken, changed⟩
    · rw [same]
      exact ⟨pc, stopPoint, breakpoints, marks, reported⟩
    · rw [changed]
      exact ⟨pc, stopPoint,
        fun b mem => breakpoints b ((mem_of_takeOrdinal? taken b).mpr (.inr mem)),
        (d.size_markedWithout removed others).trans marks, reported⟩
  | clearBreakpoints =>
    exact ⟨pc, stopPoint, by simp [Debugger.adjust, Debugger.clearBreakpoints],
      by simpa [Debugger.adjust, Debugger.clearBreakpoints] using marks, reported⟩
  | addWatch address =>
    rcases d.adjust_addWatch address with same | ⟨-, changed⟩
    · rw [same]
      exact ⟨pc, stopPoint, breakpoints, marks, reported⟩
    · rw [changed]
      exact ⟨pc, stopPoint, breakpoints, marks, reported⟩
  | removeWatch ordinal =>
    rcases d.adjust_removeWatch ordinal with same | ⟨_, _, -, changed⟩
    · rw [same]
      exact ⟨pc, stopPoint, breakpoints, marks, reported⟩
    · rw [changed]
      exact ⟨pc, stopPoint, breakpoints, marks, reported⟩
  | setStopPoint index =>
    rcases d.adjust_setStopPoint index with same | ⟨inside, changed⟩
    · rw [same]
      exact ⟨pc, stopPoint, breakpoints, marks, reported⟩
    · rw [changed]
      refine ⟨pc, ?_, breakpoints, marks, reported⟩
      rintro _ ⟨⟩
      exact inside
  | clearStopPoint =>
    refine ⟨pc, ?_, breakpoints, marks, reported⟩
    rintro _ ⟨⟩
  | clearWatches | awaitExit | cancelAwait | takeInterrupt | peek =>
    exact ⟨pc, stopPoint, breakpoints, marks, reported⟩

/-! ### Turns -/

/-- A deed takes the stop point away if and only if it reports it. -/
theorem stopPoint_fulfil (d : Debugger) (pace : Pace) (deed : Deed) :
    (d.fulfil pace deed).1.stopPoint =
      match deed with
      | .hold (.stopPoint _) => none
      | _ => d.stopPoint := by
  cases deed with
  | finish => rfl
  | hold reason => cases reason <;> rfl
  | execute i =>
    obtain ⟨_, _, h⟩ := d.fulfil_execute_eq pace i
    rw [h]
    rfl

/-- Only what is at the next instruction is remembered. -/
theorem reported_fulfil
    (reported : ∀ report, d.reported = some report → report.index = d.machine.pc)
    (pace : Pace) (deed : Deed) {report : Report}
    (after : (d.fulfil pace deed).1.reported = some report) :
    report.index = (d.fulfil pace deed).1.machine.pc := by
  rw [machine_fulfil]
  cases deed with
  | finish => cases after
  | hold reason =>
    cases reason with
    | breakpoint | stopPoint | watch =>
      cases after
      exact d.index_visit
    | loopExit | stepped | interrupted => exact reported report after
  | execute i =>
    obtain ⟨_, _, h⟩ := d.fulfil_execute_eq pace i
    rw [h] at after
    cases after

theorem InOrder.proceed (h : d.InOrder) (range : d.program.InRange) (pace : Pace) :
    (d.proceed pace).1.InOrder := by
  rw [proceed_eq]
  obtain ⟨breakpoints, marked, -⟩ := d.points_fulfil pace (d.deed pace)
  have program := d.program_fulfil pace (d.deed pace)
  constructor
  case pc =>
    rw [machine_fulfil, program]
    cases deed : d.deed pace with
    | finish | hold => exact h.pc
    | execute i => exact Machine.pc_execute_le range (deed_eq_execute_iff.mp deed).1.here
  case stopPoint =>
    intro index there
    rw [program]
    rw [stopPoint_fulfil] at there
    split at there
    · cases there
    · exact h.stopPoint index there
  case breakpoints =>
    rw [breakpoints, program]
    exact h.breakpoints
  case marks => rw [marked, program, h.marks]
  case reported => exact fun _ => reported_fulfil h.reported pace _

/-- A run that is at the end of its program finishes. -/
theorem deed_of_ended (nothing : d.program.get? d.machine.pc = none) :
    d.deed .running = .finish := by
  simp [deed, nothing]

/-- A pause is made before an instruction, and tells where. -/
theorem fits_held {pace : Pace} {reason : Pause} (deed : d.deed pace = .hold reason) :
    (d.held reason).Fits reason := by
  have found := d.found_deed pace
  rw [deed] at found
  cases found with
  | interrupted => trivial
  | breakpoint | stopPoint | watch => rfl

theorem lt_size_of_hold {pace : Pace} {reason : Pause} (deed : d.deed pace = .hold reason)
    (stepping : pace = .stepping → d.machine.pc < d.program.size) :
    d.machine.pc < d.program.size := by
  cases pace with
  | stepping => exact stepping rfl
  | running =>
    by_contra outside
    rw [deed_of_ended (Array.getElem?_eq_none (Nat.le_of_not_lt outside))] at deed
    cases deed

/-- A call that returns leaves the session before an instruction, or at the end of the program. -/
theorem InOrder.atRest (h : d.InOrder) (range : d.program.InRange) {pace : Pace}
    (stepping : pace = .stepping → d.machine.pc < d.program.size)
    (returned : (d.proceed pace).2 ≠ none) : (d.proceed pace).1.AtRest := by
  have bound := (h.proceed range pace).pc
  rw [proceed_eq] at returned bound ⊢
  cases deed : d.deed pace with
  | finish =>
    have found := d.found_deed pace
    rw [deed] at found
    cases found with
    | ended nothing =>
      have ended : d.machine.pc = d.program.size :=
        Nat.le_antisymm h.pc (Array.getElem?_eq_none_iff.mp nothing)
      exact ⟨fun _ => .inr ended, nofun⟩
  | hold reason =>
    have machine := d.machine_fulfil pace (.hold reason)
    have program := d.program_fulfil pace (.hold reason)
    have phase : (d.fulfil pace (.hold reason)).1.phase = .paused reason := by cases reason <;> rfl
    refine ⟨fun idle => ?_, fun other paused => ?_⟩
    · rw [phase] at idle
      cases idle
    · rw [phase] at paused
      cases paused
      rw [machine, program]
      exact ⟨lt_size_of_hold deed stepping, fits_held deed⟩
  | execute i =>
    rw [deed] at returned bound
    rcases d.fulfil_execute_cases pace i with ⟨e, -⟩ | ⟨reason, e, ends, inside⟩ |
      ⟨reason, e, -, ended⟩
    · rw [e] at returned
      exact absurd rfl returned
    · rw [e]
      refine ⟨nofun, fun other paused => ?_⟩
      cases paused
      refine ⟨inside, ?_⟩
      rcases pauseAfter_cases ends with rfl | rfl <;> trivial
    · rw [e] at bound ⊢
      exact ⟨fun _ => .inr (Nat.le_antisymm bound ended), nofun⟩

/-! ### Calls -/

theorem InOrder.reset (h : d.InOrder) : d.reset.InOrder :=
  ⟨Nat.zero_le _, h.stopPoint, h.breakpoints, h.marks, nofun⟩

theorem atRest_reset (d : Debugger) : d.reset.AtRest :=
  ⟨fun _ => .inl rfl, nofun⟩

theorem InOrder.started (h : d.InOrder) : d.started.InOrder := by
  unfold Debugger.started
  split
  · exact h.reset
  · exact h

/-- A call goes on with the instruction that is shown as the next one. -/
theorem AtRest.started (h : d.AtRest) (range : d.program.InRange) :
    d.started.program = d.program ∧ d.started.machine.pc = d.nextIndex ∧
      d.nextIndex < d.program.size := by
  unfold Debugger.started nextIndex
  cases phase : d.phase with
  | idle =>
    refine ⟨rfl, ?_, ?_⟩
    · rcases h.idle phase with first | last
      · simp [first, Debugger.reset, Machine.restart]
      · simp [last, Debugger.reset, Machine.restart]
    · split
      · assumption
      · exact range.nonempty
  | paused reason =>
    have inside := (h.paused reason phase).1
    rw [if_pos inside]
    exact ⟨rfl, rfl, inside⟩

/-- A session that is at the same place. -/
theorem AtRest.same {e : Debugger} (h : d.AtRest) (program : e.program = d.program)
    (phase : e.phase = d.phase) (pc : e.machine.pc = d.machine.pc)
    (pointer : e.pointer = d.pointer) : e.AtRest where
  idle := by
    rw [phase, pc, program]
    exact h.idle
  paused := by
    intro reason paused
    obtain ⟨inside, fits⟩ := h.paused reason (phase.symm.trans paused)
    rw [pc, program]
    refine ⟨inside, ?_⟩
    cases reason with
    | breakpoint | stopPoint => exact fits.trans pc.symm
    | watch => exact fits.trans pointer.symm
    | loopExit | stepped | interrupted => trivial

theorem AtRest.adjust (h : d.AtRest) (a : Adjustment) : (d.adjust a).AtRest := by
  obtain ⟨program, machine, phase, -⟩ := d.adjust_frame a
  exact h.same program phase (congrArg Machine.pc machine) (congrArg (·.tape.pointer) machine)

/-! ### Sessions -/

/-- A call that executes instructions begins where there is one. -/
theorem WellFormed.begin (h : WellFormed m) (range : m.debugger.program.InRange)
    (returned : m.underway = none) (call : Call) :
    WellFormed (m.begin call) ∧ (m.begin call).debugger.program = m.debugger.program := by
  obtain ⟨program, pc, inside⟩ := (h.atRest returned).started range
  have started : m.debugger.started.machine.pc < m.debugger.started.program.size := by
    rw [program, pc]
    exact inside
  rw [← Moment.debugger_started] at started program
  have inOrder : m.started.debugger.InOrder := by
    rw [Moment.debugger_started]
    exact h.inOrder.started
  cases call with
  | run => exact ⟨⟨h.inOrder.reset, nofun, nofun⟩, rfl⟩
  | resume => exact ⟨⟨inOrder, nofun, nofun⟩, program⟩
  | step => exact ⟨⟨inOrder, nofun, fun _ => started⟩, program⟩
  | reset =>
    refine ⟨⟨h.inOrder.reset, fun _ => m.debugger.atRest_reset, fun on => ?_⟩, rfl⟩
    cases returned.symm.trans on
  | adjust a =>
    exact ⟨⟨h.inOrder.adjust range a, fun _ => (h.atRest returned).adjust a,
      fun on => by cases returned.symm.trans on⟩, (m.debugger.adjust_frame a).1⟩

theorem WellFormed.proceed (h : WellFormed m) (range : m.debugger.program.InRange) {pace : Pace}
    (underway : m.underway = some pace) :
    WellFormed (m.proceed pace) ∧ (m.proceed pace).debugger.program = m.debugger.program := by
  have stepping (paced : pace = .stepping) : m.debugger.machine.pc < m.debugger.program.size :=
    h.stepping (by rw [underway, paced])
  refine ⟨⟨h.inOrder.proceed range pace, fun returned => ?_, fun on => ?_⟩,
    m.debugger.program_proceed pace⟩
  · refine h.inOrder.atRest range stepping fun going => ?_
    simp [Moment.proceed, going] at returned
  · -- A step returns from its only turn.
    cases pace with
    | running => simp [Moment.proceed] at on
    | stepping => simp [Moment.proceed, Debugger.proceed] at on

/-- What does not concern the place of a session leaves it in order. -/
theorem WellFormed.outside (h : WellFormed m) (input : List UInt8) (output : Array UInt8)
    (signal : Signal) :
    WellFormed { m with debugger := m.debugger.surrounded input output signal } where
  inOrder := ⟨h.inOrder.pc, h.inOrder.stopPoint, h.inOrder.breakpoints, h.inOrder.marks,
    h.inOrder.reported⟩
  atRest := fun returned => (h.atRest returned).same rfl rfl rfl rfl
  stepping := h.stepping

/-- Calls, turns and whatever happens outside leave a session in order. -/
theorem WellFormed.happen (h : WellFormed m) (range : m.debugger.program.InRange)
    (happening : Happening) :
    WellFormed (m.happen happening) ∧
      (m.happen happening).debugger.program = m.debugger.program := by
  cases happening with
  | outside input output signal => exact ⟨h.outside input output signal, rfl⟩
  | move move =>
    cases move with
    | interrupt => exact ⟨h.outside _ _ m.debugger.signal.raise, rfl⟩
    | proceed =>
      rw [Moment.happen, Moment.next]
      cases underway : m.underway with
      | none => exact ⟨h, rfl⟩
      | some pace => exact h.proceed range underway
    | call call =>
      rw [Moment.happen, Moment.next]
      cases underway : m.underway with
      | none => exact h.begin range underway call
      | some pace => exact ⟨h, rfl⟩

theorem WellFormed.live (h : WellFormed m) (range : m.debugger.program.InRange)
    (happenings : List Happening) :
    WellFormed (m.live happenings) ∧
      (m.live happenings).debugger.program = m.debugger.program := by
  induction happenings generalizing m with
  | nil => exact ⟨h, rfl⟩
  | cons happening later ih =>
    obtain ⟨next, program⟩ := h.happen range happening
    obtain ⟨last, program'⟩ := ih next (program ▸ range)
    exact ⟨last, program'.trans program⟩

theorem wellFormed_ofProgram (p : Program) (input : List UInt8) (schedule : Schedule) :
    WellFormed { debugger := ofProgram p input schedule } where
  inOrder := ⟨Nat.zero_le _, nofun, nofun, by simp [ofProgram], nofun⟩
  atRest := fun _ => ⟨fun _ => .inl rfl, nofun⟩
  stepping := nofun

end Debugger

end Brainfuck
