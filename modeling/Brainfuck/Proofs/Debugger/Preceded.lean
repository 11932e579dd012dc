import Brainfuck.Proofs.Debugger.Moment

/-!
# Output that was written before

No call ever reads what the program has written, and no event depends on those before it. So a
session that has other output and another history before its own does the same as without them:
`preceded` puts them in front, and every operation commutes with it.
-/

namespace Brainfuck

/-- The machine with other output before its own. -/
def Machine.preceded (m : Machine) (earlier : Array UInt8) : Machine :=
  { m with output := earlier ++ m.output }

@[simp] theorem Machine.execute_preceded (m : Machine) (earlier : Array UInt8) (i : Instruction) :
    (m.preceded earlier).execute i = (m.execute i).preceded earlier := by
  obtain ⟨op, operand⟩ := i
  cases op with
  | increment | decrement | shiftLeft | shiftRight | loopStart | loopEnd => rfl
  | input =>
    simp only [execute, preceded]
    cases m.input <;> rfl
  | output => simp [execute, preceded]

namespace Debugger

/-- The session with other output before its own. -/
def preceded (d : Debugger) (earlier : Array UInt8) : Debugger :=
  { d with machine := d.machine.preceded earlier }

variable (d : Debugger) (earlier : Array UInt8)

/-! ### Turns -/

theorem look_preceded : (d.preceded earlier).look = d.look.preceded earlier := by
  simp only [look, apply_ite (preceded · earlier)]
  rfl

theorem guards_preceded (i : Instruction) : (d.preceded earlier).guards i = d.guards i := by
  simp only [guards, look_preceded]
  rfl

theorem deed_preceded (pace : Pace) : (d.preceded earlier).deed pace = d.deed pace := by
  have same (i : Instruction) : (d.preceded earlier).attempt i = d.attempt i := by
    simp only [attempt, guards_preceded]
    rfl
  cases pace <;>
  · simp only [deed, same]
    rfl

theorem held_preceded (reason : Pause) :
    (d.preceded earlier).held reason = (d.held reason).preceded earlier := by
  cases reason <;> rfl

theorem executed_preceded (i : Instruction) :
    (d.preceded earlier).executed i = (d.executed i).preceded earlier := by
  have machine : (d.preceded earlier).machine.execute i =
      (d.machine.execute i).preceded earlier := d.machine.execute_preceded earlier i
  have dwell : (d.preceded earlier).dwellAfter i = d.dwellAfter i := by
    simp only [dwellAfter, look_preceded]
    rfl
  simp only [executed, carryOut, machine, dwell]
  rfl

theorem halt_preceded (reason : Pause) :
    (d.preceded earlier).halt reason = Prod.map (·.preceded earlier) id (d.halt reason) := by
  simp only [halt, apply_ite (Prod.map (preceded · earlier) id)]
  rfl

theorem fulfil_preceded (pace : Pace) (deed : Deed) :
    (d.preceded earlier).fulfil pace deed =
      Prod.map (·.preceded earlier) id (d.fulfil pace deed) := by
  cases deed with
  | finish => rfl
  | hold reason => simp [fulfil, held_preceded]
  | execute i =>
    have same : (d.preceded earlier).pauseAfter i pace = d.pauseAfter i pace := rfl
    rw [fulfil, fulfil, same, executed_preceded]
    cases d.pauseAfter i pace with
    | none => rfl
    | some reason =>
      simp only [halt_preceded]
      rfl

theorem proceed_preceded (pace : Pace) :
    (d.preceded earlier).proceed pace = Prod.map (·.preceded earlier) id (d.proceed pace) := by
  rw [proceed_eq, proceed_eq, deed_preceded, fulfil_preceded]

theorem events_preceded (pace : Pace) : (d.preceded earlier).events pace = d.events pace := by
  have same : (d.preceded earlier).machine.pc = d.machine.pc := rfl
  simp only [events, proceed_preceded, deed_preceded, same]
  rfl

/-! ### Calls -/

theorem started_preceded : (d.preceded earlier).started = d.started.preceded earlier := by
  have same : (d.preceded earlier).phase = d.phase := rfl
  rw [started, started, same]
  cases d.phase <;> rfl

theorem advance_preceded (fuel : Nat) :
    (d.preceded earlier).advance fuel = Prod.map (·.preceded earlier) id (d.advance fuel) := by
  induction fuel generalizing d with
  | zero => rfl
  | succ fuel ih =>
    have turned : (d.preceded earlier).turn = Prod.map (·.preceded earlier) id d.turn :=
      d.proceed_preceded earlier .running
    rw [advance, advance, turned]
    rcases d.turn with ⟨after, _ | outcome⟩
    · exact ih after
    · rfl

theorem single_preceded :
    (d.preceded earlier).single = Prod.map (·.preceded earlier) id d.single := by
  have same : Prod.map id some (d.preceded earlier).single =
      Prod.map (·.preceded earlier) id (Prod.map id some d.single) :=
    d.proceed_preceded earlier .stepping
  obtain ⟨debugger, outcome⟩ := Prod.ext_iff.mp same
  exact Prod.ext debugger (Option.some_inj.mp outcome)

theorem step_preceded :
    (d.preceded earlier).step = Prod.map (·.preceded earlier) id d.step := by
  rw [step, step, started_preceded, single_preceded]

/-! ### Requests -/

theorem Request.Inward.preceded {α : Type} {request : Request α} (inward : request.Inward) :
    request (d.preceded earlier) = Prod.map (·.preceded earlier) id (request d) := by
  have after : (request d).1.amid (earlier ++ d.machine.output) d.signal =
      (request d).1.preceded earlier := by
    rw [← inward.output_eq d, ← inward.signal_eq d]
    rfl
  have asked : request (d.preceded earlier) =
      Prod.map (·.amid (earlier ++ d.machine.output) d.signal) id (request d) := inward d _ _
  rw [asked, Prod.map, Prod.map, after]

theorem adjust_preceded (a : Adjustment) :
    (d.preceded earlier).adjust a = (d.adjust a).preceded earlier := by
  cases a with
  | addBreakpoint line =>
    exact congrArg Prod.fst ((Request.inward_addBreakpoint line).preceded d earlier)
  | removeBreakpoint ordinal =>
    exact congrArg Prod.fst ((Request.inward_removeBreakpoint ordinal).preceded d earlier)
  | addWatch address =>
    exact congrArg Prod.fst ((Request.inward_addWatch address).preceded d earlier)
  | removeWatch ordinal =>
    exact congrArg Prod.fst ((Request.inward_removeWatch ordinal).preceded d earlier)
  | setStopPoint index =>
    exact congrArg Prod.fst ((Request.inward_setStopPoint index).preceded d earlier)
  | clearBreakpoints | clearWatches | clearStopPoint | awaitExit | cancelAwait | takeInterrupt
  | peek => rfl

namespace Moment

/-- The session with other output and another history before its own. -/
def preceded (m : Moment) (earlier : Array UInt8) (past : List Event) : Moment :=
  { m with debugger := m.debugger.preceded earlier, history := m.history ++ past }

variable (m : Moment) (past : List Event)

theorem started_preceded :
    (m.preceded earlier past).started = m.started.preceded earlier past := by
  have same : (m.preceded earlier past).debugger.phase = m.debugger.phase := rfl
  rw [started, started, same]
  cases m.debugger.phase <;> rfl

theorem begin_preceded (call : Call) :
    (m.preceded earlier past).begin call = (m.begin call).preceded earlier past := by
  cases call with
  | run | reset => rfl
  | resume | step => rw [begin, begin, started_preceded, preceded, preceded]
  | adjust a =>
    have same := m.debugger.adjust_preceded earlier a
    simp only [begin, preceded, same]

theorem proceed_preceded (pace : Pace) :
    (m.preceded earlier past).proceed pace = (m.proceed pace).preceded earlier past := by
  have same := m.debugger.proceed_preceded earlier pace
  have events := m.debugger.events_preceded earlier pace
  simp [proceed, preceded, same, events]

theorem next_preceded (move : Move) :
    (m.preceded earlier past).next move = (m.next move).preceded earlier past := by
  have same : (m.preceded earlier past).underway = m.underway := rfl
  cases move with
  | interrupt => rfl
  | call call =>
    rw [next, next, same]
    cases m.underway with
    | none => exact m.begin_preceded earlier past call
    | some pace => rfl
  | proceed =>
    rw [next, next, same]
    cases m.underway with
    | none => rfl
    | some pace => exact m.proceed_preceded earlier past pace

theorem play_preceded (moves : List Move) :
    (m.preceded earlier past).play moves = (m.play moves).preceded earlier past := by
  induction moves generalizing m with
  | nil => rfl
  | cons move rest ih => rw [play_cons, play_cons, next_preceded, ih]

end Moment

end Debugger

end Brainfuck
