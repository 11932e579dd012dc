import Brainfuck.Debugger.Basic

/-! Running and stepping: which pauses are made, and in which order they are looked for. Before an
instruction that is the end of the program, then the interrupt, a breakpoint, the stop point and a
watched cell; after it an awaited loop. The fuel of a run is not seen in its outcome. -/
namespace Brainfuck.Debugger

/-- Ends a call at the end of the program. -/
def finish (d : Debugger) : Debugger × Outcome :=
  ({ d with phase := .idle, awaitsExit := false, reported := none }, .finished)

/-- Ends a call on the way. -/
def pause (d : Debugger) (reason : Pause) : Debugger × Outcome :=
  ({ d with phase := .paused reason }, .paused reason)

/-- Ends a call: a program that has come to its end is finished, whatever else has happened. -/
def halt (d : Debugger) (reason : Pause) : Debugger × Outcome :=
  if d.machine.pc < d.program.size then d.pause reason else d.finish

/-- What has been reported since the next instruction came to be the next. -/
def visit (d : Debugger) : Report :=
  match d.reported with
  | some report => if report.index = d.machine.pc then report else { index := d.machine.pc }
  | none => { index := d.machine.pc }

/-- Looks whether the cell under the pointer is watched, unless that is known. As long as nothing
is watched at all, nobody looks. -/
def look (d : Debugger) : Debugger :=
  if d.dwell = .unchecked && !d.watches.isEmpty then
    { d with dwell := if d.watches.contains d.pointer then .armed else .unwatched }
  else d

/-- Carries an instruction out. It has not been reported before the next one that anything is
there. -/
def carryOut (d : Debugger) (i : Instruction) : Debugger :=
  { d with
    machine := d.machine.execute i
    dwell := d.dwell.after i.operator
    reported := none
    signal := d.signal.during i.operator }

/-- Whether an instruction is the end of a loop that is left now and that is waited for. -/
def exits (d : Debugger) (i : Instruction) : Bool :=
  i.operator = .loopEnd && d.awaitsExit && d.machine.tape.current = 0

/-- Executes an instruction, and reports the end of a loop if it is waited for. -/
def perform (d : Debugger) (i : Instruction) : Debugger × Option Pause :=
  if d.exits i then ({ d.carryOut i with awaitsExit := false }, some .loopExit)
  else (d.carryOut i, none)

/-- Executes an instruction, unless it is about to change a watched cell and that has not been
reported in this dwell. -/
def execute (d : Debugger) (i : Instruction) : Debugger × Option Pause :=
  if i.operator = .increment || i.operator = .decrement || i.operator = .input then
    let looked := d.look
    if looked.dwell = .armed && !looked.watches.isEmpty then
      let report := { looked.visit with watch := true }
      ({ looked with dwell := .consumed, reported := some report }, some (.watch looked.pointer))
    else looked.perform i
  else d.perform i

/-- One turn of a run: the program ends, a pause is made, or one instruction is executed. There is
no outcome as long as the run goes on. -/
def turn (d : Debugger) : Debugger × Option Outcome :=
  let pc := d.machine.pc
  match d.program.get? pc with
  | none => Prod.map id some d.finish
  | some i =>
    if d.signal.raised then
      Prod.map id some ({ d with signal := d.signal.lower }.pause .interrupted)
    else if d.marked[pc]?.getD false && !d.visit.breakpoint then
      let report := { d.visit with breakpoint := true }
      Prod.map id some ({ d with reported := some report }.pause (.breakpoint pc))
    else if d.stopPoint = some pc && !d.visit.stopPoint then
      let report := { d.visit with stopPoint := true }
      Prod.map id some
        ({ d with reported := some report, stopPoint := none }.pause (.stopPoint pc))
    else
      match d.execute i with
      | (executed, none) => (executed, none)
      | (executed, some event) => Prod.map id some (executed.halt event)

/-- Takes turns until the run has an outcome, but no more of them than the fuel allows. Without an
outcome the run can be taken up again. -/
def advance : Nat → Debugger → Debugger × Option Outcome
  | 0, d => (d, none)
  | fuel + 1, d =>
    match d.turn with
    | (after, none) => advance fuel after
    | (after, some outcome) => (after, some outcome)

/-- A run that was broken off goes on where it stopped, so a run can be made in slices. -/
theorem advance_add {d e : Debugger} {fuel : Nat} (h : d.advance fuel = (e, none)) (more : Nat) :
    d.advance (fuel + more) = e.advance more := by
  induction fuel generalizing d with
  | zero =>
    obtain rfl : d = e := congrArg Prod.fst h
    rw [Nat.zero_add]
  | succ fuel ih =>
    rw [Nat.succ_add]
    rw [advance] at h ⊢
    match turned : d.turn with
    | (after, none) =>
      rw [turned] at h
      exact ih h
    | (after, some outcome) =>
      rw [turned] at h
      cases h

/-- Fuel that is left over does not change an outcome. -/
theorem advance_add_of_outcome {d e : Debugger} {fuel : Nat} {outcome : Outcome}
    (h : d.advance fuel = (e, some outcome)) (more : Nat) :
    d.advance (fuel + more) = (e, some outcome) := by
  induction fuel generalizing d with
  | zero => cases h
  | succ fuel ih =>
    rw [Nat.succ_add]
    rw [advance] at h ⊢
    match turned : d.turn with
    | (after, none) =>
      rw [turned] at h
      exact ih h
    | (after, some outcome) =>
      rw [turned] at h
      exact h

/-- Runs the program from its first instruction. -/
def run (fuel : Nat) (d : Debugger) : Debugger × Option Outcome :=
  d.reset.advance fuel

/-- Goes on from where the last call ended. -/
def resume (fuel : Nat) (d : Debugger) : Debugger × Option Outcome :=
  d.started.advance fuel

/-- Executes the next instruction and no other. Breakpoints and the stop point do not count here;
watched cells, awaited loops and the interrupt do. -/
def single (d : Debugger) : Debugger × Outcome :=
  if d.signal.raised then
    { d with signal := d.signal.lower }.pause .interrupted
  else
    match d.program.get? d.machine.pc with
    | none => d.finish
    | some i =>
      match d.execute i with
      | (executed, event) => executed.halt (event.getD .stepped)

/-- Executes exactly one instruction from where the last call ended. -/
def step (d : Debugger) : Debugger × Outcome :=
  d.started.single

end Brainfuck.Debugger
