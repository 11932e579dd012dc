import Brainfuck.Debugger.PointList
import Brainfuck.Debugger.Signal
import Brainfuck.Machine

/-! The debugger: a machine that halts where it has been asked to. It does so before an instruction
for a breakpoint, for the stop point, for a watched cell that is about to change and for an
interrupt, and after an instruction for a loop that has been waited for and for a single step.
Going on reports nothing twice. -/
namespace Brainfuck

/-- Why a program has halted before its end. -/
inductive Pause
  /-- The next instruction is that of a breakpoint. -/
  | breakpoint (index : Nat)
  /-- The next instruction is about to change a watched cell. -/
  | watch (address : Int)
  /-- A loop has ended while one was waited for. -/
  | loopExit
  /-- The next instruction is that of the stop point, which is gone now. -/
  | stopPoint (index : Nat)
  /-- One instruction has been executed, as asked. -/
  | stepped
  /-- The interrupt was raised. -/
  | interrupted
  deriving DecidableEq

/-- How a call that executes instructions has ended. -/
inductive Outcome
  | finished
  | paused (pause : Pause)
  deriving DecidableEq

/-- Where a session is between two calls. -/
inductive Phase
  /-- Not started, reset, or at the end of the program. -/
  | idle
  | paused (pause : Pause)
  deriving DecidableEq

/-- What is known about the cell under the pointer since the pointer was last moved: one watch
pause is made there at most. -/
inductive Dwell
  /-- Nobody has looked yet. -/
  | unchecked
  /-- The cell is not watched. -/
  | unwatched
  /-- The cell is watched. -/
  | armed
  /-- The cell's pause has been made. -/
  | consumed
  deriving DecidableEq

/-- Moving the pointer begins a new dwell. -/
def Dwell.after (dwell : Dwell) (operator : Operator) : Dwell :=
  match operator with
  | .shiftLeft | .shiftRight => .unchecked
  | _ => dwell

/-- What has been reported before the instruction at an index since it came to be the next. A watch
pause is noted like the others, but what keeps it from being made twice is the dwell. -/
structure Report where
  index : Nat
  breakpoint : Bool := false
  stopPoint : Bool := false
  watch : Bool := false
  deriving DecidableEq

/-- A debug session over one program. -/
structure Debugger where
  program : Program
  machine : Machine := {}
  phase : Phase := .idle
  /-- The breakpoints, by line. -/
  breakpoints : List Breakpoint := []
  /-- For each instruction whether a breakpoint halts there. -/
  marked : Array Bool
  /-- The watched addresses, in rising order. -/
  watches : List Int := []
  /-- The instruction to halt at once. -/
  stopPoint : Option Nat := none
  /-- Whether the end of a loop is waited for. -/
  awaitsExit : Bool := false
  dwell : Dwell := .unchecked
  reported : Option Report := none
  signal : Signal := {}

namespace Debugger

/-- A session that has not started. -/
def ofProgram (program : Program) (input : List UInt8) (schedule : Schedule) : Debugger where
  program
  machine := { input }
  marked := Array.replicate program.size false
  signal := { schedule }

/-! ### What a session shows -/

def pointer (d : Debugger) : Int :=
  d.machine.tape.pointer

def running (d : Debugger) : Bool :=
  d.phase != .idle

/-- The index of the instruction to execute next. At the end of the program that is the first one,
where a new run begins. -/
def nextIndex (d : Debugger) : Nat :=
  if d.machine.pc < d.program.size then d.machine.pc else 0

/-- The instruction to execute next, with its index. -/
def next? (d : Debugger) : Option (Nat × Instruction) :=
  (d.program.get? d.nextIndex).map fun i => (d.nextIndex, i)

/-! ### Beginning -/

/-- Forgets the tape and what belongs to one run. Points stay, and so does the interrupt. -/
def reset (d : Debugger) : Debugger :=
  { d with
    machine := d.machine.restart
    phase := .idle
    awaitsExit := false
    dwell := .unchecked
    reported := none }

/-- A session that goes on from where it is, or from the first instruction when it is idle. -/
def started (d : Debugger) : Debugger :=
  match d.phase with
  | .idle => d.reset
  | .paused _ => d

/-! ### The world outside -/

def interrupt (d : Debugger) : Debugger :=
  { d with signal := d.signal.raise }

/-- Lowers the interrupt flag and tells whether it was raised. -/
def takeInterrupt (d : Debugger) : Debugger × Bool :=
  ({ d with signal := d.signal.lower }, d.signal.raised)

def withInput (d : Debugger) (bytes : List UInt8) : Debugger :=
  { d with machine := { d.machine with input := bytes } }

def feed (d : Debugger) (bytes : List UInt8) : Debugger :=
  d.withInput (d.machine.input ++ bytes)

def takeOutput (d : Debugger) : Debugger × Array UInt8 :=
  ({ d with machine := { d.machine with output := #[] } }, d.machine.output)

end Debugger

end Brainfuck
