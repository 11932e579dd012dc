import Brainfuck.Instruction

/-! Analysed programs: a row of instructions whose brackets know where to go on, and the table of
the lines they come from. -/
namespace Brainfuck

/-- What is worth telling about a program that is accepted nevertheless. -/
inductive Warning
  /-- A loop with nothing in it: it is passed over, or never ends. -/
  | emptyLoop (line : Nat)
  deriving DecidableEq

def Warning.message : Warning → String
  | .emptyLoop line => "empty loop at line " ++ toString line

/-- An analysed program. A `[` carries the index after its `]`, and a `]` the index after its
`[`, so that a jump lands on the instruction to execute next. -/
structure Program where
  instructions : Array Instruction
  /-- For each source line the first instruction from there on, if lines are kept track of. The
  last lines may have none. -/
  lineBegins : Option (Array (Option Nat))
  lineCount : Nat
  warnings : Array Warning
  deriving DecidableEq

namespace Program

def size (p : Program) : Nat :=
  p.instructions.size

def get? (p : Program) (index : Nat) : Option Instruction :=
  p.instructions[index]?

def hasLines (p : Program) : Bool :=
  p.lineBegins.isSome

/-- The first instruction from a line on, lines being counted from 1. -/
def lineBegin? (p : Program) (line : Nat) : Option Nat :=
  match p.lineBegins, line with
  | some begins, index + 1 => begins[index]?.join
  | _, _ => none

end Program

end Brainfuck
