import Brainfuck.Program
import Brainfuck.Program.Fault
import Brainfuck.Text.Line

/-! From a program text to its program. Runs of one operator become one instruction, opposite
operators cancel, and each bracket learns where its partner is as soon as that is read. -/
namespace Brainfuck

/-- A `[` that waits for its `]`: its instruction, and where it was read. -/
structure OpenBracket where
  index : Nat
  line : Nat
  column : Nat
  deriving DecidableEq

/-- A program as far as its text has been read. -/
structure Assembly where
  /-- Whether instructions are to be found by line. Then none is merged with one of an earlier
  line. -/
  byLine : Bool
  instructions : Array Instruction := #[]
  /-- How many instructions there were when each line began. -/
  lineBegins : Array Nat := #[]
  /-- The brackets that wait, the innermost first. -/
  openBrackets : List OpenBracket := []
  warnings : Array Warning := #[]
  deriving DecidableEq

namespace Assembly

/-- The line that is being read, counted from 1. -/
def line (a : Assembly) : Nat :=
  a.lineBegins.size

/-- How many instructions there were when the line began. -/
def lineBegin (a : Assembly) : Nat :=
  a.lineBegins.back?.getD 0

def beginLine (a : Assembly) : Assembly :=
  { a with lineBegins := a.lineBegins.push a.instructions.size }

/-- Adds an instruction of its own. -/
def push (a : Assembly) (operator : Operator) (operand : Nat) : Assembly :=
  { a with instructions := a.instructions.push ⟨operator, operand⟩ }

/-- The instruction that the next operator of a run may join: the last one, but never one of an
earlier line when instructions are to be found by line. -/
def joinable? (a : Assembly) : Option Instruction :=
  if a.byLine && a.instructions.size == a.lineBegin then none else a.instructions.back?

/-- Puts another operand into the last instruction; one that comes down to zero is gone. -/
def amendLast (a : Assembly) (last : Instruction) (operand : Nat) : Assembly :=
  if operand = 0 then { a with instructions := a.instructions.pop }
  else { a with instructions := a.instructions.pop.push { last with operand } }

/-- Adds an operator that is counted: it joins a run of its own kind, takes one away from a run
of its opposite, and begins a run otherwise. -/
def addCounted (a : Assembly) (operator : Operator) : Assembly :=
  match a.joinable? with
  | none => a.push operator 1
  | some last =>
    if last.operator = operator then a.amendLast last (last.operand + 1)
    else if operator.opposite = some last.operator then a.amendLast last (last.operand - 1)
    else a.push operator 1

/-- Opens a loop. Its operand is filled in when it is closed. -/
def openLoop (a : Assembly) (column : Nat) : Assembly :=
  let bracket : OpenBracket := ⟨a.instructions.size, a.line, column⟩
  { a with openBrackets := bracket :: a.openBrackets }.push .loopStart 0

/-- Warns of a loop that would be closed right after it was opened. -/
def warnOfEmpty (a : Assembly) (bracket : OpenBracket) : Assembly :=
  if a.instructions.size = bracket.index + 1 then
    { a with warnings := a.warnings.push (.emptyLoop a.line) }
  else a

/-- Adds the end of a loop and lets the two brackets know of each other. -/
def link (a : Assembly) (bracket : OpenBracket) : Assembly :=
  let opened : Instruction := ⟨.loopStart, a.instructions.size + 1⟩
  let closed : Instruction := ⟨.loopEnd, bracket.index + 1⟩
  -- Both operands are the index behind the partner, where a jump goes.
  { a with instructions := (a.instructions.push closed).setIfInBounds bracket.index opened }

/-- Closes the innermost open loop; if there is none, the bracket has no partner. -/
def closeLoop (a : Assembly) (column : Nat) : Except Unmatched Assembly :=
  match a.openBrackets with
  | [] => .error ⟨.closing, a.line, column⟩
  | bracket :: outer => .ok (({ a with openBrackets := outer }.warnOfEmpty bracket).link bracket)

/-- Adds one operator, read at a column of the line. -/
def addOperator (a : Assembly) (column : Nat) (operator : Operator) :
    Except Unmatched Assembly :=
  match operator with
  | .increment | .decrement | .shiftLeft | .shiftRight => .ok (a.addCounted operator)
  | .input | .output => .ok (a.push operator 1)
  | .loopStart => .ok (a.openLoop column)
  | .loopEnd => a.closeLoop column

/-- Adds the characters of a line from a column on. -/
def addChars (a : Assembly) (column : Nat) : List Char → Except Unmatched Assembly
  | [] => .ok a
  | c :: rest =>
    match Operator.ofChar? c with
    | none => a.addChars (column + 1) rest
    | some operator =>
      match a.addOperator column operator with
      | .ok next => next.addChars (column + 1) rest
      | .error fault => .error fault

def addLines (a : Assembly) : List (List Char) → Except Unmatched Assembly
  | [] => .ok a
  | line :: rest =>
    match a.beginLine.addChars 0 line with
    | .ok next => next.addLines rest
    | .error fault => .error fault

/-- What the lines of a program begin with, the last line first: those behind the last instruction
have nothing to begin with, and from the first that has one all are as they were kept. -/
def beginsBackwards (size : Nat) : List Nat → List (Option Nat)
  | [] => []
  | begin :: earlier =>
    if begin < size then (begin :: earlier).map some else none :: beginsBackwards size earlier

/-- The finished program. A line after the last instruction has nothing to begin with. -/
def finish (a : Assembly) : Program where
  instructions := a.instructions
  lineBegins :=
    if a.byLine then
      some (beginsBackwards a.instructions.size a.lineBegins.toList.reverse).reverse.toArray
    else none
  lineCount := a.lineBegins.size
  warnings := a.warnings

/-- The outermost bracket that still waits is the one to blame. -/
def blame? (a : Assembly) : Option Unmatched :=
  a.openBrackets.getLast?.map fun bracket => ⟨.opening, bracket.line, bracket.column⟩

end Assembly

namespace Program

/-- A fault that shows the line it is about. -/
def Fault.at (lines : List (List Char)) (place : Unmatched) : Fault :=
  .unmatched place (String.ofList (Text.stripEnding (lines[place.line - 1]?.getD [])))

/-- Analyses a program text. With `byLine`, instructions can be found by line, and no instruction
belongs to two lines. -/
def ofSource (byLine : Bool) (source : String) : Except Fault Program :=
  let lines := Text.lines source.toList
  match ({ byLine } : Assembly).addLines lines with
  | .error place => .error (.at lines place)
  | .ok assembly =>
    match assembly.blame? with
    | some place => .error (.at lines place)
    | none => if assembly.instructions.isEmpty then .error .empty else .ok assembly.finish

end Program

end Brainfuck
