import Brainfuck.Text.Column

/-! Why a text is no program, and how that is shown to its author. -/
namespace Brainfuck

/-- One of the two brackets. -/
inductive Bracket
  | opening
  | closing
  deriving DecidableEq

def Bracket.symbol : Bracket → Char
  | .opening => '['
  | .closing => ']'

/-- A bracket without a partner: lines count from 1 and columns, in characters, from 0. -/
structure Unmatched where
  bracket : Bracket
  line : Nat
  column : Nat
  deriving DecidableEq

namespace Program

/-- Why a text is no program. -/
inductive Fault
  /-- A bracket has no partner. The line it stands on comes without its ending. -/
  | unmatched (place : Unmatched) (sourceLine : String)
  /-- No instruction is left once comments are skipped and opposites cancelled. -/
  | empty
  deriving DecidableEq

namespace Fault

def message : Fault → String
  | unmatched place _ =>
    "Unmatched bracket '" ++ place.bracket.symbol.toString ++ "' at line " ++ toString place.line ++
      ", column " ++ toString place.column
  | empty => "Program is empty"

/-- What stands under the characters before a marked one: tabs under tabs, so that the mark is
found at the same place, and blanks under the others. -/
def padding (line : List Char) : List Char :=
  line.map fun c => if c = '\t' then '\t' else ' '

/-- A source line with a caret under one of its columns. -/
def marked (sourceLine : String) (column : Nat) : String :=
  "  " ++ sourceLine ++ "\n  " ++ String.ofList (padding (sourceLine.toList.take column)) ++ "^"

/-- The fault as it is reported, under the name of the reporting program if there is one. -/
def report (reporter : Option String) (fault : Fault) : String :=
  let headline := (reporter.map (· ++ ": ")).getD "" ++ "Parse error: " ++ fault.message
  match fault with
  | unmatched place sourceLine => headline ++ "\n" ++ marked sourceLine place.column
  | empty => headline

end Fault

end Program

end Brainfuck
