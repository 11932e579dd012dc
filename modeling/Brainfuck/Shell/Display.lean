import Brainfuck.Command
import Brainfuck.Shell.Basic

/-! What the shell shows on request: the next instruction, cells of the tape, and points. -/
namespace Brainfuck.Shell

def showNext (s : Shell) : Shell :=
  match s.debugger.next? with
  | some (index, i) => s.note (Text.Column.left 8 (toString index) ++ " " ++ i.text)
  | none => s

/-- A cell with its offset from the pointer. The one under the pointer is in brackets. -/
def cellSpans (offset : Int) (byte : UInt8) : List Span :=
  let number := toString byte.toNat
  if offset = 0 then [.toned .pointerCell ("[" ++ number ++ "]"), .plain " "]
  else [.plain (number ++ " ")]

def rowSpans (offset : Int) (row : List UInt8) : List Span :=
  row.zipIdx.flatMap fun (byte, index) => cellSpans (offset + (index : Nat)) byte

def showCells (s : Shell) (offset : Int) (length : Nat) : Shell :=
  ((rowSpans offset (s.debugger.machine.tape.peek offset length)).foldl put s).print "\n\n"

def showWindow (s : Shell) : Shell :=
  s.showCells (-s.window.before) s.window.width

def showStopPoint (s : Shell) : Shell :=
  match s.debugger.stopPoint with
  | some index => s.note ("Stop point set at operator index " ++ toString index)
  | none => s.note "No stop point set now."

/-- Shows a table, or a message if it has no rows. -/
def showTable (s : Shell) (heading : String) (rows : List String) (otherwise : String) : Shell :=
  if rows.isEmpty then s.note otherwise
  else s.print (String.join ((heading :: rows).map (· ++ "\n")) ++ "\n")

def breakpointRow (index : Nat) (b : Breakpoint) : String :=
  toString (index + 1) ++ "\t" ++ toString b.line ++ "\t" ++
    (b.index.map toString).getD "- (inert)"

def showBreakpoints (s : Shell) : Shell :=
  s.showTable "Num\tLine\tOperator" (s.debugger.breakpoints.mapIdx breakpointRow)
    "No breakpoints exist now."

def watchRow (index : Nat) (address : Int) : String :=
  toString (index + 1) ++ "\t" ++ toString address

def showWatches (s : Shell) : Shell :=
  s.showTable "Num\tAddress" (s.debugger.watches.mapIdx watchRow) "No watchpoints exist now."

def info (s : Shell) : Option Target → Shell
  | some .stopPoint => s.showStopPoint
  | some .breakpoints => s.showBreakpoints
  | some .watches => s.showWatches
  | none => s.showStopPoint.showBreakpoints.showWatches

end Brainfuck.Shell
