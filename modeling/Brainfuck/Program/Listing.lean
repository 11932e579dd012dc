import Brainfuck.Program

/-! The listing of a program: its instructions, indented by loop and labelled, and the table of
its lines. -/
namespace Brainfuck

/-- A listing as far as it has been written. -/
structure Listing where
  lines : Array String := #[]
  /-- How many labels have been given out. -/
  labels : Nat := 0
  /-- The labels of the loops that are open, the innermost first. -/
  openLabels : List Nat := []

namespace Listing

def indent (depth : Nat) : String :=
  Text.Column.blanks (2 * depth)

def depth (l : Listing) : Nat :=
  l.openLabels.length

def addLine (l : Listing) (depth : Nat) (text : String) : Listing :=
  { l with lines := l.lines.push (indent depth ++ text) }

/-- Adds the line of an instruction, one step further in than the labels of its depth. -/
def addRow (l : Listing) (depth index : Nat) (i : Instruction) : Listing :=
  l.addLine depth ("  " ++ Text.Column.left 8 (toString index) ++ " " ++ i.text)

/-- Adds an instruction. A loop's `[` stands after the loop's label and its `]` before the end of
the label. -/
def addInstruction (l : Listing) (index : Nat) (i : Instruction) : Listing :=
  match i.operator with
  | .loopStart =>
    let label := l.labels + 1
    let labelled := l.addLine l.depth ("L" ++ toString label ++ ":")
    { labelled with labels := label, openLabels := label :: l.openLabels }.addRow l.depth index i
  | .loopEnd =>
    let listed := l.addRow (l.depth - 1) index i
    match l.openLabels with
    | [] => listed
    | label :: outer =>
      { listed with openLabels := outer }.addLine outer.length ("L" ++ toString label ++ " End")
  | _ => l.addRow l.depth index i

def addInstructions (l : Listing) (index : Nat) : List Instruction → Listing
  | [] => l
  | i :: rest => (l.addInstruction index i).addInstructions (index + 1) rest

def lineTable (begins : List (Option Nat)) : List String :=
  "Line\tBegin" :: begins.mapIdx fun index begin =>
    "  " ++ toString (index + 1) ++ "\t" ++ (begin.map toString).getD "-"

end Listing

namespace Program

def listingLines (p : Program) : List String :=
  let body := ({} : Listing).addInstructions 0 p.instructions.toList
  ["Total instructions: " ++ toString p.size, ""] ++ body.lines.toList ++
    ["", "Lines: " ++ toString p.lineCount] ++
    (p.lineBegins.map fun begins => Listing.lineTable begins.toList).getD []

def listing (p : Program) : String :=
  String.join (p.listingLines.map (· ++ "\n"))

end Program

end Brainfuck
