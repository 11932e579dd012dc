import Brainfuck.Color.Hex
import Brainfuck.Palette
import Brainfuck.Tape.Window
import Brainfuck.Text.Blank
import Brainfuck.Text.Line
import Brainfuck.Text.Numeral

/-! Settings of the debug shell, read from a text of sections and assignments. What is not
understood in it is passed over. -/
namespace Brainfuck

/-- How the debug shell looks. -/
structure Settings where
  prompt : String := "(bfdb) "
  window : Window := {}
  palette : Palette := {}
  deriving DecidableEq

/-- A value given to a key of a section. -/
structure Assignment where
  sectionName : String
  key : String
  value : String
  deriving DecidableEq

namespace Settings

/-- What a line of a settings text is. -/
inductive Line
  | heading (name : String)
  | assignment (key value : String)
  /-- A blank, a comment, or nothing that is understood. -/
  | other
  deriving DecidableEq

/-- A value without the quotation marks around it. -/
def unquote (value : List Char) : List Char :=
  match value with
  | '"' :: rest => if rest.getLast? = some '"' then rest.dropLast else value
  | _ => value

/-- The name between the brackets of a heading. -/
def heading? (line : List Char) : Option (List Char) :=
  match line with
  | '[' :: rest => if rest.getLast? = some ']' then some rest.dropLast else none
  | _ => none

/-- Reads a line. Blanks do not count around it, nor around the name, the key and the value in
it. The first equals sign ends the key. -/
def readLine (raw : List Char) : Line :=
  let line := Text.trim raw
  if line.head? = some '#' then .other
  else
    match heading? line with
    | some name => .heading (String.ofList (Text.trim name))
    | none =>
      match line.dropWhile (· != '=') with
      | [] => .other
      | _ :: value =>
        let key := line.takeWhile (· != '=')
        .assignment (String.ofList (Text.trim key)) (String.ofList (unquote (Text.trim value)))

/-- The assignments of some lines, which stand under a heading. -/
def assignmentsUnder (sectionName : String) : List (List Char) → List Assignment
  | [] => []
  | line :: rest =>
    match readLine line with
    | .heading name => assignmentsUnder name rest
    | .assignment key value => ⟨sectionName, key, value⟩ :: assignmentsUnder sectionName rest
    | .other => assignmentsUnder sectionName rest

/-- The assignments of a text, in their order. Before the first heading the section has no
name. -/
def assignments (text : String) : List Assignment :=
  assignmentsUnder "" (Text.lines text.toList)

/-- The value that a key of a section was given last. -/
def lastValue? (given : List Assignment) (sectionName key : String) : Option String :=
  (given.reverse.find? fun a => a.sectionName == sectionName && a.key == key).map (·.value)

/-- The color that a value stands for, if it stands for one. -/
def readColor (value : String) : Except Color.Fault (Option Color) :=
  match Text.trim value.toList with
  | '#' :: digits => Color.ofHex? digits
  | word => .ok (Color.ofWord? (String.ofList word))

/-- The color that a key was given last, and another one if it was given none. -/
def colorOr (given : List Assignment) (key : String) (otherwise : Color) :
    Except Color.Fault Color :=
  match lastValue? given "colors" key with
  | none => .ok otherwise
  | some value => (readColor value).map (·.getD otherwise)

def ofAssignments (given : List Assignment) : Except Color.Fault Settings := do
  let usual : Settings := {}
  let shell := lastValue? given "shell"
  let palette : Palette := {
    stopEvent := ← colorOr given "stop_event" usual.palette.stopEvent
    finished := ← colorOr given "finished" usual.palette.finished
    warning := ← colorOr given "warning" usual.palette.warning
    error := ← colorOr given "error" usual.palette.error
    pointerCell := ← colorOr given "pointer_cell" usual.palette.pointerCell }
  let window : Window := {
    before := ((shell "tape_before").bind Text.Numeral.integer?).getD usual.window.before
    width := ((shell "tape_width").bind Text.Numeral.count?).getD usual.window.width }
  return { prompt := (shell "prompt").getD usual.prompt, window, palette }

def ofText (text : String) : Except Color.Fault Settings :=
  ofAssignments (assignments text)

end Settings

end Brainfuck
