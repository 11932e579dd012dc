import Brainfuck.Text.Blank

/-! Which front end a debug session gets. The line editor needs a terminal, and standard input is
none. -/
namespace Brainfuck

/-- A way to read command lines. -/
inductive Frontend
  /-- Plain lines. -/
  | bare
  /-- Lines with history and completion. -/
  | editor
  deriving DecidableEq

namespace Frontend

/-- Why there is no front end. -/
inductive Fault
  /-- An option asks for the editor. -/
  | editorByOption
  /-- The environment asks for the editor. -/
  | editorByEnvironment
  /-- The environment asks for something unknown. -/
  | unknown (value : String)
  deriving DecidableEq

def Fault.message : Fault → String
  | editorByOption =>
    "cannot start editor: stdin is not a TTY (use --bare or BFDB_SHELL_MODE=bare)"
  | editorByEnvironment => "cannot start editor: stdin is not a TTY (use BFDB_SHELL_MODE=bare)"
  | unknown value =>
    "invalid BFDB_SHELL_MODE value: " ++ value ++ ", must be 'bare' or 'editor'"

/-- The front end that a value of the environment names, blanks around it and upper case
apart. -/
def ofValue? (value : String) : Option Frontend :=
  match (String.ofList (Text.trim value.toList)).map Char.toLower with
  | "bare" => some .bare
  | "editor" => some .editor
  | _ => none

/-- Chooses a front end: an option counts before the environment, and without either lines are
read plainly. -/
def select (asked : Option Frontend) (environment : Option String) : Except Fault Frontend :=
  match asked, environment with
  | some .bare, _ => .ok .bare
  | some .editor, _ => .error .editorByOption
  | none, none => .ok .bare
  | none, some value =>
    match ofValue? value with
    | some .bare => .ok .bare
    | some .editor => .error .editorByEnvironment
    | none => .error (.unknown value)

end Frontend

end Brainfuck
