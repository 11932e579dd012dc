import Brainfuck.CommandLine.Folder
import Brainfuck.CommandLine.Request
import Brainfuck.Program.Assembly
import Brainfuck.Session

/-! The program as a whole: from a request and what it finds around it to what it writes and how it
ends. -/
namespace Brainfuck.CommandLine

/-- What the program finds around it. -/
structure Surroundings where
  file : String → Except FileFault (List UInt8)
  /-- The content of the settings file, if there is one. -/
  settings : Option (List UInt8)
  /-- The front end that the environment asks for. -/
  shellMode : Option String

/-- What the program has written, and the code it ends with. -/
structure Answer where
  code : Nat
  output : List UInt8 := []
  errors : List UInt8 := []
  deriving DecidableEq

/-- What is to be done. -/
inductive Job
  /-- Nothing but to answer. -/
  | answer (a : Answer)
  /-- To run a program and to end the output with a newline. -/
  | run (d : Debugger)
  /-- To hold a debug session, with warnings before it. -/
  | debug (warnings : String) (s : Session)

def complain (code : Nat) (text : String) : Answer :=
  { code, errors := Text.Utf8.encode text }

def reportLine (text : String) : String :=
  programName ++ ": " ++ text ++ "\n"

def FileFault.answer (fault : FileFault) : Answer :=
  complain 1 (reportLine ("failed to read code file as UTF-8: " ++ fault.message))

def rejection (fault : Program.Fault) : Answer :=
  complain 1 (fault.report (some programName) ++ "\n")

def warningLines (program : Program) : String :=
  String.join (program.warnings.toList.map fun w => reportLine ("warning: " ++ w.message))

def Surroundings.text (world : Surroundings) (path : String) : Except FileFault String :=
  match world.file path with
  | .error fault => .error fault
  | .ok bytes =>
    match Text.Utf8.decode? bytes with
    | some text => .ok text
    | none => .error .notText

/-- The settings: the usual ones unless the settings file holds a text. -/
def Surroundings.readSettings (world : Surroundings) : Except Color.Fault Settings :=
  match world.settings.bind Text.Utf8.decode? with
  | some text => Settings.ofText text
  | none => .ok {}

def runJob (source : String) : Job :=
  match Program.ofSource false source with
  | .error fault => .answer (rejection fault)
  | .ok program => .run (.ofProgram program [] {})

def debugJob (world : Surroundings) (source : String) : Job :=
  match Program.ofSource true source with
  | .error fault => .answer (rejection fault)
  | .ok program =>
    match world.readSettings with
    | .ok settings => .debug (warningLines program) (.start program [] settings {})
    | .error .splitCharacter =>
      .answer (complain 101
        (warningLines program ++ reportLine "a color in the settings splits a character"))

def Request.job (world : Surroundings) : Request → Job
  | .usage topic asked => .answer (complain (if asked then 0 else 2) topic.text)
  | .twoSources =>
    .answer (complain 2
      (reportLine "cannot use positional code together with --file" ++ Topic.run.text))
  | .runCode code => runJob code
  | .runFile path =>
    match world.text path with
    | .error fault => .answer fault.answer
    | .ok source => runJob source
  | .debug path frontend =>
    match Frontend.select frontend world.shellMode with
    | .error fault => .answer (complain 1 (reportLine fault.message))
    | .ok _ =>
      match world.text path with
      | .error fault => .answer fault.answer
      | .ok source => debugJob world source

namespace Job

/-- Whether a job reads standard input at all. -/
def wantsInput : Job → Bool
  | answer _ => false
  | run d => d.program.instructions.any (·.operator == .input)
  | debug _ _ => true

def supply (bytes : List UInt8) : Job → Job
  | answer a => answer a
  | run d => run (d.feed bytes)
  | debug warnings s =>
    debug warnings { s with shell := { s.shell with debugger := s.shell.debugger.feed bytes } }

/-- What is said at the end of a session. -/
def farewell : Ending → Answer
  | .notText => complain 1 (reportLine ("shell error: " ++ Text.Utf8.refusal))
  | .endOfInput | .quit => { code := 0 }

/-- Does a job. There is no answer if a run does not come to an outcome with the fuel it is
given. -/
def finish (fuel : Nat) : Job → Option Answer
  | answer a => some a
  | run d =>
    match d.run fuel with
    | (ended, some _) => some { code := 0, output := ended.machine.output.toList ++ [Text.newline] }
    | (_, none) => none
  | debug warnings s =>
    match s.run fuel with
    | (ended, some ending) =>
      let last := farewell ending
      some { last with
        output := ended.shell.transcript.bytes none
        errors := Text.Utf8.encode warnings ++ last.errors }
    | (_, none) => none

end Job

end Brainfuck.CommandLine
