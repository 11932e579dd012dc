import Brainfuck.CommandLine.Job

/-! The program: it reads what a job needs, and writes out what comes of it slice by slice. -/
namespace Brainfuck.CommandLine

/-- How many turns a program takes between two looks at its output. -/
def slice : Nat := 65536

def emit (stream : IO.FS.Stream) (bytes : List UInt8) : IO Unit := do
  unless bytes.isEmpty do
    stream.write bytes.toByteArray
    stream.flush

/-- Runs a program to its end and writes what it writes. -/
partial def runProgram (output : IO.FS.Stream) (d : Debugger) : IO Unit := do
  let (after, outcome) := d.advance slice
  let (drained, written) := after.takeOutput
  emit output written.toList
  if outcome.isNone then runProgram output drained

/-- Holds a session and writes what it shows. -/
partial def holdSession (output : IO.FS.Stream) (s : Session) : IO Ending := do
  let (after, ending) := s.turn slice
  let (shell, shown) := after.shell.takeTranscript
  emit output (shown.bytes none)
  match ending with
  | some ending => return ending
  | none => holdSession output { after with shell }

/-- Does a job and gives the code to end with. -/
def Job.perform (job : Job) : IO UInt32 := do
  let output ← IO.getStdout
  let errors ← IO.getStderr
  match job with
  | .answer a =>
    emit output a.output
    emit errors a.errors
    return UInt32.ofNat a.code
  | .run d =>
    runProgram output d.reset
    emit output [Text.newline]
    return 0
  | .debug warnings s =>
    emit errors (Text.Utf8.encode warnings)
    let last := farewell (← holdSession output s)
    emit errors last.errors
    return UInt32.ofNat last.code

/-- The number of a system error. Some calls report it negated. -/
def errorNumber (code : UInt32) : UInt32 :=
  min code (0 - code)

/-- Why a file cannot be read, as the system tells it. -/
def FileFault.ofError (fault : IO.Error) : FileFault :=
  match fault with
  | .noFileOrDirectory .. => .missing
  | .inappropriateType _ code _ =>
    if errorNumber code = 20 then .notFolder
    else if errorNumber code = 21 then .isFolder
    else .unreadable (toString fault)
  | .invalidArgument _ code _ =>
    if errorNumber code = 36 then .nameTooLong else .unreadable (toString fault)
  | _ => .unreadable (toString fault)

/-- The bytes of a file, or why there are none. -/
def readFile (path : String) : IO (Except FileFault (List UInt8)) := do
  try
    return .ok (← IO.FS.readBinFile path).toList
  catch fault =>
    return .error (.ofError fault)

def readFile? (path : Option String) : IO (Option (List UInt8)) := do
  match path with
  | some path => return (← readFile path).toOption
  | none => return none

/-- Where the settings file is, as far as the environment tells. -/
def settingsPath? : IO (Option String) := do
  match ← IO.getEnv "XDG_CONFIG_HOME" with
  | some folder => return some (folder ++ "/bfdb.toml")
  | none => return (← IO.getEnv "HOME").map (· ++ "/.config/bfdb.toml")

/-- Everything that can be read from a stream, behind what has been read of it. -/
partial def readAll (input : IO.FS.Stream) (front : ByteArray) : IO ByteArray := do
  let chunk ← input.read 65536
  if chunk.isEmpty then return front
  readAll input (front ++ chunk)

/-- What the program finds around it, as far as a request needs it. -/
def Request.surroundings (request : Request) : IO Surroundings := do
  let content ← match request.path? with
    | some path => readFile path
    | none => pure (.error .missing)
  let settings ← readFile? (← settingsPath?)
  return { file := fun _ => content, settings, shellMode := ← IO.getEnv "BFDB_SHELL_MODE" }

def start (words : List String) : IO UInt32 := do
  match Request.ofArguments words with
  | .error fault =>
    emit (← IO.getStderr) (Text.Utf8.encode (reportLine fault.message))
    return 2
  | .ok request =>
    let job := request.job (← request.surroundings)
    if job.wantsInput then
      (job.supply (← readAll (← IO.getStdin) .empty).toList).perform
    else job.perform

end Brainfuck.CommandLine

def main (words : List String) : IO UInt32 :=
  Brainfuck.CommandLine.start words
