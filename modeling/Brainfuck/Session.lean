import Brainfuck.Settings
import Brainfuck.Shell.Execute

/-! A debug session on one stream of bytes. Command lines and the program's input come from the same
stream: a command takes the bytes up to the next newline, and a `,` that it executes takes the byte
that follows them. -/
namespace Brainfuck

/-- Why a session is over. -/
inductive Ending
  | endOfInput
  | quit
  /-- A command line is not UTF-8. It has been taken from the stream. -/
  | notText
  deriving DecidableEq

/-- A shell, and whether its program is on its way within a command. What has not been read yet is
the input of the shell's program. -/
structure Session where
  shell : Shell
  busy : Bool := false

namespace Session

def start (program : Program) (stream : List UInt8) (settings : Settings) (schedule : Schedule) :
    Session where
  shell := { debugger := .ofProgram program stream schedule, window := settings.window }

def unread (s : Session) : List UInt8 :=
  s.shell.debugger.machine.input

/-- One turn of a session: it lets the program run on for as long as the fuel allows, or takes the
next command line and begins it. -/
def turn (fuel : Nat) (s : Session) : Session × Option Ending :=
  if s.busy then
    let (shell, halted) := s.shell.proceed fuel
    ({ shell, busy := !halted }, none)
  else if s.unread.isEmpty then (s, some .endOfInput)
  else
    let (line, rest) := Text.splitLine s.unread
    let shell := { s.shell with debugger := s.shell.debugger.withInput rest }
    match Text.Utf8.decode? line with
    | none => ({ shell }, some .notText)
    | some command =>
      match shell.begin command with
      | (after, .done .goOn) => ({ shell := after }, none)
      | (after, .done .quit) => ({ shell := after }, some .quit)
      | (after, .running) => ({ shell := after, busy := true }, none)

/-- Takes turns until the session is over, but no more of them than given. -/
def turns (fuel : Nat) : Nat → Session → Session × Option Ending
  | 0, s => (s, none)
  | rest + 1, s =>
    match s.turn fuel with
    | (after, none) => turns fuel rest after
    | (after, some ending) => (after, some ending)

/-- Runs a session to its end. A command takes a byte of the stream at least and two turns at most,
if the fuel lets each of its runs come to an outcome. -/
def run (fuel : Nat) (s : Session) : Session × Option Ending :=
  turns fuel (2 * s.unread.length + 2) s

end Session

/-- The command lines of a stream, in order: texts, and `none` for each line that is not UTF-8. -/
def commandLines (stream : List UInt8) : List (Option String) :=
  (Text.byteLines stream).map Text.Utf8.decode?

end Brainfuck
