import Brainfuck.Debugger.Basic
import Brainfuck.Tape.Window
import Brainfuck.Transcript

/-! The debug shell: a debugger and what has been shown of it. -/
namespace Brainfuck

/-- A debugger, which part of the tape is shown of it, and what has been shown so far. -/
structure Shell where
  debugger : Debugger
  window : Window := {}
  transcript : Transcript := #[]

namespace Shell

def put (s : Shell) (span : Span) : Shell :=
  { s with transcript := s.transcript.push span }

def print (s : Shell) (text : String) : Shell :=
  s.put (.plain text)

/-- Shows a message, set apart by an empty line. -/
def note (s : Shell) (message : String) : Shell :=
  s.print (message ++ "\n\n")

def say (s : Shell) (tone : Tone) (message : String) : Shell :=
  (s.put (.toned tone message)).print "\n\n"

/-- Shows what the program has written since this was done last. -/
def drain (s : Shell) : Shell :=
  let (debugger, written) := s.debugger.takeOutput
  let drained := { s with debugger }
  if written.isEmpty then drained else drained.put (.output written)

def takeTranscript (s : Shell) : Shell × Transcript :=
  ({ s with transcript := #[] }, s.transcript)

/-- Puts a pause into words. A breakpoint is named by the first line that has one there. -/
def describe (breakpoints : List Breakpoint) : Pause → String
  | .breakpoint index =>
    match breakpoints.find? (·.index == some index) with
    | some b => "Hit breakpoint at line " ++ toString b.line
    | none => "Hit breakpoint"
  | .watch address => "Watch hit at address " ++ toString address
  | .loopExit => "Until finished"
  | .stopPoint index => "Reached stop point at operator index " ++ toString index
  | .stepped => "Stepped"
  | .interrupted => "Interrupted"

/-- Reports an outcome. The program's output may lack a newline at its end, so the report is set
apart from it. -/
def report (s : Shell) (outcome : Outcome) : Shell :=
  let apart := s.print "\n\n"
  match outcome with
  | .finished => apart.say .finished "Running finished"
  | .paused reason => apart.say .stopEvent (describe apart.debugger.breakpoints reason)

/-- Reports a refusal. To ask for a point that is there already is no more than odd. -/
def refuse (s : Shell) (fault : Debugger.Fault) : Shell :=
  match fault with
  | .alreadyBreakpoint _ | .alreadyWatched _ => s.say .warning ("Warning: " ++ fault.message)
  | _ => s.say .error ("Error: " ++ fault.message)

end Shell

end Brainfuck
