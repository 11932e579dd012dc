import Brainfuck.Command
import Brainfuck.Debugger.Points
import Brainfuck.Shell.Basic

/-! Setting and removing points through the shell, with a message about each. -/
namespace Brainfuck.Shell

/-- Puts a request to the debugger and goes on with the session that it leaves behind. Where it is
refused the reason is reported. -/
def settle {α : Type} (s : Shell) (request : Debugger.Request α) (goOn : Shell → α → Shell) :
    Shell :=
  let (debugger, result) := request s.debugger
  let asked := { s with debugger }
  match result with
  | .ok value => goOn asked value
  | .error fault => asked.refuse fault

def stopAt (s : Shell) (index : Nat) : Shell :=
  s.settle (.setStopPoint index) fun s _ =>
    s.note ("Stop point set at operator index " ++ toString index)

def breakAt (s : Shell) (line : Nat) : Shell :=
  s.settle (.addBreakpoint line) fun s added =>
    if added.inert then
      s.say .warning ("Warning: breakpoint at line " ++ toString line ++ " will not work")
    else s.note ("Breakpoint added at line " ++ toString line)

def watch (s : Shell) (address : Int) : Shell :=
  s.settle (.addWatch address) fun s _ => s.note ("Watching memory " ++ toString address)

def deleteBreakpoint (s : Shell) (ordinal : Nat) : Shell :=
  s.settle (.removeBreakpoint ordinal) fun s _ =>
    s.note ("Breakpoint " ++ toString ordinal ++ " removed")

def deleteWatch (s : Shell) (ordinal : Nat) : Shell :=
  s.settle (.removeWatch ordinal) fun s address =>
    s.note ("Watchpoint " ++ toString ordinal ++ " at address " ++ toString address ++ " removed")

def deleteStopPoint (s : Shell) : Shell :=
  let (debugger, removed) := s.debugger.clearStopPoint
  { s with debugger }.note (if removed then "Stop point removed" else "No stop point set now.")

/-- Removes all there is of a target, or of every target. -/
def clear (s : Shell) : Option Target → Shell
  | some .stopPoint =>
    { s with debugger := s.debugger.clearStopPoint.1 }.note "Stop point cleared"
  | some .breakpoints =>
    { s with debugger := s.debugger.clearBreakpoints }.note "All breakpoints cleared"
  | some .watches =>
    { s with debugger := s.debugger.clearWatches }.note "All watchpoints cleared"
  | none =>
    { s with debugger := s.debugger.clearStopPoint.1.clearBreakpoints.clearWatches }.note
      "Stop point, breakpoints and watchpoints cleared"

end Brainfuck.Shell
