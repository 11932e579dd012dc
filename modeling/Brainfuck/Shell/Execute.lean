import Brainfuck.Command.Help
import Brainfuck.Debugger.Run
import Brainfuck.Program.Listing
import Brainfuck.Shell.Display
import Brainfuck.Shell.Points

/-! Command lines: each becomes calls of the debugger, and what comes of them is put into words. -/
namespace Brainfuck

/-- Whether more commands are wanted. -/
inductive Flow
  | goOn
  | quit
  deriving DecidableEq

/-- What a command has come to when it has been begun. -/
inductive Reply
  | done (flow : Flow)
  /-- The program is to run until it has an outcome. -/
  | running
  deriving DecidableEq

namespace Shell

/-- Executes one instruction and shows what the program has written. -/
def stepOnce (s : Shell) : Shell × Outcome :=
  let (debugger, outcome) := s.debugger.step
  ({ s with debugger }.drain, outcome)

/-- Executes some instructions. Only what is more than a plain step is reported, and it ends the
command. -/
def step (s : Shell) : Nat → Shell
  | 0 => s.print "\n"
  | times + 1 =>
    match s.stepOnce with
    | (stepped, .paused .stepped) => stepped.step times
    | (stepped, outcome) => stepped.report outcome

/-- Executes some instructions and shows before each what it is, and after it the tape. The
interrupt is looked for before anything is shown. -/
def detailed (s : Shell) : Nat → Shell
  | 0 => s
  | times + 1 =>
    let (debugger, raised) := s.debugger.takeInterrupt
    let looked := { s with debugger }
    if raised then looked.report (.paused .interrupted)
    else
      let named := looked.showNext
      let shown := named.print ("Memory pointer at: " ++ toString named.debugger.pointer ++ "\n")
      match shown.stepOnce with
      | (stepped, .paused .stepped) => stepped.showWindow.detailed times
      | (stepped, outcome) => stepped.showWindow.report outcome

/-- How often a detailed step is made when no number is given: as often as any number can ask for. -/
def endless : Nat :=
  Text.Numeral.countBound - 1

/-- Begins to run the program, if it is on its way at all. -/
def whenRunning (s : Shell) (begin : Shell → Shell) : Shell × Reply :=
  if s.debugger.running then (begin s, .running)
  else (s.say .warning "Code is not running. Use 'run' command to start.", .done .goOn)

def awaitExit (s : Shell) : Shell :=
  let (debugger, fresh) := s.debugger.awaitExit
  { s with debugger }.note (if fresh then "Entering until mode" else "Already in until mode")

/-- Does what a command asks for. A command that runs the program is begun only. -/
def dispatch (s : Shell) (command : Command) : Shell × Reply :=
  let done (after : Shell) : Shell × Reply := (after, .done .goOn)
  match command with
  | .run => ({ s with debugger := s.debugger.reset }, .running)
  | .resume => s.whenRunning id
  | .untilExit => s.whenRunning awaitExit
  | .step times => done (s.step times)
  | .detailed times => done (s.detailed (times.getD endless))
  | .stop none => done s.showStopPoint
  | .stop (some index) => done (s.stopAt index)
  | .tape =>
    done (s.print ("Current memory pointer: " ++ toString s.debugger.pointer ++ "\n")).showWindow
  | .pointer => done (s.note ("Current memory pointer: " ++ toString s.debugger.pointer))
  | .breakAt line => done (s.breakAt line)
  | .deleteStop => done s.deleteStopPoint
  | .deleteBreakpoint ordinal => done (s.deleteBreakpoint ordinal)
  | .deleteWatch ordinal => done (s.deleteWatch ordinal)
  | .watch address => done (s.watch address)
  | .peek offset length => done (s.showCells offset length)
  | .info target => done (s.info target)
  | .next => done s.showNext
  | .reset => done ({ s with debugger := s.debugger.reset }.note "Memory tape reset.")
  | .code => done (s.print (s.debugger.program.listing ++ "\n"))
  | .clear target => done (s.clear target)
  | .help => done (s.print (Command.helpText ++ "\n"))
  | .quit => (s, .done .quit)

/-- Begins a command line. An interrupt from before it does not count. -/
def begin (s : Shell) (line : String) : Shell × Reply :=
  let calm := { s with debugger := s.debugger.takeInterrupt.1 }
  match Command.parse line with
  | .ok none => (calm, .done .goOn)
  | .ok (some command) => calm.dispatch command
  | .error fault => (calm.say .error fault.message, .done .goOn)

/-- Lets the program run on and shows what it writes. An outcome is reported; there is none if the
fuel is used up before. -/
def proceed (fuel : Nat) (s : Shell) : Shell × Bool :=
  let (debugger, outcome) := s.debugger.advance fuel
  let drained := { s with debugger }.drain
  match outcome with
  | some outcome => (drained.report outcome, true)
  | none => (drained, false)

/-- Executes a command line. There is no answer if the program does not come to an outcome with the
fuel it is given. -/
def execute (fuel : Nat) (line : String) (s : Shell) : Shell × Option Flow :=
  match s.begin line with
  | (after, .done flow) => (after, some flow)
  | (after, .running) =>
    match after.proceed fuel with
    | (halted, true) => (halted, some .goOn)
    | (busy, false) => (busy, none)

end Shell

end Brainfuck
