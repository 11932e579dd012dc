import Brainfuck.Command.Verb
import Brainfuck.Text.Blank
import Brainfuck.Text.Numeral

/-! Commands of the debug shell, read from the words of a line. -/
namespace Brainfuck

/-- The debugger settings that can be shown and cleared apart from each other. -/
inductive Target
  | stopPoint
  | breakpoints
  | watches
  deriving DecidableEq

/-- The letter that names a target in a command. -/
def Target.ofWord? : String → Option Target
  | "s" => some .stopPoint
  | "b" => some .breakpoints
  | "w" => some .watches
  | _ => none

/-- What a command line asks for. -/
inductive Command
  | run
  | resume
  | step (times : Nat)
  /-- Steps with a report on each; without a number until something happens. -/
  | detailed (times : Option Nat)
  | untilExit
  /-- Sets the stop point, or shows it. -/
  | stop (index : Option Nat)
  | tape
  | pointer
  | breakAt (line : Nat)
  | deleteStop
  | deleteBreakpoint (ordinal : Nat)
  | deleteWatch (ordinal : Nat)
  | watch (address : Int)
  | peek (offset : Int) (length : Nat)
  /-- Shows a target, or all of them. -/
  | info (target : Option Target)
  | next
  | reset
  | code
  /-- Clears a target, or all of them. -/
  | clear (target : Option Target)
  | help
  | quit
  deriving DecidableEq

namespace Command

/-- Why a line is no command. -/
inductive Fault
  | unknown (word : String)
  /-- The words behind the verb do not fit it. -/
  | usage (verb : Verb)
  deriving DecidableEq

def Fault.message : Fault → String
  | unknown word => "Unknown command '" ++ word ++ "'. Type h for help"
  | usage verb => "Usage: " ++ verb.usage

/-- The most cells that one command shows. -/
def peekLimit : Nat := 4096

def alone (command : Command) : List String → Option Command
  | [] => some command
  | _ => none

def optional {α : Type} (read : String → Option α) (command : Option α → Command) :
    List String → Option Command
  | [] => some (command none)
  | [word] => (read word).map fun value => command (some value)
  | _ => none

def required {α : Type} (read : String → Option α) (command : α → Command) :
    List String → Option Command
  | [word] => (read word).map command
  | _ => none

/-- What is to be deleted: the stop point, whatever its number, or a numbered point. -/
def deletion : List String → Option Command
  | ["s"] => some deleteStop
  | ["s", _] => some deleteStop
  | ["b", ordinal] => (Text.Numeral.count? ordinal).map deleteBreakpoint
  | ["w", ordinal] => (Text.Numeral.count? ordinal).map deleteWatch
  | _ => none

/-- Which cells are to be shown: the one under the pointer unless told otherwise. -/
def peeking : List String → Option Command
  | [] => some (peek 0 1)
  | [offset] => (Text.Numeral.integer? offset).map (peek · 1)
  | [offset, length] =>
    match Text.Numeral.integer? offset, Text.Numeral.count? length with
    | some offset, some length => if length ≤ peekLimit then some (peek offset length) else none
    | _, _ => none
  | _ => none

open Text.Numeral in
/-- The command that a verb and the words behind it make, if they fit. -/
def ofWords? : Verb → List String → Option Command
  | .run => alone run
  | .resume => alone resume
  | .step => optional count? fun times => step (times.getD 1)
  | .detailed => optional count? detailed
  | .untilExit => alone untilExit
  | .stop => optional count? stop
  | .breakAt => required count? breakAt
  | .watch => required integer? watch
  | .delete => deletion
  | .info => optional Target.ofWord? info
  | .clear => optional Target.ofWord? clear
  | .pointer => alone pointer
  | .peek => peeking
  | .tape => alone tape
  | .reset => alone reset
  | .next => alone next
  | .code => alone code
  | .help => fun _ => some help
  | .quit => fun _ => some quit

/-- Reads a command line. A blank one asks for nothing. -/
def parse (line : String) : Except Fault (Option Command) :=
  match Text.words line with
  | [] => .ok none
  | word :: rest =>
    match Verb.ofWord? word with
    | none => .error (.unknown word)
    | some verb =>
      match ofWords? verb rest with
      | none => .error (.usage verb)
      | some command => .ok (some command)

end Command

end Brainfuck
