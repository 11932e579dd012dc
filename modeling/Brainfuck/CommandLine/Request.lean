import Brainfuck.CommandLine.Arguments
import Brainfuck.CommandLine.Usage
import Brainfuck.Frontend

/-! What a command line asks for. -/
namespace Brainfuck.CommandLine

/-- What a command line asks for. -/
inductive Request
  /-- A usage text, asked for or brought about by a missing word. -/
  | usage (topic : Topic) (asked : Bool)
  /-- Code that stands both in the words and in a file. -/
  | twoSources
  | runCode (code : String)
  | runFile (path : String)
  | debug (path : String) (frontend : Option Frontend)
  deriving DecidableEq

namespace Request

def path? : Request → Option String
  | runFile path | debug path _ => some path
  | _ => none

/-- Reads the words behind `run`. Everything from the first word of code on is code. -/
def ofRunWords (words : List String) : Except ArgumentFault Request := do
  let a ← Arguments.ofWords [.file, .help] true words
  if a.switches.contains .help then return .usage .run true
  match a.value? .file, a.words with
  | none, [] => return .usage .run false
  | none, code => return .runCode (String.join code)
  | some path, [] => return .runFile path
  | some _, _ => return .twoSources

def ofDebugWords (words : List String) : Except ArgumentFault Request := do
  let a ← Arguments.ofWords [.bare, .editor, .help] false words
  let bare := a.switches.contains .bare
  let editor := a.switches.contains .editor
  if bare && editor then throw (.conflict .bare .editor)
  match a.words with
  | _ :: second :: _ => throw (.unexpectedWord second)
  | words =>
    if a.switches.contains .help then return .usage .debug true
    match words with
    | [] => return .usage .debug false
    | path :: _ =>
      return .debug path (if bare then some .bare else if editor then some .editor else none)

def ofCommand (name : String) (words : List String) : Except ArgumentFault Request :=
  match name with
  | "run" => ofRunWords words
  | "debug" => ofDebugWords words
  | _ => .error (.unknownCommand name)

/-- Reads a command line. Options before the command's name are for the program as a whole, but
what follows the name has to be understood nevertheless. -/
def ofArguments (words : List String) : Except ArgumentFault Request := do
  let a ← Arguments.ofWords [.help] true words
  let asked := a.switches.contains .help
  match a.words with
  | [] => return .usage .whole asked
  | name :: rest =>
    if a.separated then throw (.unexpectedWord name)
    let request ← ofCommand name rest
    return if asked then .usage .whole true else request

end Request

end Brainfuck.CommandLine
