/-! The words of a command line taken apart: switches, values of options, and other words. An option
has a long name, or a letter, or both; letters can be put together behind one dash. -/
namespace Brainfuck.CommandLine

/-- The options that commands have. -/
inductive Switch
  | help
  | file
  | bare
  | editor
  deriving DecidableEq

namespace Switch

/-- The name behind two dashes. -/
def name : Switch → String
  | help => "help"
  | file => "file"
  | bare => "bare"
  | editor => "editor"

/-- The letter behind one dash. -/
def letter? : Switch → Option Char
  | help => some 'h'
  | file => some 'f'
  | _ => none

def takesValue : Switch → Bool
  | file => true
  | _ => false

end Switch

/-- Why a command line is not understood. -/
inductive ArgumentFault
  | unknownOption (word : String)
  | unknownCommand (word : String)
  | missingValue (option : Switch)
  | unexpectedValue (option : Switch)
  | unexpectedWord (word : String)
  | repeated
  | conflict (first second : Switch)
  deriving DecidableEq

def ArgumentFault.message : ArgumentFault → String
  | unknownOption word => "unknown option '" ++ word ++ "'"
  | unknownCommand word => "unknown command '" ++ word ++ "'"
  | missingValue option => "option --" ++ option.name ++ " needs a value"
  | unexpectedValue option => "option --" ++ option.name ++ " takes no value"
  | unexpectedWord word => "unexpected argument '" ++ word ++ "'"
  | repeated => "an option is given twice"
  | conflict first second =>
    "options --" ++ first.name ++ " and --" ++ second.name ++ " exclude each other"

/-- What a word looks like. -/
inductive Shape
  /-- Two dashes: only plain words follow. -/
  | separator
  /-- A name behind two dashes, perhaps with a value behind an equals sign. -/
  | long (name : String) (value : Option String)
  /-- Letters behind one dash. -/
  | short (letters : List Char)
  /-- Any other word. One dash alone is such a word, and so is the empty word. -/
  | plain
  deriving DecidableEq

def shape (word : String) : Shape :=
  match word.toList with
  | ['-', '-'] => .separator
  | '-' :: '-' :: rest =>
    let name := String.ofList (rest.takeWhile (· != '='))
    match rest.dropWhile (· != '=') with
    | [] => .long name none
    | _ :: value => .long name (some (String.ofList value))
  | '-' :: letter :: letters => .short (letter :: letters)
  | _ => .plain

/-- The parts of a command line. -/
structure Arguments where
  /-- The switches, in the order given. -/
  switches : List Switch := []
  /-- The options with their values, in the order given. -/
  values : List (Switch × String) := []
  words : List String := []
  /-- Whether two dashes have cut off the words behind them. -/
  separated : Bool := false
  deriving DecidableEq

namespace Arguments

/-- Puts a switch in front. -/
def addSwitch (option : Switch) (a : Arguments) : Arguments :=
  { a with switches := option :: a.switches }

def addValue (option : Switch) (value : String) (a : Arguments) : Arguments :=
  { a with values := (option, value) :: a.values }

def addWord (word : String) (a : Arguments) : Arguments :=
  { a with words := word :: a.words }

/-- Whether some option is given twice. -/
def repeats (a : Arguments) : Bool :=
  !decide ((a.switches ++ a.values.map Prod.fst).Nodup)

def value? (a : Arguments) (option : Switch) : Option String :=
  a.values.lookup option

/-- What letters behind one dash stand for: switches, and at the end perhaps an option that takes
what follows as its value. An equals sign in front of the value does not belong to it, and an
option at the very end has its value in the next word. -/
def letters (known : List Switch) :
    List Char → Except ArgumentFault (List Switch × Option (Switch × Option String))
  | [] => .ok ([], none)
  | letter :: rest =>
    match known.find? (·.letter? = some letter) with
    | none => .error (.unknownOption ("-" ++ letter.toString))
    | some option =>
      if option.takesValue then
        match rest with
        | [] => .ok ([], some (option, none))
        | '=' :: value => .ok ([], some (option, some (String.ofList value)))
        | value => .ok ([], some (option, some (String.ofList value)))
      else
        match letters known rest with
        | .error fault => .error fault
        | .ok (switches, last) => .ok (option :: switches, last)

/-- What a word stands for: switches, and at the end perhaps an option with its value, or one whose
value is the next word. -/
def options (known : List Switch) (word : String) :
    Except ArgumentFault (List Switch × Option (Switch × Option String)) :=
  match shape word with
  | .long name value =>
    match known.find? (·.name = name) with
    | none => .error (.unknownOption word)
    | some option =>
      match option.takesValue, value with
      | true, value => .ok ([], some (option, value))
      | false, none => .ok ([option], none)
      | false, some _ => .error (.unexpectedValue option)
  | .short chars => letters known chars
  | .separator | .plain => .ok ([], none)

/-- Takes words apart. With `wordsLast`, everything from the first plain word on is a word, whatever
it looks like. -/
def read (known : List Switch) (wordsLast : Bool) : List String → Except ArgumentFault Arguments
  | [] => .ok {}
  | word :: rest =>
    match shape word with
    | .separator => .ok { words := rest, separated := true }
    | .plain =>
      if wordsLast then .ok { words := word :: rest }
      else (read known wordsLast rest).map (addWord word)
    | _ =>
      match options known word with
      | .error fault => .error fault
      | .ok (switches, last) =>
        let withSwitches (a : Arguments) : Arguments := switches.foldr addSwitch a
        match last with
        | none => (read known wordsLast rest).map withSwitches
        | some (option, some value) =>
          (read known wordsLast rest).map fun a => withSwitches (a.addValue option value)
        | some (option, none) =>
          match rest with
          | [] => .error (.missingValue option)
          | value :: rest =>
            if shape value = .plain then
              (read known wordsLast rest).map fun a => withSwitches (a.addValue option value)
            else .error (.missingValue option)

/-- Takes words apart and refuses an option that is given twice. -/
def ofWords (known : List Switch) (wordsLast : Bool) (words : List String) :
    Except ArgumentFault Arguments :=
  match read known wordsLast words with
  | .error fault => .error fault
  | .ok a => if a.repeats then .error .repeated else .ok a

end Arguments

end Brainfuck.CommandLine
