/-! The words that a command line of the debug shell can begin with. -/
namespace Brainfuck.Command

/-- What a command is about. -/
inductive Verb
  | run
  | resume
  | step
  | detailed
  | untilExit
  | stop
  | breakAt
  | watch
  | delete
  | info
  | clear
  | pointer
  | peek
  | tape
  | reset
  | next
  | code
  | help
  | quit
  deriving DecidableEq

namespace Verb

def all : List Verb :=
  [run, resume, step, detailed, untilExit, stop, breakAt, watch, delete, info, clear, pointer, peek,
    tape, reset, next, code, help, quit]

/-- The words for a verb: the whole one, and a short one for most. -/
def names : Verb → List String
  | run => ["run", "r"]
  | resume => ["continue", "c"]
  | step => ["step", "s"]
  | detailed => ["detailed", "d"]
  | untilExit => ["until", "u"]
  | stop => ["stop"]
  | breakAt => ["break", "b"]
  | watch => ["watch", "w"]
  | delete => ["delete", "del"]
  | info => ["info", "i"]
  | clear => ["clear"]
  | pointer => ["ptr"]
  | peek => ["peek", "p"]
  | tape => ["tape", "t"]
  | reset => ["reset"]
  | next => ["next", "n"]
  | code => ["code"]
  | help => ["help", "h"]
  | quit => ["quit", "q"]

/-- The form of a command, shown where its words do not fit it. -/
def usage : Verb → String
  | run => "run"
  | resume => "continue"
  | step => "s[tep] [times]"
  | detailed => "d[etailed] [times]"
  | untilExit => "until"
  | stop => "stop [index]"
  | breakAt => "b[reak] <line>"
  | watch => "w[atch] <address>"
  | delete => "del[ete] s|b|w <num>"
  | info => "i[nfo] [s|b|w]"
  | clear => "clear [s|b|w]"
  | pointer => "ptr"
  | peek => "p[eek] [offset [length]]"
  | tape => "tape"
  | reset => "reset"
  | next => "next"
  | code => "code"
  | help => "help"
  | quit => "quit"

/-- The verb that a word stands for. -/
def ofWord? (word : String) : Option Verb :=
  all.find? (·.names.contains word)

/-- No two verbs share a word. -/
theorem names_nodup : (all.flatMap names).Nodup := by
  decide

end Verb

end Brainfuck.Command
