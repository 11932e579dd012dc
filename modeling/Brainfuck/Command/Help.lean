import Brainfuck.Text.Column

/-! The help text of the debug shell. -/
namespace Brainfuck.Command

/-- What the shell can be asked for: the forms of the commands and what they do, under headings. -/
def helpSections : List (String × List (String × String)) :=
  [("Execute commands:",
    [("r[un]", "Run code from the beginning"),
      ("c[ontinue]", "Continue running code"),
      ("s[tep] [times]", "Step by times, default 1"),
      ("d[etailed] [times]", "Detailed step for times, default until finished"),
      ("u[ntil]", "Continue until the current loop exits"),
      ("stop [index]", "Stop once before operator index, or show the stop point")]),
  ("Debug commands:",
    [("b[reak] <line>", "Set breakpoint at line"),
      ("w[atch] <address>", "Watch memory at address"),
      ("del[ete] s|b|w <num>", "Delete the stop point, a breakpoint or a watchpoint"),
      ("i[nfo] [s|b|w]", "Show stop point, breakpoints or watchpoints, default all"),
      ("clear [s|b|w]", "Clear stop point, breakpoints or watchpoints, default all")]),
  ("Memory commands:",
    [("ptr", "Show current memory pointer"),
      ("p[eek] [offset [length]]", "Peek memory bytes relative to the pointer"),
      ("t[ape]", "Show tape around the pointer"),
      ("reset", "Reset memory tape")]),
  ("Other commands:",
    [("n[ext]", "Show next operator to be executed"),
      ("code", "Show analysed code"),
      ("h[elp]", "Show this help message"),
      ("q[uit]", "Quit debug shell")])]

/-- A heading and a line for each command under it. -/
def helpSection (heading : String) (entries : List (String × String)) : String :=
  heading ++ "\n" ++ String.join (entries.map fun (form, effect) =>
    Text.Column.left 25 form ++ ": " ++ effect ++ "\n")

/-- The sections, with an empty line between two of them. -/
def helpText : String :=
  "\n".intercalate (helpSections.map fun (heading, entries) => helpSection heading entries)

end Brainfuck.Command
