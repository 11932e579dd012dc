/-! The usage texts of the command line. -/
namespace Brainfuck.CommandLine

def programName : String :=
  "bfdb"

/-- What a usage text is about. -/
inductive Topic
  | whole
  | run
  | debug
  deriving DecidableEq

def Topic.lines : Topic → List String
  | whole => [
    "Usage:",
    "  " ++ programName ++
      " run   \"<code>\"                    # Run Brainfuck code (args are concatenated)",
    "  " ++ programName ++
      " run   --file <PATH>               # Run Brainfuck code loaded from file",
    "  " ++ programName ++ " debug [--bare|--editor] <PATH>    # Open the debug shell on a source file",
    "",
    "Run \"" ++ programName ++ " <subcommand> --help\" for more info.",
    "Set BFDB_LOG (or RUST_LOG) to e.g. \"debug\" for diagnostic logging on stderr.",
    ""]
  | run => [
    "Usage:",
    "  " ++ programName ++ " run \"<code>\"",
    "  " ++ programName ++ " run --file <PATH>",
    "",
    "Options:",
    "  --file, -f <PATH>  Read Brainfuck code from PATH instead of positional \"<code>\"",
    "  --help, -h         Show this help",
    "",
    "Notes:",
    "- Characters outside of Brainfuck's ><+-.,[] are comments.",
    "- Input (`,`) reads a single byte from stdin; on EOF the current cell is set to 0.",
    "- The tape is unbounded in both directions and cells wrap modulo 256.",
    "",
    "Examples:",
    "- Load Brainfuck code from a file:",
    "    " ++ programName ++ " run --file ./program.bf",
    "- Feed program input from a file:",
    "    " ++ programName ++ " run \",[.,]\" < input.txt",
    ""]
  | debug => [
    "Usage:",
    "  " ++ programName ++ " debug [--bare|--editor] <PATH>",
    "",
    "Options:",
    "  --bare        Force non-interactive bare mode",
    "  --editor      Force interactive editor mode (errors if stdin is not a TTY)",
    "  --help, -h    Show this help",
    "",
    "Description:",
    "  Loads PATH with line information and opens a debug shell. Type \"h\" in the",
    "  shell for the list of commands.",
    "",
    "Notes:",
    "    - Breakpoints are set by source line; lines without instructions map to",
    "      the next line that has one.",
    "    - Ctrl+C suspends a running program; Ctrl+D or \"q\" leaves the shell.",
    "    - In bare mode, a program's `,` reads from stdin after the current command line.",
    "    - Mode selection:",
    "        * Flags: --bare|--editor override environment and auto-detection.",
    "        * Env: BFDB_SHELL_MODE=bare|editor overrides auto-detection.",
    "        * Auto-detect: if stdin is a TTY, starts in interactive editor mode; otherwise, bare mode.",
    "        * Prompts/banners suppressed if stderr is not a TTY.",
    "    - Settings are read from $XDG_CONFIG_HOME/bfdb.toml ([shell] and [colors]).",
    ""]

def Topic.text (t : Topic) : String :=
  String.join (t.lines.map (· ++ "\n"))

end Brainfuck.CommandLine
