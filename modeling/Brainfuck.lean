import Brainfuck.Main
import Brainfuck.Tape.Lemmas
import Brainfuck.Proofs.Machine.Steps
import Brainfuck.Proofs.Debugger.Deed
import Brainfuck.Proofs.Debugger.Moment
import Brainfuck.Proofs.Debugger.Transparency
import Brainfuck.Proofs.Debugger.Watching
import Brainfuck.Proofs.Debugger.Breaking
import Brainfuck.Proofs.Debugger.Reports
import Brainfuck.Proofs.Plain.Basic
import Brainfuck.Proofs.Plain.Spelling
import Brainfuck.Proofs.Plain.Agreement
import Brainfuck.Proofs.Tape.Refinement
import Brainfuck.Proofs.Debugger.Progress
import Brainfuck.Proofs.Program.Brackets
import Brainfuck.Proofs.Program.Columns
import Brainfuck.Proofs.Program.Insertion
import Brainfuck.Proofs.Program.Loops
import Brainfuck.Proofs.Program.Settling
import Brainfuck.Proofs.Program.Jumps
import Brainfuck.Proofs.Program.LineTable
import Brainfuck.Proofs.Program.Partners
import Brainfuck.Proofs.Program.Verdict
import Brainfuck.Proofs.Debugger.WellFormed
import Brainfuck.Proofs.Debugger.Upcoming
import Brainfuck.Proofs.Debugger.PointSets
import Brainfuck.Proofs.Debugger.Answers
import Brainfuck.Proofs.Debugger.Happenings
import Brainfuck.Proofs.Debugger.Awaiting
import Brainfuck.Proofs.Debugger.Stopping
import Brainfuck.Proofs.Debugger.Interrupting
import Brainfuck.Proofs.Shell.Prompt
import Brainfuck.Proofs.Shell.Status
import Brainfuck.Proofs.Debugger.Forgetting
import Brainfuck.Proofs.Shell.Slices
import Brainfuck.Proofs.Session.Conversation
import Brainfuck.Proofs.Session.Turns
import Brainfuck.Proofs.Shell.Steps
import Brainfuck.Proofs.Shell.Reached
import Brainfuck.Proofs.Shell.Previews
import Brainfuck.Proofs.Text.Words
import Brainfuck.Proofs.Text.Numerals
import Brainfuck.Proofs.Command.Grammar
import Brainfuck.Proofs.Text.Encoding
import Brainfuck.Proofs.Text.Clean
import Brainfuck.Proofs.Shell.Messages
import Brainfuck.Proofs.Shell.Telling
import Brainfuck.Proofs.Shell.History
import Brainfuck.Proofs.Shell.Untouched
import Brainfuck.Proofs.Shell.Cells
import Brainfuck.Proofs.Color.Controls
import Brainfuck.Proofs.Shell.Presentation
import Brainfuck.Proofs.Program.Caret
import Brainfuck.Proofs.Text.Bytes
import Brainfuck.Proofs.Color.Hexadecimal
import Brainfuck.Proofs.Settings.Settled
import Brainfuck.Proofs.Settings.Readability
import Brainfuck.Proofs.Settings.Assignments
import Brainfuck.Proofs.Settings.Ignored
import Brainfuck.Proofs.Tape.Addresses
import Brainfuck.Proofs.Text.Padding
import Brainfuck.Proofs.Settings.Lines
import Brainfuck.Proofs.Settings.Layout
import Brainfuck.Proofs.Program.Labels
import Brainfuck.Proofs.Program.Listed
import Brainfuck.Proofs.Program.Barriers
import Brainfuck.Proofs.Program.EmptyLoops
import Brainfuck.Proofs.Program.Warnings
