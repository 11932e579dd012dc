import Brainfuck.Color

/-! The colors of a debug session. -/
namespace Brainfuck

/-- What a piece of shell text is about, as far as its color depends on that. -/
inductive Tone
  /-- The program has halted on its way. -/
  | stopEvent
  | finished
  | warning
  | error
  /-- The cell under the pointer, among its neighbours. -/
  | pointerCell
  deriving DecidableEq

/-- A color for each tone. -/
structure Palette where
  stopEvent : Color := .cyan
  finished : Color := .green
  warning : Color := .yellow
  error : Color := .red
  pointerCell : Color := .lightYellow
  deriving DecidableEq

def Palette.color (p : Palette) : Tone → Color
  | .stopEvent => p.stopEvent
  | .finished => p.finished
  | .warning => p.warning
  | .error => p.error
  | .pointerCell => p.pointerCell

end Brainfuck
