import Brainfuck.Palette
import Brainfuck.Text.Utf8

/-! What a debug session shows: the shell's own text and the program's output, in the order in which
they arise. Colors are put in only when a transcript is written out. -/
namespace Brainfuck

/-- One stretch of a transcript. -/
inductive Span
  /-- Text of the shell. -/
  | plain (text : String)
  /-- Text of the shell that has a color if colors are wanted. -/
  | toned (tone : Tone) (text : String)
  /-- What the program has written. -/
  | output (bytes : Array UInt8)
  deriving DecidableEq

/-- The bytes of a stretch, with colors if there is a palette. -/
def Span.bytes (palette : Option Palette) : Span → List UInt8
  | plain text => Text.Utf8.encode text
  | toned tone text =>
    match palette with
    | some palette => Text.Utf8.encode ((palette.color tone).paint text)
    | none => Text.Utf8.encode text
  | output bytes => bytes.toList

/-- Stretches in the order in which they are shown. -/
abbrev Transcript := Array Span

namespace Transcript

/-- The bytes of a transcript, with colors if there is a palette. -/
def bytes (t : Transcript) (palette : Option Palette) : List UInt8 :=
  t.toList.flatMap (Span.bytes palette)

def programOutput (t : Transcript) : List UInt8 :=
  t.toList.flatMap fun
    | .output bytes => bytes.toList
    | _ => []

end Transcript

end Brainfuck
