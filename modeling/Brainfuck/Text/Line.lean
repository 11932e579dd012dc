import Brainfuck.Text.Cut

/-! Lines of a text or of a byte stream. A line ends with its newline, which belongs to it; the
last line may lack one. Nothing is lost: the lines of a text put together are the text. -/
namespace Brainfuck.Text

/-- The lines of a text, each with its newline. A text that ends with a newline has no empty line
after it, and the empty text has no line at all. -/
def lines (text : List Char) : List (List Char) :=
  cutAfter (· = '\n') text

/-- A line without the newlines and carriage returns at its end. -/
def stripEnding (line : List Char) : List Char :=
  (line.reverse.dropWhile fun c => c = '\n' || c = '\r').reverse

def newline : UInt8 := 10

def byteLines (stream : List UInt8) : List (List UInt8) :=
  cutAfter (· = newline) stream

/-- Splits a stream after its first newline, or at its end if it has none. -/
def splitLine (stream : List UInt8) : List UInt8 × List UInt8 :=
  match stream.dropWhile (· != newline) with
  | [] => (stream, [])
  | ending :: rest => (stream.takeWhile (· != newline) ++ [ending], rest)

/-- The lines of a text put together are the text. -/
theorem flatten_lines (text : List Char) : (lines text).flatten = text :=
  flatten_cutAfter _ text

@[simp] theorem lines_nil : lines [] = [] := rfl

theorem lines_cons (c : Char) (text : List Char) :
    lines (c :: text) = if c = '\n' then [c] :: lines text else prepend c (lines text) := by
  rw [lines, cutAfter_cons]
  simp [lines]

/-- Text without a newline begins the first line of what comes behind it. -/
theorem lines_append_of_unfinished {start : List Char} (some : start ≠ [])
    (unfinished : ∀ c ∈ start, c ≠ '\n') (later : List Char) :
    lines (start ++ later) = (start ++ (lines later).headD []) :: (lines later).tail := by
  induction start with
  | nil => contradiction
  | cons c rest ih =>
    obtain ⟨here, others⟩ := List.forall_mem_cons.mp unfinished
    rw [List.cons_append, lines_cons, if_neg here]
    cases rest with
    | nil =>
      rw [List.nil_append]
      cases lines later <;> rfl
    | cons _ _ =>
      rw [ih (List.cons_ne_nil _ _) others]
      rfl

end Brainfuck.Text
