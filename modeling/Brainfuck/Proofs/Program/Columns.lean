import Brainfuck.Proofs.Program.Reading
import Brainfuck.Proofs.Program.Words

/-!
# Reading without columns

Columns are kept for reports alone. So what becomes of a text depends on no more than the words of
operators in its lines: `outcome_ofSource` says which instructions and which warnings it gets, if it
is accepted, from these words.
-/

namespace Brainfuck

namespace Assembly

/-- An assembly in which every bracket that waits is said to stand at the beginning of its line. -/
def withoutColumns (a : Assembly) : Assembly :=
  { a with openBrackets := a.openBrackets.map fun bracket => { bracket with column := 0 } }

/-- Adds operators, if each bracket finds its partner. -/
def addWord (a : Assembly) (word : List Operator) : Option Assembly :=
  word.foldlM (fun a op => (a.addOperator 0 op).toOption) a

/-- Adds lines of operators. -/
def addWords (a : Assembly) (words : List (List Operator)) : Option Assembly :=
  words.foldlM (fun a word => a.beginLine.addWord word) a

/-- The instructions and the warnings of a program, if no bracket waits and there is an
instruction. -/
def outcome (a : Assembly) : Option (Array Instruction × Array Warning) :=
  if a.openBrackets = [] ∧ a.instructions ≠ #[] then some (a.instructions, a.warnings) else none

variable (a : Assembly)

@[simp] theorem addWord_nil : a.addWord [] = some a := rfl

@[simp] theorem addWord_cons (op : Operator) (word : List Operator) :
    a.addWord (op :: word) = (a.addOperator 0 op).toOption.bind (addWord · word) := by
  simp [addWord]

theorem addWord_append (word more : List Operator) :
    a.addWord (word ++ more) = (a.addWord word).bind (addWord · more) := by
  simp [addWord]

@[simp] theorem addWords_nil : a.addWords [] = some a := rfl

@[simp] theorem addWords_cons (word : List Operator) (words : List (List Operator)) :
    a.addWords (word :: words) = (a.beginLine.addWord word).bind (addWords · words) := by
  simp [addWords]

theorem addWords_append (words more : List (List Operator)) :
    a.addWords (words ++ more) = (a.addWords words).bind (addWords · more) := by
  simp [addWords]

/-! ### Columns do not matter -/

theorem addCounted_withoutColumns (op : Operator) :
    (a.addCounted op).withoutColumns = a.withoutColumns.addCounted op := by
  have same : a.withoutColumns.joinable? = a.joinable? := rfl
  unfold addCounted
  rw [same]
  unfold amendLast
  split
  · rfl
  · repeat' split
    all_goals rfl

theorem addOperator_withoutColumns (column : Nat) (op : Operator) :
    (a.addOperator column op).toOption.map withoutColumns =
      (a.withoutColumns.addOperator 0 op).toOption := by
  cases op with
  | increment | decrement | shiftLeft | shiftRight =>
    exact congrArg some (a.addCounted_withoutColumns _)
  | input | output | loopStart => rfl
  | loopEnd =>
    simp only [addOperator, closeLoop, withoutColumns]
    cases a.openBrackets with
    | nil => rfl
    | cons bracket outer =>
      simp only [List.map_cons, warnOfEmpty, line]
      split <;> rfl

theorem addChars_withoutColumns (column : Nat) (text : List Char) :
    (a.addChars column text).toOption.map withoutColumns =
      a.withoutColumns.addWord (operators text) := by
  induction text generalizing a column with
  | nil => rfl
  | cons c rest ih =>
    rw [addChars, operators, List.filterMap_cons]
    cases Operator.ofChar? c with
    | none => exact ih a _
    | some op =>
      have first := a.addOperator_withoutColumns column op
      simp only [addWord_cons, ← first]
      cases a.addOperator column op with
      | error fault => rfl
      | ok next => exact ih next _

theorem addLines_withoutColumns (lines : List (List Char)) :
    (a.addLines lines).toOption.map withoutColumns =
      a.withoutColumns.addWords (lines.map operators) := by
  induction lines generalizing a with
  | nil => rfl
  | cons line rest ih =>
    rw [addLines, List.map_cons, addWords_cons]
    have first := a.beginLine.addChars_withoutColumns 0 line
    have begun : a.beginLine.withoutColumns = a.withoutColumns.beginLine := rfl
    rw [← begun, ← first]
    cases a.beginLine.addChars 0 line with
    | error fault => rfl
    | ok next => exact ih next

/-- From the beginning, lines are read by their words. -/
theorem addWords_eq (byLine : Bool) (lines : List (List Char)) :
    ({ byLine } : Assembly).addWords (lines.map operators) =
      (({ byLine } : Assembly).addLines lines).toOption.map withoutColumns :=
  (({ byLine } : Assembly).addLines_withoutColumns lines).symm

theorem addWords_eq_some {byLine : Bool} {lines : List (List Char)} {next : Assembly} :
    ({ byLine } : Assembly).addWords (lines.map operators) = some next ↔
      ∃ a, ({ byLine } : Assembly).addLines lines = .ok a ∧ a.withoutColumns = next := by
  rw [addWords_eq]
  cases ({ byLine } : Assembly).addLines lines <;> simp [Except.toOption]

end Assembly

/-- The instructions and the warnings that a text gets, if it is accepted. -/
def outcome (byLine : Bool) (source : String) : Option (Array Instruction × Array Warning) :=
  (Program.ofSource byLine source).toOption.map fun p => (p.instructions, p.warnings)

/-- A text is read by the words of its lines. -/
theorem outcome_eq (byLine : Bool) (source : String) :
    outcome byLine source =
      (({ byLine } : Assembly).addWords ((Text.lines source.toList).map operators)).bind
        Assembly.outcome := by
  rw [Assembly.addWords_eq, outcome, Program.ofSource]
  cases ({ byLine } : Assembly).addLines (Text.lines source.toList) with
  | error fault => rfl
  | ok a =>
    have ends : a.withoutColumns.outcome = a.outcome := by
      simp [Assembly.outcome, Assembly.withoutColumns]
    simp only [Except.toOption, Option.map_some, Option.bind_some, ends]
    unfold Assembly.outcome Assembly.blame?
    cases a.openBrackets.eq_nil_or_concat' with
    | inl none => by_cases empty : a.instructions = #[] <;> simp [none, empty, Assembly.finish]
    | inr some =>
      obtain ⟨before, outermost, waits⟩ := some
      simp [waits]

end Brainfuck
