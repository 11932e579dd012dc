import Brainfuck.Proofs.Settings.Readability
import Brainfuck.Proofs.Text.Padding

/-!
# What a line says

A line `Says` that a section begins, that a key is given a value, or nothing. How wide its parts are
set is left open, and so is whether a value stands between quotation marks. `says_iff` compares this
with the reader: every line says one thing, the one that it is read as.
-/

namespace Brainfuck.Settings

open Text (Padded)

/-- A line in brackets. -/
def Bracketed (line : List Char) : Prop :=
  ∃ name, line = '[' :: name ++ [']']

/-- A value as it is written: between quotation marks, or as it is if it has none around it. -/
inductive Quotes : List Char → List Char → Prop
  | marked (value : List Char) : Quotes ('"' :: value ++ ['"']) value
  | bare {value : List Char} (unmarked : ∀ inner, value ≠ '"' :: inner ++ ['"']) :
      Quotes value value

/-- What a line says, whatever blanks there are around it, and around the name, the key and the
value in it. The first equals sign ends the key. -/
inductive Says : List Char → Line → Prop
  | heading {line inside name : List Char} (padded : Padded line ('[' :: inside ++ [']']))
      (named : Padded inside name) : Says line (.heading (String.ofList name))
  | assignment {line left right key written value : List Char}
      (padded : Padded line (left ++ '=' :: right)) (first : '=' ∉ left)
      (comments : (left ++ '=' :: right).head? ≠ some '#')
      (brackets : ¬ Bracketed (left ++ '=' :: right)) (keyed : Padded left key)
      (valued : Padded right written) (quotes : Quotes written value) :
      Says line (.assignment (String.ofList key) (String.ofList value))
  | comment {line rest : List Char} (padded : Padded line ('#' :: rest)) : Says line .other
  | nothing {line inside : List Char} (padded : Padded line inside) (unsigned : '=' ∉ inside)
      (brackets : ¬ Bracketed inside) : Says line .other

variable {line value written left right : List Char} {what : Line}

/-! ### The parts of a line -/

theorem bracketed_iff : Bracketed line ↔ line.head? = some '[' ∧ line.getLast? = some ']' := by
  constructor
  · intro ⟨name, whole⟩
    subst whole
    exact ⟨rfl, List.getLast?_concat ..⟩
  · intro ⟨opening, closing⟩
    have more : line ≠ ['['] := by
      intro single
      subst single
      exact absurd closing (by decide)
    exact exists_between opening closing more

theorem heading?_of_not_bracketed (brackets : ¬ Bracketed line) : heading? line = none :=
  heading?_eq_none (mt bracketed_iff.mpr brackets)

theorem ne_sign (unsigned : '=' ∉ left) : ∀ c ∈ left, (c != '=') = true := by
  intro c mem
  have other : c ≠ '=' := by
    intro sign
    exact unsigned (sign ▸ mem)
  simpa using other

theorem dropWhile_of_unsigned (unsigned : '=' ∉ left) : left.dropWhile (· != '=') = [] :=
  List.dropWhile_eq_nil_iff.mpr (ne_sign unsigned)

theorem takeWhile_sign (first : '=' ∉ left) (right : List Char) :
    (left ++ '=' :: right).takeWhile (· != '=') = left := by
  rw [List.takeWhile_append_of_pos (ne_sign first)]
  simp

theorem dropWhile_sign (first : '=' ∉ left) (right : List Char) :
    (left ++ '=' :: right).dropWhile (· != '=') = '=' :: right := by
  rw [List.dropWhile_append_of_pos (ne_sign first)]
  simp

theorem unquote_of_unmarked (unmarked : ∀ inner, written ≠ '"' :: inner ++ ['"']) :
    unquote written = written := by
  apply unquote_eq_self
  intro ⟨opening, closing, two⟩
  have more : written ≠ ['"'] := by
    intro single
    subst single
    exact absurd two (by decide)
  obtain ⟨inner, whole⟩ := exists_between opening closing more
  exact unmarked inner whole

theorem quotes_iff : Quotes written value ↔ unquote written = value := by
  constructor
  · intro h
    cases h with
    | marked => exact unquote_eq value
    | bare unmarked => exact unquote_of_unmarked unmarked
  · intro h
    subst h
    by_cases marked : ∃ inner, written = '"' :: inner ++ ['"']
    · obtain ⟨inner, whole⟩ := marked
      subst whole
      rw [unquote_eq]
      exact .marked inner
    · have unmarked : ∀ inner, written ≠ '"' :: inner ++ ['"'] := by
        intro inner whole
        exact marked ⟨inner, whole⟩
      rw [unquote_of_unmarked unmarked]
      exact .bare unmarked

/-! ### One way to read a line -/

/-- What a line says is what it is read as. -/
theorem Says.readLine_eq (h : Says line what) : readLine line = what := by
  cases h with
  | @heading inside name padded named =>
    have comments : ('[' :: inside ++ [']']).head? ≠ some '#' := by
      rw [List.cons_append, List.head?_cons]
      decide
    simp only [readLine, padded.trim_eq, if_neg comments, heading?_eq, named.trim_eq]
  | assignment padded first comments brackets keyed valued quotes =>
    simp only [readLine, padded.trim_eq, if_neg comments, heading?_of_not_bracketed brackets,
      dropWhile_sign first, takeWhile_sign first, keyed.trim_eq, valued.trim_eq,
      quotes_iff.mp quotes]
  | comment padded =>
    simp only [readLine, padded.trim_eq, List.head?_cons, if_true]
  | @nothing inside padded unsigned brackets =>
    simp only [readLine, padded.trim_eq, heading?_of_not_bracketed brackets,
      dropWhile_of_unsigned unsigned, ite_self]

theorem says_readLine (line : List Char) : Says line (readLine line) := by
  have padded := Text.padded_trim line
  rw [readLine]
  generalize Text.trim line = inside at padded ⊢
  by_cases comments : inside.head? = some '#'
  · rw [if_pos comments]
    obtain ⟨rest, whole⟩ := List.head?_eq_some_iff.mp comments
    subst whole
    exact .comment padded
  · rw [if_neg comments]
    by_cases brackets : Bracketed inside
    · obtain ⟨name, whole⟩ := brackets
      subst whole
      rw [heading?_eq]
      exact .heading padded (Text.padded_trim name)
    · rw [heading?_of_not_bracketed brackets]
      by_cases sign : '=' ∈ inside
      · obtain ⟨left, right, whole, first⟩ := List.eq_append_cons_of_mem sign
        subst whole
        simp only [dropWhile_sign first, takeWhile_sign first]
        exact .assignment padded first comments brackets (Text.padded_trim left)
          (Text.padded_trim right) (quotes_iff.mpr rfl)
      · have none : inside.dropWhile (· != '=') = [] := dropWhile_of_unsigned sign
        simp only [none]
        exact .nothing padded sign brackets

/-- A line says what it is read as, and nothing else. -/
theorem says_iff : Says line what ↔ readLine line = what := by
  constructor
  · intro h
    exact h.readLine_eq
  · intro h
    subst h
    exact says_readLine line

end Brainfuck.Settings
