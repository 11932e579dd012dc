import Brainfuck.Text.Blank
import Mathlib.Data.List.DropRight

/-!
# Blanks around a text

A text is `Padded` by the blanks around what is left of it when it is trimmed: `padded_iff`. So
there is one way to take the blanks away, and it leaves nothing to take away.
-/

namespace Brainfuck.Text

/-- A text is another one with blanks around it, which has none at its own ends. -/
structure Padded (text inner : List Char) : Prop where
  around : ∃ left right, text = left ++ inner ++ right ∧ (∀ c ∈ left, isBlank c = true) ∧
    ∀ c ∈ right, isBlank c = true
  begins : ∀ c ∈ inner.head?, isBlank c = false
  ends : ∀ c ∈ inner.getLast?, isBlank c = false

variable {text inner left right : List Char}

theorem trim_eq (text : List Char) : trim text = (text.dropWhile isBlank).rdropWhile isBlank :=
  rfl

/-! ### Taking blanks away -/

theorem dropWhile_blanks (blanks : ∀ c ∈ left, isBlank c = true)
    (begins : ∀ c ∈ inner.head?, isBlank c = false) :
    (left ++ inner).dropWhile isBlank = inner := by
  rw [List.dropWhile_append_of_pos blanks]
  cases inner with
  | nil => rfl
  | cons c rest => simp [begins c rfl]

theorem rdropWhile_blanks (blanks : ∀ c ∈ right, isBlank c = true)
    (ends : ∀ c ∈ inner.getLast?, isBlank c = false) :
    (inner ++ right).rdropWhile isBlank = inner := by
  have backwards : (right.reverse ++ inner.reverse).dropWhile isBlank = inner.reverse := by
    apply dropWhile_blanks
    · intro c mem
      exact blanks c (List.mem_reverse.mp mem)
    · intro c mem
      rw [List.head?_reverse] at mem
      exact ends c mem
  rw [List.rdropWhile, List.reverse_append, backwards, List.reverse_reverse]

/-- A text of blanks is taken away as a whole. -/
theorem trim_of_blanks (blanks : ∀ c ∈ text, isBlank c = true) : trim text = [] := by
  rw [trim_eq, List.dropWhile_eq_nil_iff.mpr blanks]
  rfl

theorem Padded.trim_eq (h : Padded text inner) : trim text = inner := by
  obtain ⟨⟨left, right, whole, blanks, blanks'⟩, begins, ends⟩ := h
  subst whole
  by_cases empty : inner = []
  · subst empty
    apply trim_of_blanks
    intro c mem
    rcases List.mem_append.mp mem with mem | mem
    · exact blanks c (by simpa using mem)
    · exact blanks' c mem
  · have first : ∀ c ∈ (inner ++ right).head?, isBlank c = false := by
      rw [List.head?_append_of_ne_nil inner empty]
      exact begins
    rw [Text.trim_eq, List.append_assoc, dropWhile_blanks blanks first,
      rdropWhile_blanks blanks' ends]

/-- What is left of a trimmed text has no blank at its ends. -/
theorem padded_trim (text : List Char) : Padded text (trim text) := by
  have begun := List.takeWhile_append_dropWhile (p := isBlank) (l := text)
  have ended := List.rdropWhile_append_rtakeWhile (p := isBlank) (l := text.dropWhile isBlank)
  constructor
  case around =>
    refine ⟨text.takeWhile isBlank, (text.dropWhile isBlank).rtakeWhile isBlank, ?_, ?_, ?_⟩
    · rw [trim_eq, List.append_assoc, ended, begun]
    · intro c mem
      exact List.mem_takeWhile_imp mem
    · intro c mem
      exact List.mem_rtakeWhile_imp mem
  case begins =>
    intro c mem
    have stops := List.head?_dropWhile_not isBlank text
    -- What is trimmed at its end still begins as before.
    obtain ⟨rest, whole⟩ := List.rdropWhile_prefix isBlank (l := text.dropWhile isBlank)
    have head : (text.dropWhile isBlank).head? = some c := by
      rw [← whole, List.head?_append]
      rw [trim_eq] at mem
      simp [Option.mem_def.mp mem]
    rw [head] at stops
    simpa using stops
  case ends =>
    intro c mem
    rw [trim_eq] at mem
    have some := List.ne_nil_of_mem (List.mem_of_getLast? mem)
    have last := List.rdropWhile_last_not isBlank (text.dropWhile isBlank) some
    rw [Option.mem_def, List.getLast?_eq_some_getLast some] at mem
    rw [Option.some.inj mem] at last
    simpa using last

/-- There is one text with blanks around it. -/
theorem padded_iff : Padded text inner ↔ trim text = inner := by
  constructor
  · intro h
    exact h.trim_eq
  · intro h
    rw [← h]
    exact padded_trim text

end Brainfuck.Text
