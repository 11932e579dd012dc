import Brainfuck.Text.Line
import Mathlib.Data.List.DropRight
import Mathlib.Data.List.Induction

/-!
# Places in a text

The place of a character is told by what stands before it: its line by the newlines there, its
column by what has come since the last of them. `getElem?_lines` finds the line of that number again
among the lines of the text.
-/

namespace Brainfuck

namespace Text

/-- What a text has behind its last newline. -/
def lastPart (text : List Char) : List Char :=
  text.rtakeWhile (· != '\n')

variable {text part before later : List Char} {c : Char}

@[simp] theorem lastPart_concat_newline (text : List Char) : lastPart (text ++ ['\n']) = [] :=
  List.rtakeWhile_concat_neg _ _ _ (by simp)

theorem lastPart_concat (stays : c ≠ '\n') (text : List Char) :
    lastPart (text ++ [c]) = lastPart text ++ [c] :=
  List.rtakeWhile_concat_pos _ _ _ (by simpa using stays)

theorem ne_newline_of_mem_lastPart (mem : c ∈ lastPart text) : c ≠ '\n' := by
  simpa using List.mem_rtakeWhile_imp mem

/-! ### Lines -/

theorem lines_append_newline (unfinished : ∀ c ∈ part, c ≠ '\n') (later : List Char) :
    lines (part ++ '\n' :: later) = (part ++ ['\n']) :: lines later := by
  induction part with
  | nil => rw [List.nil_append, lines_cons, if_pos rfl, List.nil_append]
  | cons c rest ih =>
    obtain ⟨here, others⟩ := List.forall_mem_cons.mp unfinished
    rw [List.cons_append, lines_cons, if_neg here, ih others]
    rfl

/-- The first line of a text goes up to its first newline, and with that it ends. -/
theorem exists_lines_eq_cons (some : text ≠ []) :
    ∃ part ending later, part = text.takeWhile (· != '\n') ∧ (∀ c ∈ part, c ≠ '\n') ∧
      (ending = ['\n'] ∨ ending = [] ∧ later = []) ∧ text = part ++ ending ++ later ∧
      lines text = (part ++ ending) :: lines later := by
  have unfinished : ∀ c ∈ text.takeWhile (· != '\n'), c ≠ '\n' := fun c mem => by
    simpa using List.mem_takeWhile_imp mem
  have whole := List.takeWhile_append_dropWhile (p := (· != '\n')) (l := text)
  cases rest : text.dropWhile (· != '\n') with
  | nil =>
    rw [rest, List.append_nil] at whole
    refine ⟨text, [], [], whole.symm, whole ▸ unfinished, .inr ⟨rfl, rfl⟩, by simp, ?_⟩
    simpa using lines_append_of_unfinished some (whole ▸ unfinished) []
  | cons d later =>
    have head := List.head?_dropWhile_not (· != '\n') text
    rw [rest] at head whole
    obtain rfl : d = '\n' := by simpa using head
    refine ⟨_, ['\n'], later, rfl, unfinished, .inl rfl, by simpa using whole.symm, ?_⟩
    conv_lhs => rw [← whole]
    exact lines_append_newline unfinished later

/-- Behind its first line a text has the other lines. -/
theorem lines_flatten_of_cons {line : List Char} {others : List (List Char)}
    (h : lines text = line :: others) : lines others.flatten = others := by
  have some : text ≠ [] := by
    rintro rfl
    cases h
  obtain ⟨part, ending, later, -, -, -, -, first⟩ := exists_lines_eq_cons some
  rw [first] at h
  obtain ⟨-, rfl⟩ := List.cons_eq_cons.mp h
  rw [flatten_lines]

/-- Behind any of its lines a text has the lines that follow. -/
theorem lines_flatten_of_append {earlier others : List (List Char)}
    (h : lines text = earlier ++ others) : lines others.flatten = others := by
  induction earlier generalizing text with
  | nil =>
    rw [List.nil_append] at h
    rw [← h, flatten_lines]
  | cons line earlier ih => exact ih (lines_flatten_of_cons h)

/-- What comes behind lines that others follow does not change them. -/
theorem lines_flatten_append {earlier others : List (List Char)} {line : List Char}
    (h : lines text = earlier ++ line :: others) (later : List Char) :
    lines (earlier.flatten ++ later) = earlier ++ lines later := by
  induction earlier generalizing text with
  | nil => rfl
  | cons first earlier ih =>
    have some : text ≠ [] := by
      rintro rfl
      cases h
    obtain ⟨part, ending, rest, -, unfinished, ends, -, whole⟩ := exists_lines_eq_cons some
    rw [whole] at h
    obtain ⟨rfl, follow⟩ := List.cons_eq_cons.mp h
    rcases ends with rfl | ⟨rfl, rfl⟩
    · have begin : (part ++ ['\n']) ++ earlier.flatten ++ later =
          part ++ '\n' :: (earlier.flatten ++ later) := by simp
      rw [List.flatten_cons, begin, lines_append_newline unfinished, ih follow, List.cons_append]
    · simp at follow

/-- A text from which a line is taken away has the other lines. -/
theorem lines_without {earlier others : List (List Char)} {line : List Char}
    (h : lines text = earlier ++ line :: others) :
    lines (earlier.flatten ++ others.flatten) = earlier ++ others := by
  have behind : lines text = (earlier ++ [line]) ++ others := by simpa using h
  rw [lines_flatten_append h, lines_flatten_of_append behind]

/-- Up to any place a text has whole lines, as many as it has newlines, and then a part of one that
goes on. -/
theorem exists_lines_append (text : List Char) :
    ∃ whole part, part = lastPart text ∧ whole.length = text.count '\n' ∧
      (∀ c ∈ part, c ≠ '\n') ∧ ∀ later, lines (text ++ later) = whole ++ lines (part ++ later) := by
  induction text using List.reverseRecOn with
  | nil => exact ⟨[], [], rfl, rfl, by simp, fun _ => rfl⟩
  | append_singleton text c ih =>
    obtain ⟨whole, part, rfl, count, unfinished, all⟩ := ih
    by_cases newline : c = '\n'
    · subst newline
      refine ⟨whole ++ [lastPart text ++ ['\n']], [], by simp, by simp [count], by simp,
        fun later => ?_⟩
      rw [List.append_assoc, List.singleton_append, all, lines_append_newline unfinished]
      simp
    · refine ⟨whole, lastPart (text ++ [c]), rfl, by simp [count, newline],
        fun d mem => ne_newline_of_mem_lastPart mem, fun later => ?_⟩
      rw [lastPart_concat newline, List.append_assoc, all, List.append_assoc]

/-- The line of a character. -/
theorem getElem?_lines (stays : c ≠ '\n') (before later : List Char) :
    ∃ ending, (ending = [] ∨ ending = ['\n']) ∧
      (lines (before ++ c :: later))[before.count '\n']? =
        some (lastPart before ++ c :: later.takeWhile (· != '\n') ++ ending) := by
  obtain ⟨whole, part, rfl, count, unfinished, all⟩ := exists_lines_append before
  have some : lastPart before ++ c :: later ≠ [] := by simp
  obtain ⟨line, ending, rest, upTo, -, ends, -, first⟩ := exists_lines_eq_cons some
  rw [List.takeWhile_append_of_pos (by simpa using unfinished),
    List.takeWhile_cons_of_pos (by simpa using stays)] at upTo
  refine ⟨ending, ends.symm.imp_left And.left, ?_⟩
  rw [all, first, upTo, ← count, List.getElem?_append_right le_rfl, Nat.sub_self,
    List.getElem?_cons_zero]

end Text

end Brainfuck
