import Brainfuck.Text.Numeral
import Mathlib.Data.Nat.Digits.Defs

/-!
# Which words are numerals

A word is read as a number exactly if it is a row of decimal digits, behind a sign if it has one,
whose value is in range; and then it is read as that value.
-/

namespace Brainfuck.Text.Numeral

/-- What a row of decimal digits spells. The last digit is that of the ones. -/
def valueOf (row : List Char) : Nat :=
  Nat.ofDigits 10 (row.reverse.map fun c => c.toNat - '0'.toNat)

/-- A row of digits, one at least, and the number that it spells. -/
structure Denotes (row : List Char) (n : Nat) : Prop where
  nonempty : row ≠ []
  digits : ∀ c ∈ row, c.isDigit = true
  value : n = valueOf row

/-- A word for a number below 2^64: digits, behind a plus sign or not. -/
def IsCount (word : String) (n : Nat) : Prop :=
  ∃ row, Denotes row n ∧ (word.toList = row ∨ word.toList = '+' :: row) ∧ n < 2 ^ 64

/-- A word for a number from -2^63 to 2^63 - 1: digits, behind a sign or not. -/
def IsInteger (word : String) (z : Int) : Prop :=
  ∃ row n, Denotes row n ∧
    ((word.toList = row ∨ word.toList = '+' :: row) ∧ z = n ∨ word.toList = '-' :: row ∧ z = -n) ∧
    -2 ^ 63 ≤ z ∧ z < 2 ^ 63

variable {c : Char} {row text : List Char} {n value : Nat} {z : Int} {word : String}

/-! ### Rows of digits -/

theorem digit?_eq (c : Char) :
    digit? c = if c.isDigit then some (c.toNat - '0'.toNat) else none := by
  have same : ('0' ≤ c ∧ c ≤ '9') ↔ c.isDigit = true := by
    rw [Char.isDigit, Bool.and_eq_true, decide_eq_true_eq, decide_eq_true_eq]
    rfl
  simp only [digit?, same]

theorem valueOf_cons (c : Char) (row : List Char) :
    valueOf (c :: row) = 10 ^ row.length * (c.toNat - '0'.toNat) + valueOf row := by
  rw [valueOf, List.reverse_cons, List.map_append, Nat.ofDigits_append, List.map_singleton,
    Nat.ofDigits_singleton, List.length_map, List.length_reverse, valueOf, Nat.add_comm]

/-- What has been read stands in front of the digits that follow. -/
theorem appendDigits?_eq_some_iff :
    appendDigits? value row = some n ↔
      (∀ c ∈ row, c.isDigit = true) ∧ n = 10 ^ row.length * value + valueOf row := by
  induction row generalizing value with
  | nil =>
    have nothing : 10 ^ ([] : List Char).length * value + valueOf [] = value := by
      simp [valueOf]
    rw [appendDigits?, nothing]
    constructor
    · rintro ⟨⟩
      exact ⟨by simp, rfl⟩
    · rintro ⟨-, rfl⟩
      rfl
  | cons c row ih =>
    rw [appendDigits?, digit?_eq]
    by_cases digit : c.isDigit = true
    · have shifted : 10 ^ row.length * (10 * value + (c.toNat - '0'.toNat)) + valueOf row =
          10 ^ (c :: row).length * value + valueOf (c :: row) := by
        rw [valueOf_cons, List.length_cons]
        ring
      rw [if_pos digit]
      show appendDigits? (10 * value + (c.toNat - '0'.toNat)) row = some n ↔ _
      rw [ih, shifted, List.forall_mem_cons]
      exact and_congr_left fun _ => (and_iff_right digit).symm
    · rw [if_neg digit]
      refine iff_of_false (by simp) ?_
      rintro ⟨digits, -⟩
      exact digit (digits c List.mem_cons_self)

theorem digits?_eq_some_iff : digits? row = some n ↔ Denotes row n := by
  cases row with
  | nil =>
    refine iff_of_false (by simp [digits?]) ?_
    intro h
    exact h.nonempty rfl
  | cons c row =>
    rw [digits?, appendDigits?_eq_some_iff, Nat.mul_zero, Nat.zero_add]
    · exact ⟨fun ⟨digits, value⟩ => ⟨List.cons_ne_nil c row, digits, value⟩,
        fun h => ⟨h.digits, h.value⟩⟩
    · simp

/-- A sign is no digit. -/
theorem Denotes.head_ne {sign : Char} (h : Denotes row n) (sign_ne : sign.isDigit = false)
    (rest : List Char) : row ≠ sign :: rest := by
  rintro rfl
  rw [h.digits sign List.mem_cons_self] at sign_ne
  cases sign_ne

/-! ### Signs -/

theorem unsigned?_eq_some_iff :
    unsigned? text = some n ↔ ∃ row, Denotes row n ∧ (text = row ∨ text = '+' :: row) := by
  constructor
  · intro h
    unfold unsigned? at h
    split at h
    · exact ⟨_, digits?_eq_some_iff.mp h, .inr rfl⟩
    · exact ⟨_, digits?_eq_some_iff.mp h, .inl rfl⟩
  · rintro ⟨row, denotes, rfl | rfl⟩
    · unfold unsigned?
      split
      · exact absurd rfl (denotes.head_ne (by decide) _)
      · exact digits?_eq_some_iff.mpr denotes
    · exact digits?_eq_some_iff.mpr denotes

theorem signed?_minus (row : List Char) :
    signed? ('-' :: row) = (digits? row).map fun n : Nat => -(n : Int) := by
  cases read : digits? row <;> simp [signed?, read]

theorem signed?_of_not_minus (other : ∀ row, text ≠ '-' :: row) :
    signed? text = (unsigned? text).map Int.ofNat := by
  unfold signed?
  split
  · exact absurd rfl (other _)
  · rfl

theorem signed?_eq_some_iff :
    signed? text = some z ↔
      ∃ row n, Denotes row n ∧
        ((text = row ∨ text = '+' :: row) ∧ z = n ∨ text = '-' :: row ∧ z = -n) := by
  constructor
  · intro h
    by_cases minus : ∃ row, text = '-' :: row
    · obtain ⟨row, rfl⟩ := minus
      rw [signed?_minus] at h
      obtain ⟨n, read, rfl⟩ := Option.map_eq_some_iff.mp h
      exact ⟨row, n, digits?_eq_some_iff.mp read, .inr ⟨rfl, rfl⟩⟩
    · rw [signed?_of_not_minus (not_exists.mp minus)] at h
      obtain ⟨n, read, rfl⟩ := Option.map_eq_some_iff.mp h
      obtain ⟨row, denotes, spelled⟩ := unsigned?_eq_some_iff.mp read
      exact ⟨row, n, denotes, .inl ⟨spelled, rfl⟩⟩
  · rintro ⟨row, n, denotes, ⟨spelled, rfl⟩ | ⟨rfl, rfl⟩⟩
    · -- Neither a digit nor a plus sign is a minus sign.
      have other : ∀ rest, text ≠ '-' :: rest := by
        rintro rest rfl
        rcases spelled with same | same
        · exact denotes.head_ne (by decide) rest same.symm
        · simp at same
      rw [signed?_of_not_minus other, unsigned?_eq_some_iff.mpr ⟨row, denotes, spelled⟩]
      rfl
    · rw [signed?_minus, digits?_eq_some_iff.mpr denotes]
      rfl

/-! ### Ranges -/

theorem count?_eq_some_iff : count? word = some n ↔ IsCount word n := by
  rw [count?, Option.filter_eq_some_iff, unsigned?_eq_some_iff, decide_eq_true_eq]
  constructor
  · rintro ⟨⟨row, denotes, spelled⟩, below⟩
    exact ⟨row, denotes, spelled, below⟩
  · rintro ⟨row, denotes, spelled, below⟩
    exact ⟨⟨row, denotes, spelled⟩, below⟩

theorem integer?_eq_some_iff : integer? word = some z ↔ IsInteger word z := by
  rw [integer?, Option.filter_eq_some_iff, signed?_eq_some_iff, Bool.and_eq_true,
    decide_eq_true_eq, decide_eq_true_eq]
  constructor
  · rintro ⟨⟨row, n, denotes, spelled⟩, low, high⟩
    exact ⟨row, n, denotes, spelled, low, high⟩
  · rintro ⟨row, n, denotes, spelled, low, high⟩
    exact ⟨⟨row, n, denotes, spelled⟩, low, high⟩

end Brainfuck.Text.Numeral
