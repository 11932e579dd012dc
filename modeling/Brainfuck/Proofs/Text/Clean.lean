import Brainfuck.Proofs.Text.Encoding
import Brainfuck.Text.Column
import Mathlib.Data.Nat.Digits.Lemmas

/-!
# Texts without control sequences

Every control sequence begins with the escape character. A text without that character is clean; so
are texts put together of clean ones, and numbers.
-/

namespace Brainfuck.Text

/-- The character that begins a control sequence. -/
def escape : Char := '\x1b'

/-- The byte of the escape character. -/
def escapeByte : UInt8 := 27

/-- A text without the escape character. -/
def Clean (text : String) : Prop :=
  escape ∉ text.toList

variable {first second : String} {texts : List String}

/-- A text that is written out is clean if its characters show it. -/
theorem clean_ofList {row : List Char} (without : row.contains escape = false) :
    Clean (String.ofList row) := by
  simpa [Clean] using without

/-! ### Texts put together -/

theorem Clean.append (clean : Clean first) (clean' : Clean second) : Clean (first ++ second) := by
  intro mem
  rw [String.toList_append] at mem
  rcases List.mem_append.mp mem with here | there
  · exact clean here
  · exact clean' there

theorem Clean.join (clean : ∀ text ∈ texts, Clean text) : Clean (String.join texts) := by
  intro mem
  rw [String.toList_join] at mem
  obtain ⟨text, among, here⟩ := List.mem_flatMap.mp mem
  exact clean text among here

theorem Clean.intercalate {between : String} (apart : Clean between)
    (clean : ∀ text ∈ texts, Clean text) : Clean (between.intercalate texts) := by
  induction texts with
  | nil => exact clean_ofList rfl
  | cons text others ih =>
    obtain ⟨here, later⟩ := List.forall_mem_cons.mp clean
    cases others with
    | nil => simpa using here
    | cons _ _ =>
      rw [String.intercalate_cons_cons]
      exact .append (.append here apart) (ih later)

/-- Clean texts with a newline behind each of them. -/
theorem Clean.lines (clean : ∀ text ∈ texts, Clean text) :
    Clean (String.join (texts.map (· ++ "\n"))) := by
  refine .join fun line mem => ?_
  obtain ⟨text, among, rfl⟩ := List.mem_map.mp mem
  exact .append (clean text among) (clean_ofList rfl)

/-- A text made of characters of a clean one is clean. -/
theorem Clean.of_subset (clean : Clean first) (within : second.toList ⊆ first.toList) :
    Clean second :=
  fun mem => clean (within mem)

/-! ### Numbers and columns -/

/-- A number is spelled with digits only. -/
theorem not_mem_toDigits {c : Char} (other : c.isDigit = false) (n : Nat) :
    c ∉ Nat.toDigits 10 n := by
  intro mem
  have digit := Nat.isDigit_of_mem_toDigits (by omega) (by omega) mem
  rw [other] at digit
  cases digit

theorem clean_nat (n : Nat) : Clean (toString n) := by
  rw [Clean, Nat.toString_eq_repr, Nat.repr, String.toList_ofList]
  exact not_mem_toDigits rfl n

/-- A number, or a text in its place. -/
theorem Clean.number (clean : Clean first) (number : Option Nat) :
    Clean ((number.map toString).getD first) := by
  cases number with
  | none => exact clean
  | some n => exact clean_nat n

theorem clean_int (z : Int) : Clean (toString z) := by
  cases z with
  | ofNat n => exact clean_nat n
  | negSucc n =>
    have spelled : toString (Int.negSucc n) = "-" ++ toString (n + 1) := rfl
    rw [spelled]
    exact .append (clean_ofList rfl) (clean_nat _)

theorem clean_blanks (count : Nat) : Clean (Column.blanks count) := by
  intro mem
  rw [Column.blanks, String.toList_ofList] at mem
  exact absurd (List.eq_of_mem_replicate mem) (by decide)

theorem Clean.left (clean : Clean first) (width : Nat) : Clean (Column.left width first) :=
  .append clean (clean_blanks _)

/-! ### Bytes -/

/-- A text is clean if the escape byte is not among its bytes. -/
theorem clean_iff_encode (text : String) : Clean text ↔ escapeByte ∉ Utf8.encode text := by
  have same (c : Char) : c.toNat = escapeByte.toNat ↔ c = escape :=
    Char.toNat_inj (d := escape)
  rw [Clean, Utf8.mem_encode_iff (by decide)]
  simp only [same, exists_eq_right]

end Brainfuck.Text
