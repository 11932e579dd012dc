import Brainfuck.Color.Hex
import Mathlib.Data.String.Basic

/-!
# Cutting a text by bytes

The bytes of a text are those of its characters in UTF-8, and a cut behind a number of them must not
fall inside a character. Where it does not, the text falls into what is before it and what is
behind.
-/

namespace Brainfuck.Text

open Color (splitBytes?)
open String (utf8Len)

/-- The part of a text from one number of bytes to another, if neither falls inside a character or
behind the text. -/
def slice? (start stop : Nat) (text : List Char) : Option (List Char) :=
  (splitBytes? stop text).bind fun (upTo, _) => (splitBytes? start upTo).map Prod.snd

/-- A text without a mark at its beginning and one at its end, of one byte each. -/
def inside? (text : List Char) : Option (List Char) :=
  slice? 1 (utf8Len text - 1) text

variable {text front back : List Char} {count : Nat} {first last : Char}

/-- A cut behind the bytes of the beginning is one in what comes next. -/
theorem splitBytes?_add (front back : List Char) (count : Nat) :
    splitBytes? (utf8Len front + count) (front ++ back) =
      (splitBytes? count back).map fun (upTo, behind) => (front ++ upTo, behind) := by
  induction front with
  | nil => simp
  | cons c front ih =>
    have positive : utf8Len (c :: front) + count ≠ 0 := by
      simp [c.utf8Size_pos.ne']
    have enough : ¬ utf8Len (c :: front) + count < c.utf8Size := by
      rw [String.utf8Len_cons]
      omega
    have later : utf8Len (c :: front) + count - c.utf8Size = utf8Len front + count := by
      rw [String.utf8Len_cons]
      omega
    rw [List.cons_append, splitBytes?, if_neg positive, if_neg enough, later, ih, Option.map_map]
    rfl

/-- A text can be cut behind the bytes of its beginning. -/
theorem splitBytes?_append (front back : List Char) :
    splitBytes? (utf8Len front) (front ++ back) = some (front, back) := by
  have nothing : splitBytes? 0 back = some ([], back) := by cases back <;> rfl
  simpa [nothing] using splitBytes?_add front back 0

theorem append_of_splitBytes? (h : splitBytes? count text = some (front, back)) :
    text = front ++ back ∧ utf8Len front = count := by
  induction text generalizing count front with
  | nil =>
    rw [splitBytes?] at h
    split at h
    · rename_i zero
      cases h
      exact ⟨rfl, zero.symm⟩
    · cases h
  | cons c rest ih =>
    rw [splitBytes?] at h
    split at h
    · rename_i zero
      cases h
      exact ⟨rfl, zero.symm⟩
    · split at h
      · cases h
      · obtain ⟨⟨front', back'⟩, found, same⟩ := Option.map_eq_some_iff.mp h
        cases same
        obtain ⟨rfl, counted⟩ := ih found
        exact ⟨rfl, by rw [String.utf8Len_cons]; omega⟩

theorem splitBytes?_eq_some_iff :
    splitBytes? count text = some (front, back) ↔ text = front ++ back ∧ utf8Len front = count := by
  constructor
  · exact append_of_splitBytes?
  · rintro ⟨rfl, rfl⟩
    exact splitBytes?_append front back

/-- A text can be cut at the boundaries of its characters, and nowhere else. -/
theorem exists_splitBytes?_iff :
    (∃ front back, splitBytes? count text = some (front, back)) ↔
      String.Pos.Raw.IsValid (String.ofList text) ⟨count⟩ := by
  simp only [splitBytes?_eq_some_iff, String.Pos.Raw.isValid_iff_exists_append]
  constructor
  · rintro ⟨front, back, rfl, rfl⟩
    exact ⟨String.ofList front, String.ofList back, String.ofList_append, by simp⟩
  · rintro ⟨front, back, whole, counted⟩
    refine ⟨front.toList, back.toList, ?_, ?_⟩
    · simpa using congrArg String.toList whole
    · rw [String.utf8Len_toList]
      exact (congrArg String.Pos.Raw.byteIdx counted).symm

theorem slice?_append (front middle back : List Char) :
    slice? (utf8Len front) (utf8Len (front ++ middle)) (front ++ middle ++ back) = some middle := by
  simp only [slice?, splitBytes?_append, Option.bind_some, Option.map_some]

/-- The end of a text, up to its last byte. -/
theorem slice?_of_append (front back : List Char) :
    slice? (utf8Len front) (utf8Len (front ++ back)) (front ++ back) = some back := by
  simpa using slice?_append front back []

theorem inside?_eq (opening : first.utf8Size = 1) (closing : last.utf8Size = 1)
    (inner : List Char) : inside? (first :: inner ++ [last]) = some inner := by
  have start : utf8Len [first] = 1 := by simp [opening]
  have stop : utf8Len (first :: inner ++ [last]) - 1 = utf8Len ([first] ++ inner) := by
    simp [opening, closing]
  rw [inside?, stop, ← start]
  exact slice?_append [first] inner [last]

end Brainfuck.Text
