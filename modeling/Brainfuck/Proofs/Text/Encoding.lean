import Brainfuck.Text.Utf8

/-!
# The bytes of a text

A text is encoded character by character, and a byte below 128 stands for the character with its
number and is a part of no other.
-/

namespace Brainfuck.Text.Utf8

variable {b : UInt8} {c : Char} {text : String}

theorem encode_eq_flatMap (text : String) :
    encode text = text.toList.flatMap String.utf8EncodeChar := by
  have spelled : text.toByteArray = (text.toList.flatMap String.utf8EncodeChar).toByteArray := by
    rw [← String.ofList_toList (s := text), String.toByteArray_ofList, String.toList_ofList]
    rfl
  rw [encode, String.toUTF8, spelled]
  simp

@[simp] theorem encode_append (first second : String) :
    encode (first ++ second) = encode first ++ encode second := by
  simp [encode_eq_flatMap]

@[simp] theorem encode_join (texts : List String) :
    encode (String.join texts) = texts.flatMap encode := by
  induction texts with
  | nil => simp [encode_eq_flatMap]
  | cons text others ih => rw [String.join_cons, encode_append, ih, List.flatMap_cons]

/-- The bytes of a character beyond ASCII are all beyond ASCII. -/
theorem mem_utf8EncodeChar_iff (ascii : b.toNat < 128) :
    b ∈ String.utf8EncodeChar c ↔ c.toNat = b.toNat := by
  have number : c.val.toNat = c.toNat := rfl
  simp only [String.utf8EncodeChar, number]
  by_cases single : c.toNat ≤ 127
  · rw [if_pos single, List.mem_singleton, ← UInt8.toNat_inj, UInt8.toNat_ofNat']
    omega
  · rw [if_neg single]
    refine iff_of_false ?_ (by omega)
    intro mem
    split at mem
    · simp only [List.mem_cons, List.not_mem_nil, or_false, ← UInt8.toNat_inj,
        UInt8.toNat_ofNat'] at mem
      omega
    · split at mem <;>
      · simp only [List.mem_cons, List.not_mem_nil, or_false, ← UInt8.toNat_inj,
          UInt8.toNat_ofNat'] at mem
        omega

theorem mem_encode_iff (ascii : b.toNat < 128) :
    b ∈ encode text ↔ ∃ c ∈ text.toList, c.toNat = b.toNat := by
  simp only [encode_eq_flatMap, List.mem_flatMap, mem_utf8EncodeChar_iff ascii]

end Brainfuck.Text.Utf8
