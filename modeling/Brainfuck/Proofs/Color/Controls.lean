import Brainfuck.Color
import Brainfuck.Proofs.Text.Clean

/-!
# Control sequences taken away

A control sequence goes from the escape character and a bracket to the next `m`. Painted text that
is clean itself is the text again when all control sequences are taken away.
-/

namespace Brainfuck

namespace Color

open Text (Clean escapeByte clean_iff_encode)

/-- The byte behind the escape character. -/
def bracketByte : UInt8 := 91

/-- The byte that ends a control sequence. -/
def endByte : UInt8 := 109

/-- What is behind a control sequence, if the bytes begin with one. -/
def controlTail? : List UInt8 → Option (List UInt8)
  | first :: second :: rest =>
    if first = escapeByte ∧ second = bracketByte then
      match rest.dropWhile (· != endByte) with
      | [] => none
      | _ :: tail => some tail
    else none
  | _ => none

theorem length_controlTail? {bytes tail : List UInt8} (found : controlTail? bytes = some tail) :
    tail.length < bytes.length := by
  unfold controlTail? at found
  split at found
  · rename_i first second rest
    split at found
    · split at found
      · cases found
      · rename_i ending behind reached
        cases found
        have shorter := (List.dropWhile_suffix (· != endByte) (l := rest)).length_le
        rw [reached] at shorter
        simp only [List.length_cons] at shorter ⊢
        omega
    · cases found
  · cases found

/-- The bytes without the control sequences among them. -/
def withoutControls : List UInt8 → List UInt8
  | [] => []
  | b :: rest =>
    match _found : controlTail? (b :: rest) with
    | some tail => withoutControls tail
    | none => b :: withoutControls rest
termination_by bytes => bytes.length
decreasing_by
  · exact length_controlTail? ‹_›
  · exact Nat.lt_succ_self _

variable {b : UInt8} {bytes rest tail : List UInt8}

theorem withoutControls_of_tail (found : controlTail? bytes = some tail) :
    withoutControls bytes = withoutControls tail := by
  cases bytes with
  | nil => cases found
  | cons b rest =>
    rw [withoutControls]
    split
    · rename_i other reached
      rw [found] at reached
      rw [Option.some.inj reached]
    · rename_i nothing
      rw [found] at nothing
      cases nothing

/-- A byte that is not the escape byte stays. -/
theorem withoutControls_cons (other : b ≠ escapeByte) (rest : List UInt8) :
    withoutControls (b :: rest) = b :: withoutControls rest := by
  have nothing : controlTail? (b :: rest) = none := by
    cases rest with
    | nil => rfl
    | cons second rest => simp [controlTail?, other]
  rw [withoutControls]
  split
  · rename_i tail reached
    rw [nothing] at reached
    cases reached
  · rfl

theorem withoutControls_append {front : List UInt8} (free : escapeByte ∉ front)
    (rest : List UInt8) : withoutControls (front ++ rest) = front ++ withoutControls rest := by
  induction front with
  | nil => rfl
  | cons b front ih =>
    have other : b ≠ escapeByte := fun same => free (same ▸ List.mem_cons_self)
    have later : escapeByte ∉ front := fun mem => free (List.mem_cons_of_mem _ mem)
    rw [List.cons_append, withoutControls_cons other, ih later, List.cons_append]

/-! ### Painted text -/

/-- A control sequence in bytes. -/
theorem encode_control (code : String) :
    Text.Utf8.encode (control code) =
      escapeByte :: bracketByte :: (Text.Utf8.encode code ++ [endByte]) := by
  have opening : Text.Utf8.encode "\x1b[" = [escapeByte, bracketByte] := by decide
  have ending : Text.Utf8.encode "m" = [endByte] := by decide
  rw [control, Text.Utf8.encode_append, Text.Utf8.encode_append, opening, ending]
  rfl

theorem endByte_not_mem_encode_iff (text : String) :
    endByte ∉ Text.Utf8.encode text ↔ 'm' ∉ text.toList := by
  have same (c : Char) : c.toNat = endByte.toNat ↔ c = 'm' :=
    Char.toNat_inj (d := 'm')
  rw [Text.Utf8.mem_encode_iff (by decide)]
  simp only [same, exists_eq_right]

/-- The code of a color does not end a control sequence early. -/
theorem endByte_not_mem_code (c : Color) : endByte ∉ Text.Utf8.encode c.code := by
  cases c with
  | rgb r g b =>
    have digits (n : Nat) : 'm' ∉ Nat.toDigits 10 n := Text.not_mem_toDigits rfl n
    simp [endByte_not_mem_encode_iff, code, digits]
  | _ => decide

/-- A control sequence at the front is taken away. -/
theorem withoutControls_control {code : String} (free : endByte ∉ Text.Utf8.encode code)
    (rest : List UInt8) :
    withoutControls (Text.Utf8.encode (control code) ++ rest) = withoutControls rest := by
  apply withoutControls_of_tail
  -- The code is passed over, so that the first end is the one behind it.
  have passed : ∀ b ∈ Text.Utf8.encode code, (b != endByte) = true := by
    intro b mem
    rw [bne_iff_ne]
    rintro rfl
    exact free mem
  have reached : (Text.Utf8.encode code ++ endByte :: rest).dropWhile (· != endByte) =
      endByte :: rest := by
    rw [List.dropWhile_append_of_pos passed]
    rfl
  rw [encode_control]
  simp [controlTail?, reached]

/-- Of painted text only the text is left. -/
theorem withoutControls_paint (c : Color) {text : String} (clean : Clean text)
    (rest : List UInt8) :
    withoutControls (Text.Utf8.encode (c.paint text) ++ rest) =
      Text.Utf8.encode text ++ withoutControls rest := by
  have ending : endByte ∉ Text.Utf8.encode "0" := by decide
  rw [paint, Text.Utf8.encode_append, Text.Utf8.encode_append, List.append_assoc,
    List.append_assoc, withoutControls_control c.endByte_not_mem_code,
    withoutControls_append ((clean_iff_encode text).mp clean), withoutControls_control ending]

/-- A sequence without an end is none and stays. -/
example : withoutControls (Text.Utf8.encode "\x1b[36mStepped\x1b[0m \x1b[7") =
    Text.Utf8.encode "Stepped \x1b[7" := by
  cbv

end Color

end Brainfuck
