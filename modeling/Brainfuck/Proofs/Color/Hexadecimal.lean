import Brainfuck.Proofs.Text.Bytes

/-!
# Colors behind a hash

Behind a `#`, six bytes are cut into three pairs. A pair is meant to be two hexadecimal digits, and
one digit behind a plus sign is read as well. The cuts fall inside a character only if that takes
more than one byte, and then reading fails.
-/

namespace Brainfuck.Color

open String (utf8Len)

/-- A hexadecimal digit, in either case, and its value. -/
def HexDigit (c : Char) (value : Nat) : Prop :=
  "0123456789abcdef".toList[value]? = some c ∨ "0123456789ABCDEF".toList[value]? = some c

/-- Two hexadecimal digits, and the byte that they spell. -/
def HexByte (high low : Char) (byte : UInt8) : Prop :=
  ∃ h l, HexDigit high h ∧ HexDigit low l ∧ byte.toNat = 16 * h + l

/-- Two hexadecimal digits, or one behind a plus sign, and the byte that they are read as. -/
def PairByte (high low : Char) (byte : UInt8) : Prop :=
  HexByte high low byte ∨ high = '+' ∧ HexDigit low byte.toNat

/-- Three pairs of characters, and what each of them spells. -/
def ThreePairs (pair : Char → Char → UInt8 → Prop) (digits : List Char) (r g b : UInt8) : Prop :=
  ∃ r₁ r₂ g₁ g₂ b₁ b₂, digits = [r₁, r₂, g₁, g₂, b₁, b₂] ∧
    pair r₁ r₂ r ∧ pair g₁ g₂ g ∧ pair b₁ b₂ b

/-- Six bytes that cannot be cut into three pairs. -/
def SplitsCharacter (digits : List Char) : Prop :=
  (String.ofList digits).utf8ByteSize = 6 ∧
    ¬ (String.Pos.Raw.IsValid (String.ofList digits) ⟨2⟩ ∧
      String.Pos.Raw.IsValid (String.ofList digits) ⟨4⟩)

variable {c high low : Char} {value : Nat} {byte r g b : UInt8} {pair digits : List Char}
  {color : Color}

/-! ### Digits -/

/-- What holds of the sixteen digits in both cases holds of every digit. -/
theorem HexDigit.of_sixteen (property : Char → Nat → Prop)
    (lower : ∀ digit ∈ "0123456789abcdef".toList.zipIdx, property digit.1 digit.2)
    (upper : ∀ digit ∈ "0123456789ABCDEF".toList.zipIdx, property digit.1 digit.2)
    (h : HexDigit c value) : property c value := by
  rcases h with h | h
  · exact lower (c, value) (List.mem_zipIdx_iff_getElem?.mpr h)
  · exact upper (c, value) (List.mem_zipIdx_iff_getElem?.mpr h)

theorem HexDigit.lt (h : HexDigit c value) : value < 16 :=
  h.of_sixteen (fun _ n => n < 16) (by decide) (by decide)

theorem HexDigit.utf8Size (h : HexDigit c value) : c.utf8Size = 1 :=
  h.of_sixteen (fun c _ => c.utf8Size = 1) (by decide) (by decide)

theorem hexDigit?_of_hexDigit (h : HexDigit c value) : hexDigit? c = some value :=
  h.of_sixteen (fun c n => hexDigit? c = some n) (by decide) (by decide)

theorem lt_of_hexDigit? (h : hexDigit? c = some value) : c.toNat < 128 := by
  have between {high : Char} (low : high.toNat < 128) (within : c ≤ high) : c.toNat < 128 :=
    Nat.lt_of_le_of_lt within low
  unfold hexDigit? at h
  split at h
  · rename_i within
    exact between (by decide) within.2
  · split at h
    · rename_i within
      exact between (by decide) within.2
    · split at h
      · rename_i within
        exact between (by decide) within.2
      · cases h

theorem hexDigit_of_hexDigit? (h : hexDigit? c = some value) : HexDigit c value := by
  -- Digits are ASCII, so there are few characters to be tried.
  have all : ∀ n < 128, ∀ value ∈ hexDigit? (Char.ofNat n),
      "0123456789abcdef".toList[value]? = some (Char.ofNat n) ∨
        "0123456789ABCDEF".toList[value]? = some (Char.ofNat n) := by decide +kernel
  have here := all c.toNat (lt_of_hexDigit? h)
  rw [Char.ofNat_toNat] at here
  exact here value h

theorem not_hexDigit_plus : ¬ HexDigit '+' value := by
  intro h
  cases hexDigit?_of_hexDigit h

/-! ### Pairs -/

theorem hexPair?_of_pairByte (h : PairByte high low byte) :
    hexPair? [high, low] = some byte := by
  rcases h with ⟨h, l, first, second, spelled⟩ | ⟨rfl, digit⟩
  · -- The first digit is no sign, so that the pair is not taken for a signed digit.
    rw [hexPair?, hexDigit?_of_hexDigit first, hexDigit?_of_hexDigit second]
    · show some (UInt8.ofNat (16 * h + l)) = some byte
      rw [← spelled, UInt8.ofNat_toNat]
    · rintro rfl
      exact not_hexDigit_plus first
  · simp only [hexPair?, hexDigit?_of_hexDigit digit, Option.map_some, UInt8.ofNat_toNat]

theorem pairByte_of_hexPair? (h : hexPair? pair = some byte) :
    ∃ high low, pair = [high, low] ∧ PairByte high low byte := by
  unfold hexPair? at h
  split at h
  · rename_i low
    obtain ⟨value, found, rfl⟩ := Option.map_eq_some_iff.mp h
    have digit := hexDigit_of_hexDigit? found
    have small : (UInt8.ofNat value).toNat = value :=
      UInt8.toNat_ofNat_of_lt' (digit.lt.trans (by decide))
    exact ⟨'+', low, rfl, .inr ⟨rfl, small.symm ▸ digit⟩⟩
  · rename_i high low _
    split at h
    · rename_i h' l first second
      cases h
      have digit := hexDigit_of_hexDigit? first
      have digit' := hexDigit_of_hexDigit? second
      -- Two digits do not wrap.
      have byte : 16 * h' + l < UInt8.size := by
        have above := digit.lt
        have above' := digit'.lt
        rw [UInt8.size]
        omega
      exact ⟨high, low, rfl, .inl ⟨h', l, digit, digit', UInt8.toNat_ofNat_of_lt' byte⟩⟩
    · cases h
  · cases h

theorem PairByte.utf8Len (h : PairByte high low byte) : utf8Len [high, low] = 2 := by
  rcases h with ⟨_, _, first, second, -⟩ | ⟨rfl, digit⟩
  · simp [first.utf8Size, second.utf8Size]
  · have sign : '+'.utf8Size = 1 := rfl
    simp [digit.utf8Size, sign]

/-- Without a plus sign a pair is two digits. -/
theorem pairByte_iff_of_ne (other : high ≠ '+') : PairByte high low byte ↔ HexByte high low byte :=
  ⟨fun h => h.resolve_right fun plus => other plus.1, .inl⟩

/-- Three pairs without a plus sign are six digits. -/
theorem threePairs_iff_of_no_plus (none : '+' ∉ digits) :
    ThreePairs PairByte digits r g b ↔ ThreePairs HexByte digits r g b := by
  constructor
  · rintro ⟨r₁, r₂, g₁, g₂, b₁, b₂, rfl, red, green, blue⟩
    have other {c : Char} (mem : c ∈ [r₁, r₂, g₁, g₂, b₁, b₂]) : c ≠ '+' :=
      fun plus => none (plus ▸ mem)
    exact ⟨r₁, r₂, g₁, g₂, b₁, b₂, rfl, (pairByte_iff_of_ne (other (by simp))).mp red,
      (pairByte_iff_of_ne (other (by simp))).mp green,
      (pairByte_iff_of_ne (other (by simp))).mp blue⟩
  · rintro ⟨r₁, r₂, g₁, g₂, b₁, b₂, rfl, red, green, blue⟩
    exact ⟨r₁, r₂, g₁, g₂, b₁, b₂, rfl, .inl red, .inl green, .inl blue⟩

/-! ### Cuts -/

/-- The second cut falls between characters if it does so in what is behind the first. -/
theorem isValid_four_iff {first rest : List Char} (counted : utf8Len first = 2) :
    String.Pos.Raw.IsValid (String.ofList (first ++ rest)) ⟨4⟩ ↔
      ∃ second third, splitBytes? 2 rest = some (second, third) := by
  have behind := Text.splitBytes?_add first rest 2
  rw [counted] at behind
  rw [← Text.exists_splitBytes?_iff, behind]
  constructor
  · rintro ⟨front, back, found⟩
    obtain ⟨⟨second, third⟩, found, -⟩ := Option.map_eq_some_iff.mp found
    exact ⟨second, third, found⟩
  · rintro ⟨second, third, found⟩
    exact ⟨first ++ second, third, by rw [found]; rfl⟩

/-- Reading fails only at six bytes that cannot be cut into pairs. -/
theorem ofHex?_eq_error_iff {fault : Fault} :
    ofHex? digits = .error fault ↔ SplitsCharacter digits := by
  unfold ofHex? SplitsCharacter
  by_cases size : (String.ofList digits).utf8ByteSize = 6
  · rw [if_neg (not_not.mpr size)]
    cases cut : splitBytes? 2 digits with
    | none =>
      have inside : ¬ String.Pos.Raw.IsValid (String.ofList digits) ⟨2⟩ := by
        simp [← Text.exists_splitBytes?_iff, cut]
      exact iff_of_true rfl ⟨size, fun valid => inside valid.1⟩
    | some parts =>
      obtain ⟨first, rest⟩ := parts
      have valid : String.Pos.Raw.IsValid (String.ofList digits) ⟨2⟩ :=
        Text.exists_splitBytes?_iff.mp ⟨first, rest, cut⟩
      obtain ⟨rfl, counted⟩ := Text.append_of_splitBytes? cut
      simp only [isValid_four_iff counted, valid, true_and, size]
      cases cut' : splitBytes? 2 rest with
      | none => simp
      | some parts =>
        obtain ⟨second, third⟩ := parts
        refine iff_of_false ?_ (by simp)
        simp only
        split <;> simp
  · rw [if_pos size]
    exact iff_of_false (by simp) fun splits => size splits.1

theorem threePairs_of_ofHex? (h : ofHex? digits = .ok (some color)) :
    ∃ r g b, color = rgb r g b ∧ ThreePairs PairByte digits r g b := by
  unfold ofHex? at h
  split at h
  · cases h
  · split at h
    · cases h
    · rename_i first rest cut
      split at h
      · cases h
      · rename_i second third cut'
        split at h
        · rename_i r g b readRed readGreen readBlue
          cases h
          obtain ⟨rfl, -⟩ := Text.append_of_splitBytes? cut
          obtain ⟨rfl, -⟩ := Text.append_of_splitBytes? cut'
          obtain ⟨r₁, r₂, rfl, red⟩ := pairByte_of_hexPair? readRed
          obtain ⟨g₁, g₂, rfl, green⟩ := pairByte_of_hexPair? readGreen
          obtain ⟨b₁, b₂, rfl, blue⟩ := pairByte_of_hexPair? readBlue
          exact ⟨r, g, b, rfl, r₁, r₂, g₁, g₂, b₁, b₂, rfl, red, green, blue⟩
        · cases h

theorem ofHex?_of_threePairs (h : ThreePairs PairByte digits r g b) :
    ofHex? digits = .ok (some (rgb r g b)) := by
  obtain ⟨r₁, r₂, g₁, g₂, b₁, b₂, rfl, red, green, blue⟩ := h
  have size : (String.ofList [r₁, r₂, g₁, g₂, b₁, b₂]).utf8ByteSize = 6 := by
    have whole : utf8Len ([r₁, r₂] ++ ([g₁, g₂] ++ [b₁, b₂])) = 6 := by
      rw [String.utf8Len_append, String.utf8Len_append, red.utf8Len, green.utf8Len, blue.utf8Len]
    rw [String.utf8ByteSize_ofList]
    exact whole
  have first : splitBytes? 2 [r₁, r₂, g₁, g₂, b₁, b₂] = some ([r₁, r₂], [g₁, g₂, b₁, b₂]) :=
    red.utf8Len ▸ Text.splitBytes?_append [r₁, r₂] [g₁, g₂, b₁, b₂]
  have second : splitBytes? 2 [g₁, g₂, b₁, b₂] = some ([g₁, g₂], [b₁, b₂]) :=
    green.utf8Len ▸ Text.splitBytes?_append [g₁, g₂] [b₁, b₂]
  simp only [ofHex?, size, first, second, hexPair?_of_pairByte red, hexPair?_of_pairByte green,
    hexPair?_of_pairByte blue, ne_eq, not_true_eq_false, if_false]

/-- Six bytes are a color if they are three pairs. -/
theorem ofHex?_eq_some_iff :
    ofHex? digits = .ok (some color) ↔
      ∃ r g b, color = rgb r g b ∧ ThreePairs PairByte digits r g b := by
  constructor
  · exact threePairs_of_ofHex?
  · rintro ⟨r, g, b, rfl, pairs⟩
    exact ofHex?_of_threePairs pairs

end Brainfuck.Color
