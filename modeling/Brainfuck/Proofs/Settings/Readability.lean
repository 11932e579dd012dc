import Brainfuck.Proofs.Settings.Settled
import Mathlib.Data.List.TakeWhile

/-!
# Which texts can be read

Names, keys and values are cut out of a line by numbers of bytes. They are cut at blanks, brackets,
equals signs and quotation marks, and so never inside a character: `readByBytes?_eq`. The pairs of a
color are cut wherever they are, and that is the only way in which a text cannot be read:
`read_unless_color_splits`. Which pairs are a color then is said by `hash_value_exact`.
-/

namespace Brainfuck.Settings

open String (utf8Len)

/-- A value without quotation marks, which are cut off by bytes. -/
def unquoteByBytes? (value : List Char) : Option (List Char) :=
  if value.head? = some '"' ∧ value.getLast? = some '"' ∧ 2 ≤ utf8Len value then Text.inside? value
  else some value

/-- Reads a line and cuts its parts out by bytes. Nothing is read if a cut falls inside a
character. -/
def readByBytes? (raw : List Char) : Option Line :=
  let line := Text.trim raw
  let sign := utf8Len (line.takeWhile (· != '='))
  if line.head? = some '#' then some .other
  else if line.head? = some '[' ∧ line.getLast? = some ']' then
    (Text.inside? line).map fun name => .heading (String.ofList (Text.trim name))
  else if '=' ∈ line then do
    let key ← Text.slice? 0 sign line
    let value ← Text.slice? (sign + 1) (utf8Len line) line
    let bare ← unquoteByBytes? (Text.trim value)
    return .assignment (String.ofList (Text.trim key)) (String.ofList bare)
  else some .other

variable {line value text : List Char} {first last : Char}

/-! ### Lines -/

theorem exists_between (opening : text.head? = some first) (closing : text.getLast? = some last)
    (two : text ≠ [first]) : ∃ inner, text = first :: inner ++ [last] := by
  cases text with
  | nil => cases opening
  | cons c rest =>
    obtain rfl : c = first := by simpa using opening
    obtain ⟨inner, rfl⟩ | rfl : (∃ inner, rest = inner ++ [last]) ∨ rest = [] := by
      rcases List.eq_nil_or_concat' rest with rfl | ⟨inner, d, rfl⟩
      · exact .inr rfl
      · refine .inl ⟨inner, ?_⟩
        rw [← List.cons_append, List.getLast?_concat] at closing
        rw [Option.some.inj closing]
    · exact ⟨inner, rfl⟩
    · contradiction

theorem heading?_eq (name : List Char) : heading? ('[' :: name ++ [']']) = some name := by
  simp [heading?]

theorem heading?_eq_none (other : ¬ (line.head? = some '[' ∧ line.getLast? = some ']')) :
    heading? line = none := by
  unfold heading?
  split
  · rename_i rest
    refine if_neg fun closing => other ⟨rfl, ?_⟩
    rw [List.getLast?_cons, closing]
    rfl
  · rfl

theorem unquote_eq (inner : List Char) : unquote ('"' :: inner ++ ['"']) = inner := by
  simp [unquote]

theorem unquote_eq_self
    (other : ¬ (value.head? = some '"' ∧ value.getLast? = some '"' ∧ 2 ≤ utf8Len value)) :
    unquote value = value := by
  unfold unquote
  split
  · rename_i rest
    refine if_neg fun closing => other ⟨rfl, ?_, ?_⟩
    · rw [List.getLast?_cons, closing]
      rfl
    · obtain ⟨inner, rfl⟩ := List.getLast?_eq_some_iff.mp closing
      have mark : '"'.utf8Size = 1 := rfl
      simp [mark]
  · rfl

/-- The quotation marks are cut off between characters. -/
theorem unquoteByBytes?_eq (value : List Char) : unquoteByBytes? value = some (unquote value) := by
  unfold unquoteByBytes?
  split
  · rename_i quoted
    obtain ⟨opening, closing, two⟩ := quoted
    have more : value ≠ ['"'] := by
      rintro rfl
      exact absurd two (by decide)
    obtain ⟨inner, rfl⟩ := exists_between opening closing more
    rw [unquote_eq]
    exact Text.inside?_eq rfl rfl inner
  · rename_i other
    rw [unquote_eq_self other]

/-- The parts of a line are cut out between characters. -/
theorem readByBytes?_eq (raw : List Char) : readByBytes? raw = some (readLine raw) := by
  simp only [readByBytes?, readLine]
  generalize Text.trim raw = line
  by_cases comment : line.head? = some '#'
  · rw [if_pos comment, if_pos comment]
  · rw [if_neg comment, if_neg comment]
    by_cases heading : line.head? = some '[' ∧ line.getLast? = some ']'
    · have more : line ≠ ['['] := by
        rintro rfl
        exact absurd heading.2 (by decide)
      obtain ⟨name, rfl⟩ := exists_between heading.1 heading.2 more
      rw [if_pos heading, Text.inside?_eq rfl rfl, heading?_eq]
      rfl
    · rw [if_neg heading, heading?_eq_none heading]
      have whole := List.takeWhile_append_dropWhile (p := (· != '=')) (l := line)
      have stops := List.head?_dropWhile_not (· != '=') line
      cases behind : line.dropWhile (· != '=') with
      | nil =>
        have none : '=' ∉ line := fun mem => by
          simpa using List.dropWhile_eq_nil_iff.mp behind '=' mem
        rw [if_neg none]
      | cons c rest =>
        rw [behind] at whole stops
        obtain rfl : c = '=' := by simpa using stops
        -- The sign takes one byte, so that the value begins between characters too.
        generalize line.takeWhile (· != '=') = key at whole ⊢
        subst whole
        have key' : Text.slice? 0 (utf8Len key) (key ++ '=' :: rest) = some key :=
          Text.slice?_append [] key ('=' :: rest)
        have value' : Text.slice? (utf8Len key + 1) (utf8Len (key ++ '=' :: rest))
            (key ++ '=' :: rest) = some rest := by
          have sign : '='.utf8Size = 1 := rfl
          have cut := Text.slice?_of_append (key ++ ['=']) rest
          simpa [sign] using cut
        rw [if_pos (by simp), key', value']
        simp [unquoteByBytes?_eq]

/-! ### Texts -/

/-- Every cut in a line falls between characters. So a text can be read unless one of the colors
that were given last splits a character, and then each color is what its value stands for, or what
is usual if it stands for none. -/
theorem read_unless_color_splits (text : String) :
    (Text.lines text.toList).mapM readByBytes? = some ((Text.lines text.toList).map readLine) ∧
      (Unreadable (assignments text) ∧ ofText text = .error .splitCharacter ∨
        ¬ Unreadable (assignments text) ∧ ∃ settings, ofText text = .ok settings ∧
          ∀ tone, settings.palette.color tone =
            ((lastValue? (assignments text) "colors" tone.key).bind colorOf?).getD
              (({} : Palette).color tone)) := by
  constructor
  · induction Text.lines text.toList with
    | nil => rfl
    | cons line others ih => simp [List.mapM_cons, readByBytes?_eq, ih]
  · by_cases unreadable : Unreadable (assignments text)
    · exact .inl ⟨unreadable, ofAssignments_of_unreadable unreadable⟩
    · refine .inr ⟨unreadable, settled _, ofAssignments_of_readable unreadable, fun tone => ?_⟩
      exact Palette.color_ofColors _ tone

/-- The second of the six bytes is the first of `é`. -/
theorem color_with_accent_cannot_be_read :
    ofText "[colors]\nstop_event = #aéabc\n" = .error .splitCharacter ∧
      ¬ ∃ settings, ofText "[colors]\nstop_event = #aéabc\n" = .ok settings := by
  have fails : ofText "[colors]\nstop_event = #aéabc\n" = .error .splitCharacter :=
    ofText_of_toOption_eq_none (by decide +kernel)
  refine ⟨fails, ?_⟩
  rintro ⟨settings, read⟩
  cases fails.symm.trans read

/-! ### Colors behind a hash -/

/-- Behind a `#` exactly three pairs are a color, and these are six hexadecimal digits unless there
is a plus sign among them. Any other value leaves the usual color in its place. -/
theorem hash_value_exact {value : String} {digits : List Char}
    (hash : Text.trim value.toList = '#' :: digits) :
    (∀ color, readColor value = .ok (some color) ↔
      ∃ r g b, color = .rgb r g b ∧ Color.ThreePairs Color.PairByte digits r g b) ∧
    ('+' ∉ digits → ∀ r g b,
      Color.ThreePairs Color.PairByte digits r g b ↔ Color.ThreePairs Color.HexByte digits r g b) ∧
    ∀ text settings tone, ofText text = .ok settings →
      lastValue? (assignments text) "colors" (Tone.key tone) = some value →
        (∀ r g b, Color.ThreePairs Color.PairByte digits r g b →
          settings.palette.color tone = .rgb r g b) ∧
        ((∀ r g b, ¬ Color.ThreePairs Color.PairByte digits r g b) →
          settings.palette.color tone = ({} : Palette).color tone) := by
  have accepted (color : Color) : readColor value = .ok (some color) ↔
      ∃ r g b, color = .rgb r g b ∧ Color.ThreePairs Color.PairByte digits r g b := by
    rw [readColor, hash]
    exact Color.ofHex?_eq_some_iff
  refine ⟨accepted, fun none r g b => Color.threePairs_iff_of_no_plus none, ?_⟩
  intro text settings tone read last
  obtain ⟨-, rfl⟩ := ofAssignments_eq_ok_iff.mp read
  have shown : (settled (assignments text)).palette.color tone =
      (colorOf? value).getD (({} : Palette).color tone) := by
    rw [settled, Palette.color_ofColors, last, Option.bind_some]
  constructor
  · intro r g b pairs
    have color := colorOf?_eq_some_iff.mpr ((accepted _).mpr ⟨r, g, b, rfl, pairs⟩)
    rw [shown, color, Option.getD_some]
  · intro others
    have none : colorOf? value = none := by
      cases found : colorOf? value with
      | none => rfl
      | some color =>
        obtain ⟨r, g, b, -, pairs⟩ := (accepted color).mp (colorOf?_eq_some_iff.mp found)
        exact absurd pairs (others r g b)
    rw [shown, none, Option.getD_none]

/-- Digits in both cases, in a quoted value with a blank. -/
theorem quoted_digits_are_orange :
    let text := "[colors]\nerror = \" #fF8000\"\n"
    let settings : Settings := { palette := { error := .rgb 255 128 0 } }
    Text.trim " #fF8000".toList = '#' :: "fF8000".toList ∧ '+' ∉ "fF8000".toList ∧
      Color.ThreePairs Color.HexByte "fF8000".toList 255 128 0 ∧ ofText text = .ok settings ∧
      lastValue? (assignments text) "colors" (Tone.key .error) = some " #fF8000" ∧
      settings.palette.color .error = .rgb 255 128 0 := by
  intro text settings
  have hash : Text.trim " #fF8000".toList = '#' :: "fF8000".toList := by decide +kernel
  have none : '+' ∉ "fF8000".toList := by decide
  have digits : Color.ThreePairs Color.HexByte "fF8000".toList 255 128 0 :=
    ⟨'f', 'F', '8', '0', '0', '0', rfl, ⟨15, 15, .inl rfl, .inr rfl, rfl⟩,
      ⟨8, 0, .inl rfl, .inl rfl, rfl⟩, ⟨0, 0, .inl rfl, .inl rfl, rfl⟩⟩
  have read : ofText text = .ok settings := ofText_of_toOption (by decide +kernel)
  have last : lastValue? (assignments text) "colors" (Tone.key .error) = some " #fF8000" := by
    decide +kernel
  obtain ⟨-, same, shown⟩ := hash_value_exact hash
  exact ⟨hash, none, digits, read, last,
    (shown text settings .error read last).1 255 128 0 ((same none _ _ _).mpr digits)⟩

/-- A sign is no hexadecimal digit, but is read in the place of one. -/
theorem signed_digits_are_a_color :
    readColor "#+1+2+3" = .ok (some (.rgb 1 2 3)) ∧
      (¬ ∃ r g b, Color.ThreePairs Color.HexByte "+1+2+3".toList r g b) ∧
      ofText "[colors]\nerror = #+1+2+3\n" = .ok { palette := { error := .rgb 1 2 3 } } := by
  refine ⟨colorOf?_eq_some_iff.mp (by decide +kernel), ?_,
    ofText_of_toOption (by decide +kernel)⟩
  rintro ⟨r, g, b, _, _, _, _, _, _, same, ⟨_, _, first, -⟩, -⟩
  cases same
  exact Color.not_hexDigit_plus first

end Brainfuck.Settings
