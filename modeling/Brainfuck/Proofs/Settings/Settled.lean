import Brainfuck.Settings
import Brainfuck.Proofs.Color.Hexadecimal

/-!
# What assignments come to

Only the value that a key was given last is looked at. If none of the colors among these splits a
character, the settings are as `settled` says: for each key what its value stands for, or what is
usual if it stands for nothing.
-/

namespace Brainfuck

/-- The key of the color for a tone. -/
def Tone.key : Tone → String
  | .stopEvent => "stop_event"
  | .finished => "finished"
  | .warning => "warning"
  | .error => "error"
  | .pointerCell => "pointer_cell"

/-- The palette with a given color for each tone. -/
def Palette.ofColors (color : Tone → Color) : Palette where
  stopEvent := color .stopEvent
  finished := color .finished
  warning := color .warning
  error := color .error
  pointerCell := color .pointerCell

@[simp] theorem Palette.color_ofColors (color : Tone → Color) (tone : Tone) :
    (ofColors color).color tone = color tone := by
  cases tone <;> rfl

namespace Settings

/-- The color that a value stands for. One that splits a character stands for none. -/
def colorOf? (value : String) : Option Color :=
  (readColor value).toOption.join

/-- A value has six bytes behind its `#`, and these cannot be cut into pairs. -/
def SplitsCharacter (value : String) : Prop :=
  ∃ digits, Text.trim value.toList = '#' :: digits ∧ Color.SplitsCharacter digits

/-- A color was given a value last that cannot be cut. -/
def Unreadable (given : List Assignment) : Prop :=
  ∃ tone value, lastValue? given "colors" (Tone.key tone) = some value ∧ SplitsCharacter value

/-- What the values come to that keys were given last. This does not fail: a color that splits a
character counts as none. -/
def settled (given : List Assignment) : Settings where
  prompt := (lastValue? given "shell" "prompt").getD ({} : Settings).prompt
  window := {
    before := ((lastValue? given "shell" "tape_before").bind Text.Numeral.integer?).getD
      ({} : Window).before
    width := ((lastValue? given "shell" "tape_width").bind Text.Numeral.count?).getD
      ({} : Window).width }
  palette := .ofColors fun tone =>
    ((lastValue? given "colors" tone.key).bind colorOf?).getD (({} : Palette).color tone)

variable {given : List Assignment} {key value : String} {color : Color}

/-! ### Colors -/

theorem readColor_eq_error_iff {fault : Color.Fault} :
    readColor value = .error fault ↔ SplitsCharacter value := by
  unfold readColor SplitsCharacter
  split
  · rename_i digits hash
    simp [hash, Color.ofHex?_eq_error_iff]
  · rename_i word other
    refine iff_of_false (by simp) ?_
    rintro ⟨digits, hash, -⟩
    exact other digits hash

theorem readColor_of_not_splits (h : ¬ SplitsCharacter value) :
    readColor value = .ok (colorOf? value) := by
  rw [colorOf?]
  cases read : readColor value with
  | error fault => exact absurd (readColor_eq_error_iff.mp read) h
  | ok found => rfl

theorem colorOf?_eq_some_iff :
    colorOf? value = some color ↔ readColor value = .ok (some color) := by
  rw [colorOf?]
  cases readColor value with
  | error fault => simp [Except.toOption]
  | ok found => simp [Except.toOption]

theorem colorOr_of_not_splits (key : String) (otherwise : Color)
    (readable : ∀ value, lastValue? given "colors" key = some value → ¬ SplitsCharacter value) :
    colorOr given key otherwise =
      .ok (((lastValue? given "colors" key).bind colorOf?).getD otherwise) := by
  unfold colorOr
  cases last : lastValue? given "colors" key with
  | none => rfl
  | some value => simp [readColor_of_not_splits (readable value last), Except.map]

theorem colorOr_of_splits (otherwise : Color) (last : lastValue? given "colors" key = some value)
    (splits : SplitsCharacter value) : colorOr given key otherwise = .error .splitCharacter := by
  have fails : readColor value = .error .splitCharacter := readColor_eq_error_iff.mpr splits
  simp [colorOr, last, fails, Except.map]

/-! ### Settings -/

/-- What is read where every color can be cut. -/
theorem ofAssignments_of_readable (readable : ¬ Unreadable given) :
    ofAssignments given = .ok (settled given) := by
  have color (tone : Tone) (otherwise : Color) := colorOr_of_not_splits tone.key otherwise
    fun value last splits => readable ⟨tone, value, last, splits⟩
  simp only [Tone.key] at color
  rw [ofAssignments, color .stopEvent, color .finished, color .warning, color .error,
    color .pointerCell]
  rfl

theorem exists_of_bind_eq_ok {α β : Type} {first : Except Color.Fault α}
    {next : α → Except Color.Fault β} {result : β} (h : first >>= next = .ok result) :
    ∃ found, first = .ok found ∧ next found = .ok result := by
  cases first with
  | error fault => cases h
  | ok found => exact ⟨found, rfl, h⟩

/-- Where there are settings, every color could be cut. -/
theorem readable_of_ofAssignments {settings : Settings} (h : ofAssignments given = .ok settings) :
    ¬ Unreadable given := by
  rintro ⟨tone, value, last, splits⟩
  have fails (otherwise : Color) := colorOr_of_splits otherwise last splits
  -- The colors are read one after another, and all five of them were.
  obtain ⟨stopEvent, readStop, h⟩ := exists_of_bind_eq_ok h
  obtain ⟨finished, readFinished, h⟩ := exists_of_bind_eq_ok h
  obtain ⟨warning, readWarning, h⟩ := exists_of_bind_eq_ok h
  obtain ⟨error, readError, h⟩ := exists_of_bind_eq_ok h
  obtain ⟨pointerCell, readCell, -⟩ := exists_of_bind_eq_ok h
  cases tone with
  | stopEvent => cases readStop.symm.trans (fails _)
  | finished => cases readFinished.symm.trans (fails _)
  | warning => cases readWarning.symm.trans (fails _)
  | error => cases readError.symm.trans (fails _)
  | pointerCell => cases readCell.symm.trans (fails _)

theorem ofAssignments_of_unreadable (unreadable : Unreadable given) :
    ofAssignments given = .error .splitCharacter := by
  cases read : ofAssignments given with
  | error fault => rfl
  | ok settings => exact absurd unreadable (readable_of_ofAssignments read)

theorem ofAssignments_eq_ok_iff {settings : Settings} :
    ofAssignments given = .ok settings ↔ ¬ Unreadable given ∧ settings = settled given := by
  constructor
  · intro read
    have readable := readable_of_ofAssignments read
    rw [ofAssignments_of_readable readable] at read
    exact ⟨readable, (Except.ok.inj read).symm⟩
  · rintro ⟨readable, rfl⟩
    exact ofAssignments_of_readable readable

/-! ### Evaluation -/

theorem ofText_of_toOption {text : String} {settings : Settings}
    (h : (ofText text).toOption = some settings) : ofText text = .ok settings := by
  cases read : ofText text with
  | error fault => simp [read, Except.toOption] at h
  | ok found =>
    rw [read] at h
    exact congrArg Except.ok (Option.some.inj h)

theorem ofText_of_toOption_eq_none {text : String} (h : (ofText text).toOption = none) :
    ofText text = .error .splitCharacter := by
  cases read : ofText text with
  | error fault => rfl
  | ok found => simp [read, Except.toOption] at h

end Settings

end Brainfuck
