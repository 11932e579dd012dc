import Brainfuck.Proofs.Settings.Assignments
import Brainfuck.Proofs.Text.Place

/-!
# Assignments that are passed over

A line that assigns a value to an unknown key, or one that cannot be read, may be taken away, unless
it is the last for its key and the one before it for that key could be read: then the key is not
what that one says but what is usual. `ignored_line_leaves_settings` compares the settings of a text
and of the text without the line.
-/

namespace Brainfuck.Settings

/-- An assignment is the last to its key, and hides a value that could be read. -/
def Hides (earlier : List Assignment) (a : Assignment) (later : List Assignment) : Prop :=
  lastValue? later a.sectionName a.key = none ∧
    ∃ value, lastValue? earlier a.sectionName a.key = some value ∧
      Understood ⟨a.sectionName, a.key, value⟩

variable {given earlier later : List Assignment} {a : Assignment} {sectionName key : String}
  {β : Type} {read : String → Option β}

/-! ### What values are read as -/

/-- What cannot be understood is read as nothing. -/
theorem read_eq_none (sound : ∀ value found, read value = some found →
    Understood ⟨sectionName, key, value⟩) {value : String}
    (ignored : ¬ Understood ⟨sectionName, key, value⟩) : read value = none := by
  cases found : read value with
  | none => rfl
  | some found' => exact absurd (sound value found' found) ignored

/-- A value that is passed over and hides none is read as if it were not there. -/
theorem bind_lastValue?_of_not_hides (sound : ∀ value found, read value = some found →
    Understood ⟨sectionName, key, value⟩) (ignored : ¬ Understood a)
    (hides : ¬ Hides earlier a later) :
    (lastValue? (earlier ++ later) sectionName key).bind read =
      (lastValue? (earlier ++ a :: later) sectionName key).bind read := by
  rw [lastValue?_append, lastValue?_append_cons]
  by_cases same : a.sectionName = sectionName ∧ a.key = key
  · obtain ⟨rfl, rfl⟩ := same
    rw [lastValue?_singleton_self, Option.some_or]
    cases behind : lastValue? later a.sectionName a.key with
    | some value => rfl
    | none =>
      simp only [Option.none_or, Option.bind_some, read_eq_none sound ignored]
      refine Option.bind_eq_none_iff.mpr fun value before => read_eq_none sound fun understood => ?_
      exact hides ⟨behind, value, before, understood⟩
  · rw [lastValue?_singleton_other same, Option.none_or]

/-- A value that is passed over, and is the last, leaves its key as if it had never been given
any. -/
theorem bind_lastValue?_of_last (sound : ∀ value found, read value = some found →
    Understood ⟨sectionName, key, value⟩) (ignored : ¬ Understood a)
    (last : lastValue? later a.sectionName a.key = none) :
    (lastValue? (others (earlier ++ a :: later) a.sectionName a.key) sectionName key).bind read =
      (lastValue? (earlier ++ a :: later) sectionName key).bind read := by
  by_cases same : a.sectionName = sectionName ∧ a.key = key
  · obtain ⟨rfl, rfl⟩ := same
    rw [lastValue?_others_self, lastValue?_append_cons, last, Option.none_or,
      lastValue?_singleton_self, Option.some_or, Option.bind_some, read_eq_none sound ignored,
      Option.bind_none]
  · rw [lastValue?_others same]

/-! ### Settings -/

/-- The settings are the same if every known key is read alike. -/
theorem settled_congr {given' : List Assignment}
    (alike : ∀ (β : Type) (sectionName key : String) (read : String → Option β),
      (∀ value found, read value = some found → Understood ⟨sectionName, key, value⟩) →
        (lastValue? given sectionName key).bind read =
          (lastValue? given' sectionName key).bind read) :
    settled given = settled given' := by
  have prompt := alike String "shell" "prompt" some fun value _ _ => .prompt value
  have before := alike Int "shell" "tape_before" Text.Numeral.integer? fun value _ found =>
    .before (Text.Numeral.integer?_eq_some_iff.mp found)
  have width := alike Nat "shell" "tape_width" Text.Numeral.count? fun value _ found =>
    .width (Text.Numeral.count?_eq_some_iff.mp found)
  have color (tone : Tone) := alike Color "colors" tone.key colorOf? fun value _ found =>
    .color tone (colorOf?_eq_some_iff.mp found)
  rw [Option.bind_fun_some, Option.bind_fun_some] at prompt
  simp only [settled, prompt, before, width, color]

theorem settled_of_not_hides (ignored : ¬ Understood a) (hides : ¬ Hides earlier a later) :
    settled (earlier ++ later) = settled (earlier ++ a :: later) :=
  settled_congr fun _ _ _ _ sound => bind_lastValue?_of_not_hides sound ignored hides

theorem settled_of_last (ignored : ¬ Understood a)
    (last : lastValue? later a.sectionName a.key = none) :
    settled (others (earlier ++ a :: later) a.sectionName a.key) =
      settled (earlier ++ a :: later) :=
  settled_congr fun _ _ _ _ sound => bind_lastValue?_of_last sound ignored last

/-- Where all colors could be cut, they can be without those of one key. -/
theorem readable_others (readable : ¬ Unreadable given) (sectionName key : String) :
    ¬ Unreadable (others given sectionName key) := by
  rintro ⟨tone, value, last, splits⟩
  by_cases same : sectionName = "colors" ∧ key = tone.key
  · obtain ⟨rfl, rfl⟩ := same
    rw [lastValue?_others_self] at last
    cases last
  · rw [lastValue?_others same] at last
    exact readable ⟨tone, value, last, splits⟩

/-! ### Lines taken away -/

/-- The settings are the same without a line that is passed over: always if its key or its section
is unknown, and otherwise unless it hides a value. If it does, its key is as if no line had been
about it. -/
theorem ignored_line_leaves_settings {text : String} {before after : List (List Char)}
    {line : List Char} {key value : String} {settings settings' : Settings}
    (lines : Text.lines text.toList = before ++ line :: after)
    (assigns : readLine line = .assignment key value)
    (ignored : ¬ Understood ⟨sectionAfter "" before, key, value⟩)
    (read : ofText text = .ok settings)
    (read' : ofText (String.ofList (before.flatten ++ after.flatten)) = .ok settings') :
    let sectionName := sectionAfter "" before
    let earlier := assignmentsUnder "" before
    let later := assignmentsUnder sectionName after
    ((∀ other, ¬ Understood ⟨sectionName, key, other⟩) → settings' = settings) ∧
      (¬ Hides earlier ⟨sectionName, key, value⟩ later → settings' = settings) ∧
      (Hides earlier ⟨sectionName, key, value⟩ later →
        ofAssignments (others (assignments text) sectionName key) = .ok settings) := by
  intro sectionName earlier later
  have given : assignments text = earlier ++ ⟨sectionName, key, value⟩ :: later := by
    rw [assignments, lines]
    exact assignmentsUnder_assignment assigns "" before after
  -- No heading is taken away, so that what follows stays in its section.
  have given' : assignments (String.ofList (before.flatten ++ after.flatten)) =
      earlier ++ later := by
    rw [assignments, String.toList_ofList, Text.lines_without lines]
    exact assignmentsUnder_append "" before after
  rw [ofText, given, ofAssignments_eq_ok_iff] at read
  rw [ofText, given', ofAssignments_eq_ok_iff] at read'
  obtain ⟨readable, rfl⟩ := read
  obtain ⟨-, rfl⟩ := read'
  refine ⟨fun unknown => settled_of_not_hides ignored ?_, settled_of_not_hides ignored,
    fun hides => ?_⟩
  · rintro ⟨-, other, -, understood⟩
    exact unknown other understood
  rw [given, ofAssignments_of_readable (readable_others readable sectionName key)]
  exact congrArg Except.ok (settled_of_last ignored hides.1)

/-- A width that is no number stands between two that are. -/
theorem width_in_words_leaves_settings :
    let text := "[shell]\ntape_width = 8\n tape_width= wide\ntape_width = 9"
    let before := ["[shell]\n".toList, "tape_width = 8\n".toList]
    let line := " tape_width= wide\n".toList
    let after := ["tape_width = 9".toList]
    let settings : Settings := { window := { width := 9 } }
    Text.lines text.toList = before ++ line :: after ∧
      readLine line = .assignment "tape_width" "wide" ∧
      ¬ Understood ⟨sectionAfter "" before, "tape_width", "wide"⟩ ∧
      ¬ Hides (assignmentsUnder "" before) ⟨sectionAfter "" before, "tape_width", "wide"⟩
          (assignmentsUnder (sectionAfter "" before) after) ∧
      ofText text = .ok settings ∧
      ∃ settings', ofText (String.ofList (before.flatten ++ after.flatten)) = .ok settings' ∧
        settings' = settings := by
  intro text before line after settings
  have lines : Text.lines text.toList = before ++ line :: after := by decide +kernel
  have assigns : readLine line = .assignment "tape_width" "wide" := by decide +kernel
  have shell : sectionAfter "" before = "shell" := by decide +kernel
  have ignored : ¬ Understood ⟨sectionAfter "" before, "tape_width", "wide"⟩ := by
    rw [shell]
    intro understood
    obtain ⟨n, number⟩ := understood.exists_count
    have none : Text.Numeral.count? "wide" = none := by decide +kernel
    cases none.symm.trans (Text.Numeral.count?_eq_some_iff.mpr number)
  have hides : ¬ Hides (assignmentsUnder "" before) ⟨sectionAfter "" before, "tape_width", "wide"⟩
      (assignmentsUnder (sectionAfter "" before) after) := by
    rintro ⟨last, -⟩
    exact absurd last (by decide +kernel)
  have read : ofText text = .ok settings := ofText_of_toOption (by decide +kernel)
  have read' : ofText (String.ofList (before.flatten ++ after.flatten)) =
      .ok { window := { width := 9 } } := ofText_of_toOption (by decide +kernel)
  have same := (ignored_line_leaves_settings lines assigns ignored read read').2.1 hides
  exact ⟨lines, assigns, ignored, hides, read, _, read', same⟩

/-- The last color is none. It hides the one before it, so that the color is the usual one; without
its line the color is blue. -/
theorem unknown_color_hides_blue :
    let text := "[colors]\nerror = blue\nerror = bluish\n"
    let before := ["[colors]\n".toList, "error = blue\n".toList]
    let line := "error = bluish\n".toList
    let settings : Settings := {}
    let settings' : Settings := { palette := { error := .blue } }
    Text.lines text.toList = before ++ line :: [] ∧
      readLine line = .assignment "error" "bluish" ∧
      ¬ Understood ⟨sectionAfter "" before, "error", "bluish"⟩ ∧
      ofText text = .ok settings ∧
      ofText (String.ofList (before.flatten ++ ([] : List (List Char)).flatten)) = .ok settings' ∧
      settings' ≠ settings := by
  intro text before line settings settings'
  have colors : sectionAfter "" before = "colors" := by decide +kernel
  have ignored : ¬ Understood ⟨sectionAfter "" before, "error", "bluish"⟩ := by
    rw [colors]
    intro understood
    obtain ⟨color, read⟩ := Understood.exists_color .error understood
    have none : colorOf? "bluish" = none := by decide +kernel
    cases none.symm.trans (colorOf?_eq_some_iff.mpr read)
  exact ⟨by decide +kernel, by decide +kernel, ignored, ofText_of_toOption (by decide +kernel),
    ofText_of_toOption (by decide +kernel), by decide⟩

end Brainfuck.Settings
