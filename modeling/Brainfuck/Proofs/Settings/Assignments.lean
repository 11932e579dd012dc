import Brainfuck.Proofs.Settings.Settled
import Brainfuck.Proofs.Text.Numerals

/-!
# The assignments of a text

Lines assign values to keys under the last heading before them. Of the values that a key is given
the last one counts. An assignment is `Understood` if its section and its key are known and its
value can be read.
-/

namespace Brainfuck.Settings

/-- The section that is open behind some lines. -/
def sectionAfter (sectionName : String) (lines : List (List Char)) : String :=
  lines.foldl (fun open_ line => match readLine line with
    | .heading name => name
    | _ => open_) sectionName

/-- The assignments to other keys than that of a given one. -/
def others (given : List Assignment) (sectionName key : String) : List Assignment :=
  given.filter fun a => ¬ (a.sectionName = sectionName ∧ a.key = key)

/-- An assignment to a known key of a known section, with a value that can be read. -/
inductive Understood : Assignment → Prop
  | prompt (value : String) : Understood ⟨"shell", "prompt", value⟩
  | before {value : String} {z : Int} (number : Text.Numeral.IsInteger value z) :
      Understood ⟨"shell", "tape_before", value⟩
  | width {value : String} {n : Nat} (number : Text.Numeral.IsCount value n) :
      Understood ⟨"shell", "tape_width", value⟩
  | color (tone : Tone) {value : String} {color : Color}
      (read : readColor value = .ok (some color)) : Understood ⟨"colors", tone.key, value⟩

variable {given earlier later : List Assignment} {a : Assignment} {sectionName key : String}

/-! ### What is understood -/

theorem Understood.exists_count {value : String} (h : Understood ⟨"shell", "tape_width", value⟩) :
    ∃ n, Text.Numeral.IsCount value n := by
  generalize same : (⟨"shell", "tape_width", value⟩ : Assignment) = a at h
  cases h with
  | width number =>
    cases same
    exact ⟨_, number⟩
  | prompt | before | color => simp at same

theorem Understood.exists_color (tone : Tone) {value : String}
    (h : Understood ⟨"colors", tone.key, value⟩) : ∃ color, readColor value = .ok (some color) := by
  generalize same : (⟨"colors", tone.key, value⟩ : Assignment) = a at h
  cases h with
  | color _ read =>
    obtain ⟨-, -, rfl⟩ := Assignment.mk.inj same
    exact ⟨_, read⟩
  | prompt | before | width => simp at same

/-! ### Sections -/

theorem assignmentsUnder_append (sectionName : String) (before after : List (List Char)) :
    assignmentsUnder sectionName (before ++ after) =
      assignmentsUnder sectionName before ++
        assignmentsUnder (sectionAfter sectionName before) after := by
  induction before generalizing sectionName with
  | nil => rfl
  | cons line before ih =>
    simp only [List.cons_append, assignmentsUnder, sectionAfter, List.foldl_cons]
    cases readLine line with
    | heading name => exact ih name
    | assignment key value => exact congrArg (_ :: ·) (ih sectionName)
    | other => exact ih sectionName

/-- A line that assigns a value does so in the section that is open there. -/
theorem assignmentsUnder_assignment {line : List Char} {key value : String}
    (assigns : readLine line = .assignment key value) (sectionName : String)
    (before after : List (List Char)) :
    assignmentsUnder sectionName (before ++ line :: after) =
      assignmentsUnder sectionName before ++ ⟨sectionAfter sectionName before, key, value⟩ ::
        assignmentsUnder (sectionAfter sectionName before) after := by
  rw [assignmentsUnder_append, assignmentsUnder, assigns]

/-! ### Last values -/

theorem lastValue?_append (earlier later : List Assignment) (sectionName key : String) :
    lastValue? (earlier ++ later) sectionName key =
      (lastValue? later sectionName key).or (lastValue? earlier sectionName key) := by
  rw [lastValue?, List.reverse_append, List.find?_append, Option.map_or]
  rfl

theorem lastValue?_singleton_self (a : Assignment) :
    lastValue? [a] a.sectionName a.key = some a.value := by
  simp [lastValue?]

theorem lastValue?_singleton_other (other : ¬ (a.sectionName = sectionName ∧ a.key = key)) :
    lastValue? [a] sectionName key = none := by
  simpa [lastValue?] using other

/-- An assignment is looked at only behind the later ones. -/
theorem lastValue?_append_cons (earlier later : List Assignment) (a : Assignment)
    (sectionName key : String) :
    lastValue? (earlier ++ a :: later) sectionName key =
      (lastValue? later sectionName key).or
        ((lastValue? [a] sectionName key).or (lastValue? earlier sectionName key)) := by
  rw [lastValue?_append, ← List.singleton_append, lastValue?_append, Option.or_assoc]

theorem lastValue?_eq_none_iff :
    lastValue? given sectionName key = none ↔
      ∀ a ∈ given, ¬ (a.sectionName = sectionName ∧ a.key = key) := by
  simp [lastValue?]

theorem lastValue?_others_self (given : List Assignment) (sectionName key : String) :
    lastValue? (others given sectionName key) sectionName key = none := by
  rw [lastValue?_eq_none_iff]
  intro a mem
  have kept := List.of_mem_filter mem
  rwa [decide_eq_true_eq] at kept

/-- A key keeps its last value when another is left out. -/
theorem lastValue?_others {sectionName' key' : String}
    (other : ¬ (sectionName = sectionName' ∧ key = key')) (given : List Assignment) :
    lastValue? (others given sectionName key) sectionName' key' =
      lastValue? given sectionName' key' := by
  have same (a : Assignment) :
      decide (decide (¬ (a.sectionName = sectionName ∧ a.key = key)) = true ∧
        (a.sectionName == sectionName' && a.key == key') = true) =
      (a.sectionName == sectionName' && a.key == key') := by
    rw [Bool.eq_iff_iff, decide_eq_true_eq, and_iff_right_iff_imp]
    simp only [Bool.and_eq_true, beq_iff_eq, decide_eq_true_eq]
    rintro ⟨rfl, rfl⟩ ⟨rfl, rfl⟩
    exact other ⟨rfl, rfl⟩
  simp only [lastValue?, others, ← List.filter_reverse, List.find?_filter, same]

end Brainfuck.Settings
