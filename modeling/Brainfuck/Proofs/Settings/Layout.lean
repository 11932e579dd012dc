import Brainfuck.Proofs.Settings.Assignments
import Brainfuck.Proofs.Settings.Lines
import Mathlib.Logic.Relation

/-!
# The layout of a settings text

The settings of a text are made from the values that each key of each section is given, one after
the other; where in the text that is done makes no difference, and neither does how it is written.
`Change` lists what can be done to the lines of a text that leaves these values alone, and
`layout_leaves_settings` says that texts which come from each other by such changes, and all texts
with the same values, have the same settings.
-/

namespace Brainfuck.Settings

/-- The values that a key of a section is given, in their order. -/
def valuesOf (given : List Assignment) (sectionName key : String) : List String :=
  (given.filter fun a => a.sectionName == sectionName && a.key == key).map (·.value)

/-- Lines among which no section begins. -/
def NoHeading (lines : List (List Char)) : Prop :=
  ∀ line ∈ lines, ∀ name, ¬ Says line (.heading name)

/-- A change to the lines of a text that is one of layout. -/
inductive Change : List (List Char) → List (List Char) → Prop
  /-- A line is written in another way: with other blanks, or with its value quoted or not. -/
  | rewrite (before after : List (List Char)) {line line' : List Char} {what : Line}
      (said : Says line what) (said' : Says line' what) :
      Change (before ++ line :: after) (before ++ line' :: after)
  /-- A line that says nothing is added: a comment, or blanks. -/
  | silent (before after : List (List Char)) {line : List Char} (said : Says line .other) :
      Change (before ++ after) (before ++ line :: after)
  /-- A section that is open is opened again. -/
  | reopen (before after : List (List Char)) {line : List Char}
      (said : Says line (.heading (sectionAfter "" before))) :
      Change (before ++ after) (before ++ line :: after)
  /-- Two assignments to different keys change places. -/
  | swap (before after : List (List Char)) {line line' : List Char}
      {key key' value value' : String} (said : Says line (.assignment key value))
      (said' : Says line' (.assignment key' value')) (different : key ≠ key') :
      Change (before ++ line :: line' :: after) (before ++ line' :: line :: after)
  /-- Two sections change places. The second one goes up to the next heading. -/
  | move (before after : List (List Char)) {line line' : List Char} {name name' : String}
      {body body' : List (List Char)} (said : Says line (.heading name))
      (said' : Says line' (.heading name')) (different : name ≠ name') (whole : NoHeading body)
      (whole' : NoHeading body')
      (ends : ∀ next ∈ after.head?, ∃ other, Says next (.heading other)) :
      Change (before ++ (line :: body ++ (line' :: body' ++ after)))
        (before ++ (line' :: body' ++ (line :: body ++ after)))

/-- Lines that come from each other by changes of layout, in either direction. -/
def Relaid : List (List Char) → List (List Char) → Prop :=
  Relation.EqvGen Change

variable {given given' : List Assignment} {before after body lines lines' : List (List Char)}
  {line : List Char} {sectionName name key value : String}

/-! ### Values -/

theorem valuesOf_append (earlier later : List Assignment) (sectionName key : String) :
    valuesOf (earlier ++ later) sectionName key =
      valuesOf earlier sectionName key ++ valuesOf later sectionName key := by
  simp [valuesOf]

theorem valuesOf_of_other (other : ∀ a ∈ given, ¬ (a.sectionName = sectionName ∧ a.key = key)) :
    valuesOf given sectionName key = [] := by
  simpa [valuesOf] using other

/-- Two rows of assignments that have no key in common may change places. -/
theorem valuesOf_comm {first second : List Assignment}
    (apart : ∀ a ∈ first, ∀ b ∈ second, ¬ (a.sectionName = b.sectionName ∧ a.key = b.key))
    (earlier later : List Assignment) (sectionName key : String) :
    valuesOf (earlier ++ (first ++ (second ++ later))) sectionName key =
      valuesOf (earlier ++ (second ++ (first ++ later))) sectionName key := by
  simp only [valuesOf_append]
  by_cases assigned : ∃ a ∈ first, a.sectionName = sectionName ∧ a.key = key
  · obtain ⟨a, mem, sameName, sameKey⟩ := assigned
    have none : valuesOf second sectionName key = [] := by
      apply valuesOf_of_other
      intro b mem' ⟨sameName', sameKey'⟩
      exact apart a mem b mem' ⟨sameName.trans sameName'.symm, sameKey.trans sameKey'.symm⟩
    rw [none, List.nil_append, List.nil_append]
  · have none : valuesOf first sectionName key = [] := by
      apply valuesOf_of_other
      intro a mem same
      exact assigned ⟨a, mem, same⟩
    rw [none, List.nil_append, List.nil_append]

/-- The value that counts is the last of them. -/
theorem lastValue?_eq (given : List Assignment) (sectionName key : String) :
    lastValue? given sectionName key = (valuesOf given sectionName key).getLast? := by
  rw [lastValue?, valuesOf, List.getLast?_map, ← List.head?_filter, List.filter_reverse,
    List.head?_reverse]

/-- Settings are made from the values of the keys alone. -/
theorem ofAssignments_congr
    (same : ∀ sectionName key, valuesOf given sectionName key = valuesOf given' sectionName key) :
    ofAssignments given = ofAssignments given' := by
  have last : lastValue? given = lastValue? given' := by
    funext sectionName key
    rw [lastValue?_eq, lastValue?_eq, same]
  have colors : colorOr given = colorOr given' := by
    funext key otherwise
    rw [colorOr, colorOr, last]
  rw [ofAssignments, ofAssignments, last, colors]

/-! ### Sections -/

theorem sectionAfter_cons (sectionName : String) (line : List Char) (after : List (List Char)) :
    sectionAfter sectionName (line :: after) =
      sectionAfter (sectionAfter sectionName [line]) after :=
  rfl

/-- A heading assigns nothing, and opens its section. -/
theorem assignmentsUnder_heading (said : Says line (.heading name)) (sectionName : String)
    (after : List (List Char)) :
    assignmentsUnder sectionName (line :: after) = assignmentsUnder name after := by
  rw [assignmentsUnder, said.readLine_eq]

/-- What says nothing is passed over. -/
theorem assignmentsUnder_other (said : Says line .other) (sectionName : String)
    (after : List (List Char)) :
    assignmentsUnder sectionName (line :: after) = assignmentsUnder sectionName after := by
  rw [assignmentsUnder, said.readLine_eq]

theorem sectionAfter_of_noHeading (none : NoHeading body) : sectionAfter name body = name := by
  induction body with
  | nil => rfl
  | cons line body ih =>
    have single : sectionAfter name [line] = name := by
      have here := none line List.mem_cons_self
      simp only [sectionAfter, List.foldl_cons, List.foldl_nil]
      cases read : readLine line with
      | heading other => exact absurd (says_iff.mpr read) (here other)
      | assignment key value => rfl
      | other => rfl
    rw [sectionAfter_cons, single]
    apply ih
    intro other mem
    exact none other (List.mem_cons_of_mem line mem)

/-- As long as no other section begins, all is assigned in the one that is open. -/
theorem sectionName_of_noHeading (none : NoHeading body) :
    ∀ a ∈ assignmentsUnder name body, a.sectionName = name := by
  induction body with
  | nil =>
    intro a mem
    cases mem
  | cons line body ih =>
    have here := none line List.mem_cons_self
    have later : ∀ a ∈ assignmentsUnder name body, a.sectionName = name := by
      apply ih
      intro other mem
      exact none other (List.mem_cons_of_mem line mem)
    rw [assignmentsUnder]
    cases read : readLine line with
    | heading other => exact absurd (says_iff.mpr read) (here other)
    | assignment key value =>
      intro a mem
      rcases List.mem_cons.mp mem with rfl | mem
      · rfl
      · exact later a mem
    | other => exact later

/-- Lines that begin with a heading do not mind which section is open before. -/
theorem assignmentsUnder_of_closed
    (ends : ∀ next ∈ after.head?, ∃ other, Says next (.heading other)) (name sectionName : String) :
    assignmentsUnder name after = assignmentsUnder sectionName after := by
  cases after with
  | nil => rfl
  | cons next rest =>
    obtain ⟨other, said⟩ := ends next rfl
    rw [assignmentsUnder_heading said, assignmentsUnder_heading said]

/-- A whole section assigns what its body does. -/
theorem assignmentsUnder_section (said : Says line (.heading name)) (whole : NoHeading body)
    (sectionName : String) (after : List (List Char)) :
    assignmentsUnder sectionName (line :: body ++ after) =
      assignmentsUnder name body ++ assignmentsUnder name after := by
  rw [List.cons_append, assignmentsUnder_heading said, assignmentsUnder_append,
    sectionAfter_of_noHeading whole]

/-! ### Changes of layout -/

/-- A change of layout leaves every key its values. -/
theorem Change.valuesOf_eq (h : Change lines lines') (sectionName key : String) :
    valuesOf (assignmentsUnder "" lines) sectionName key =
      valuesOf (assignmentsUnder "" lines') sectionName key := by
  cases h with
  | rewrite before after said said' =>
    simp only [assignmentsUnder_append, assignmentsUnder, said.readLine_eq, said'.readLine_eq]
  | silent before after said =>
    simp only [assignmentsUnder_append, assignmentsUnder_other said]
  | reopen before after said =>
    simp only [assignmentsUnder_append, assignmentsUnder_heading said]
  | @swap before after line line' key₁ key₂ value value' said said' different =>
    simp only [assignmentsUnder_append, assignmentsUnder, said.readLine_eq, said'.readLine_eq]
    generalize sectionAfter "" before = opened
    have apart : ∀ a ∈ [Assignment.mk opened key₁ value], ∀ b ∈ [Assignment.mk opened key₂ value'],
        ¬ (a.sectionName = b.sectionName ∧ a.key = b.key) := by
      intro a mem b mem' both
      have sameKey := both.2
      rw [List.mem_singleton.mp mem, List.mem_singleton.mp mem'] at sameKey
      exact different sameKey
    exact valuesOf_comm apart _ _ sectionName key
  | @move before after line line' name name' body body' said said' different whole whole' ends =>
    have apart : ∀ a ∈ assignmentsUnder name body, ∀ b ∈ assignmentsUnder name' body',
        ¬ (a.sectionName = b.sectionName ∧ a.key = b.key) := by
      intro a mem b mem' both
      have sameName := both.1
      rw [sectionName_of_noHeading whole a mem, sectionName_of_noHeading whole' b mem'] at sameName
      exact different sameName
    -- What comes behind the two begins with a heading, so that it is assigned where it was.
    rw [assignmentsUnder_append "" before, assignmentsUnder_section said whole,
      assignmentsUnder_section said' whole', assignmentsUnder_of_closed ends name' name,
      assignmentsUnder_append "" before, assignmentsUnder_section said' whole',
      assignmentsUnder_section said whole]
    exact valuesOf_comm apart _ _ sectionName key

/-- So do any number of them. -/
theorem Relaid.valuesOf_eq (h : Relaid lines lines') (sectionName key : String) :
    valuesOf (assignmentsUnder "" lines) sectionName key =
      valuesOf (assignmentsUnder "" lines') sectionName key := by
  induction h with
  | rel _ _ change => exact change.valuesOf_eq sectionName key
  | refl _ => rfl
  | symm _ _ _ ih => exact ih.symm
  | trans _ _ _ _ _ first second => exact first.trans second

/-- The layout of a text does not matter. Texts in which every key of every section is given the
same values, in the same order, have the same settings, or cannot be read for the same reason. That
is so for all texts that come from each other by rewriting lines, adding lines that say nothing,
opening a section again, and letting assignments to different keys or different sections change
places. What a line says in this is what it is read as. -/
theorem layout_leaves_settings :
    (∀ text text' : String,
      (∀ sectionName key, valuesOf (assignments text) sectionName key =
        valuesOf (assignments text') sectionName key) → ofText text = ofText text') ∧
    (∀ text text' : String, Relaid (Text.lines text.toList) (Text.lines text'.toList) →
      (∀ sectionName key, valuesOf (assignments text) sectionName key =
        valuesOf (assignments text') sectionName key) ∧ ofText text = ofText text') ∧
    ∀ line what, Says line what ↔ readLine line = what := by
  have values {text text' : String} (same : ∀ sectionName key,
      valuesOf (assignments text) sectionName key = valuesOf (assignments text') sectionName key) :
      ofText text = ofText text' :=
    ofAssignments_congr same
  refine ⟨?_, ?_, ?_⟩
  · intro text text' same
    exact values same
  · intro text text' relaid
    have same : ∀ sectionName key, valuesOf (assignments text) sectionName key =
        valuesOf (assignments text') sectionName key := relaid.valuesOf_eq
    exact ⟨same, values same⟩
  · intro line what
    exact says_iff

/-- A width and a color, and the same with the sections the other way round, a comment, the name of
a section in blanks and the color in quotation marks. -/
theorem rearranged_text_has_same_settings :
    let text := "[shell]\ntape_width = 8\n[colors]\nerror = blue\n"
    let text' := "# first the colors\n[ colors ]\nerror=\"blue\"\n[shell]\ntape_width = 8\n"
    Relaid (Text.lines text.toList) (Text.lines text'.toList) ∧
      Says "[ colors ]\n".toList (.heading "colors") ∧ ofText text = ofText text' ∧
      ofText text' = .ok { window := { width := 8 }, palette := { error := .blue } } := by
  intro text text'
  let comment := "# first the colors\n".toList
  let shell := "[shell]\n".toList
  let width := "tape_width = 8\n".toList
  let colors := "[colors]\n".toList
  let colors' := "[ colors ]\n".toList
  let error := "error = blue\n".toList
  let error' := "error=\"blue\"\n".toList
  obtain ⟨-, same, reads⟩ := layout_leaves_settings
  have saidShell : Says shell (.heading "shell") := (reads _ _).mpr (by decide +kernel)
  have saidWidth : Says width (.assignment "tape_width" "8") := (reads _ _).mpr (by decide +kernel)
  have saidColors : Says colors (.heading "colors") := (reads _ _).mpr (by decide +kernel)
  have saidColors' : Says colors' (.heading "colors") := (reads _ _).mpr (by decide +kernel)
  have saidError : Says error (.assignment "error" "blue") := (reads _ _).mpr (by decide +kernel)
  have saidError' : Says error' (.assignment "error" "blue") := (reads _ _).mpr (by decide +kernel)
  have saidComment : Says comment .other := (reads _ _).mpr (by decide +kernel)
  have body {line : List Char} {key value : String} (said : Says line (.assignment key value)) :
      NoHeading [line] := by
    intro other mem name heading
    rw [List.mem_singleton.mp mem] at heading
    cases said.readLine_eq.symm.trans heading.readLine_eq
  have moved : Change [shell, width, colors, error] [colors, error, shell, width] :=
    .move [] [] saidShell saidColors (by decide) (body saidWidth) (body saidError) (by simp)
  have named : Change [colors, error, shell, width] [colors', error, shell, width] :=
    .rewrite [] _ saidColors saidColors'
  have quoted : Change [colors', error, shell, width] [colors', error', shell, width] :=
    .rewrite [colors'] _ saidError saidError'
  have commented : Change [colors', error', shell, width]
      [comment, colors', error', shell, width] := .silent [] _ saidComment
  have relaid : Relaid (Text.lines text.toList) (Text.lines text'.toList) := by
    have lines : Text.lines text.toList = [shell, width, colors, error] := by decide +kernel
    have lines' : Text.lines text'.toList = [comment, colors', error', shell, width] := by
      decide +kernel
    rw [lines, lines']
    exact (Relation.EqvGen.rel _ _ moved).trans _ _ _ ((Relation.EqvGen.rel _ _ named).trans _ _ _
      ((Relation.EqvGen.rel _ _ quoted).trans _ _ _ (.rel _ _ commented)))
  exact ⟨relaid, saidColors', (same text text' relaid).2, ofText_of_toOption (by decide +kernel)⟩

end Brainfuck.Settings
