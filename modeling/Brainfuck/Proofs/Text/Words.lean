import Brainfuck.Text.Blank

/-!
# The words of a text

A text is `Worded` by its stretches without a blank, each of them as long as it can be. Every text
is worded in one way, and `Text.words` finds it.
-/

namespace Brainfuck.Text

/-- A text and its words. A word ends before a blank or with the text, so that it cannot be
continued. -/
inductive Worded : List Char → List String → Prop
  | nil : Worded [] []
  | blank {c : Char} {rest : List Char} {found : List String} (blank : isBlank c = true)
      (later : Worded rest found) : Worded (c :: rest) found
  | word {start rest : List Char} {found : List String} (nonempty : start ≠ [])
      (solid : ∀ c ∈ start, isBlank c = false) (ended : ∀ c ∈ rest.head?, isBlank c = true)
      (later : Worded rest found) : Worded (start ++ rest) (String.ofList start :: found)

variable {c : Char} {start rest : List Char} {text : String} {found : List String}

/-! ### One way at most -/

theorem pieces_append_of_solid {α : Type} {separates : α → Bool} {start : List α}
    (solid : ∀ item ∈ start, separates item = false) (rest : List α) :
    pieces separates (start ++ rest) =
      (start ++ (pieces separates rest).headD []) :: (pieces separates rest).tail := by
  induction start with
  | nil =>
    cases rest with
    | nil => rfl
    | cons item rest =>
      rw [List.nil_append, pieces_cons]
      split
      · rfl
      · cases pieces separates rest <;> rfl
  | cons item start ih =>
    obtain ⟨here, later⟩ := List.forall_mem_cons.mp solid
    rw [List.cons_append, pieces_cons, here, ih later]
    rfl

/-- What `words` finds, by the characters of the text. -/
theorem words_eq_of_worded (h : Worded rest found) :
    ((pieces isBlank rest).filter (!·.isEmpty)).map String.ofList = found := by
  induction h with
  | nil => rfl
  | blank blank _ ih =>
    rw [pieces_cons, if_pos blank]
    exact ih
  | @word start rest found nonempty solid ended _ ih =>
    rw [pieces_append_of_solid solid]
    -- The piece that the word begins ends with it: what follows is a blank, if anything is.
    have here : (pieces isBlank rest).headD [] = [] := by
      cases rest with
      | nil => rfl
      | cons c rest => rw [pieces_cons, if_pos (ended c rfl), List.headD_cons]
    have later : ((pieces isBlank rest).tail.filter (!·.isEmpty)).map String.ofList = found := by
      rw [← ih]
      cases rest with
      | nil => rfl
      | cons c rest =>
        rw [pieces_cons, if_pos (ended c rfl)]
        rfl
    rw [here, List.append_nil, List.filter_cons_of_pos (by simpa using nonempty), List.map_cons,
      later]

/-! ### One way at least -/

theorem Worded.exists_cons (h : Worded rest found) (c : Char) :
    ∃ found', Worded (c :: rest) found' := by
  by_cases blank : isBlank c = true
  · exact ⟨found, .blank blank h⟩
  · have single : ∀ other ∈ [c], isBlank other = false := by simpa using blank
    cases h with
    | nil => exact ⟨_, .word (List.cons_ne_nil c []) single (by simp) .nil⟩
    | @blank other rest found blank later =>
      refine ⟨_, .word (List.cons_ne_nil c []) single ?_ (.blank blank later)⟩
      simpa using blank
    | @word start rest found nonempty solid ended later =>
      -- The word that the rest begins with is continued to the left.
      have longer : ∀ other ∈ c :: start, isBlank other = false := by
        intro other mem
        rcases List.mem_cons.mp mem with rfl | mem
        · exact single other List.mem_cons_self
        · exact solid other mem
      exact ⟨_, .word (List.cons_ne_nil c start) longer ended later⟩

theorem exists_worded (rest : List Char) : ∃ found, Worded rest found := by
  induction rest with
  | nil => exact ⟨[], .nil⟩
  | cons c rest ih =>
    obtain ⟨found, h⟩ := ih
    exact h.exists_cons c

/-- A text has the words that `words` finds, and no others. -/
theorem worded_iff : Worded text.toList found ↔ words text = found := by
  constructor
  · intro h
    exact words_eq_of_worded h
  · rintro rfl
    obtain ⟨found, h⟩ := exists_worded text.toList
    have same : words text = found := words_eq_of_worded h
    exact same ▸ h

/-- The characters of a word are characters of the text. -/
theorem mem_of_mem_words {word : String} (mem : word ∈ words text) (here : c ∈ word.toList) :
    c ∈ text.toList := by
  obtain ⟨piece, among, rfl⟩ := List.mem_map.mp mem
  have within : c ∈ (pieces isBlank text.toList).flatten :=
    List.mem_flatten.mpr ⟨piece, (List.mem_filter.mp among).1, by simpa using here⟩
  rw [flatten_pieces] at within
  exact (List.mem_filter.mp within).1

end Brainfuck.Text
