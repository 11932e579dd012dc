import Brainfuck.Proofs.Program.Brackets
import Mathlib.Data.List.Induction

/-!
# Brackets without a partner

A text in which not every bracket has its partner has one to blame. Either one closes more than has
been opened, and the first of these stands behind balanced text; or some are never closed, and the
leftmost of these stands behind balanced text, too. So at most one bracket can be meant by either:
`exists_first_overclosing`, `unclosed_unique`.
-/

namespace Brainfuck

/-- Up to one of the brackets that close there are more of them than there are that open. -/
def Overclosed (text : List Char) : Prop :=
  ∃ before later, text = before ++ ']' :: later ∧
    (before ++ [']']).count '[' < (before ++ [']']).count ']'

/-- Among what comes behind a bracket that opens, none closes it. -/
def Unclosed (later : List Char) : Prop :=
  ∀ inner rest, later = inner ++ ']' :: rest → ¬ Balanced inner

variable {text before before' later later' rest : List Char}

/-! ### Closed too often -/

theorem balanced_nil : Balanced [] :=
  balanced_of_silent rfl

/-- A bracket that closes behind balanced text closes too much. -/
theorem Balanced.count_lt (h : Balanced before) :
    (before ++ [']']).count '[' < (before ++ [']']).count ']' := by
  have even := h.even
  simp
  omega

theorem overclosed_of_balanced (h : Balanced before) (later : List Char) :
    Overclosed (before ++ ']' :: later) :=
  ⟨before, later, rfl, h.count_lt⟩

/-- Either nothing is closed too often up to any place, or it is first behind balanced text. -/
theorem above_or_overclosing (text : List Char) :
    (∀ start, start <+: text → start.count ']' ≤ start.count '[') ∨
      ∃ before later, text = before ++ ']' :: later ∧ Balanced before := by
  induction text using List.reverseRecOn with
  | nil => exact .inl balanced_nil.above
  | append_singleton text c ih =>
    rcases ih with above | ⟨before, later, rfl, balanced⟩
    · by_cases below : (text ++ [c]).count ']' ≤ (text ++ [c]).count '['
      · refine .inl fun start starts => ?_
        rcases List.prefix_concat_iff.mp starts with rfl | within
        · exact below
        · exact above start within
      · have before := above text (List.prefix_refl text)
        by_cases closing : c = ']'
        · subst closing
          simp at below
          exact .inr ⟨text, [], rfl, by omega, above⟩
        · simp [List.count_singleton, closing] at below
          omega
    · exact .inr ⟨before, later ++ [c], by simp, balanced⟩

theorem not_overclosed_of_above
    (above : ∀ start, start <+: text → start.count ']' ≤ start.count '[') :
    ¬ Overclosed text := by
  rintro ⟨before, later, rfl, more⟩
  exact absurd (above (before ++ [']']) (by simp)) (Nat.not_le.mpr more)

theorem above_of_not_overclosed (h : ¬ Overclosed text) :
    ∀ start, start <+: text → start.count ']' ≤ start.count '[' := by
  rcases above_or_overclosing text with above | ⟨before, later, rfl, balanced⟩
  · exact above
  · exact absurd (overclosed_of_balanced balanced later) h

theorem Balanced.not_overclosed (h : Balanced text) : ¬ Overclosed text :=
  not_overclosed_of_above h.above

/-- The first bracket that closes too much stands behind balanced text. -/
theorem exists_first_overclosing (h : Overclosed text) :
    ∃ before later, text = before ++ ']' :: later ∧ Balanced before := by
  rcases above_or_overclosing text with above | found
  · exact absurd h (not_overclosed_of_above above)
  · exact found

theorem not_overclosed_append (h : ¬ Overclosed before) (h' : ¬ Overclosed later) :
    ¬ Overclosed (before ++ later) :=
  not_overclosed_of_above (above_append (above_of_not_overclosed h) (above_of_not_overclosed h'))

/-- A bracket that opens goes before text that closes nothing too often. -/
theorem not_overclosed_cons (h : ¬ Overclosed later) : ¬ Overclosed ('[' :: later) := by
  refine not_overclosed_of_above fun start starts => ?_
  rcases List.prefix_cons_iff.mp starts with rfl | ⟨more, rfl, starts'⟩
  · exact Nat.le_refl _
  · have below := above_of_not_overclosed h more starts'
    simp
    omega

/-! ### Never closed -/

theorem unclosed_iff : Unclosed later ↔ ¬ Overclosed later := by
  constructor
  · intro never overclosed
    obtain ⟨inner, rest, split, balanced⟩ := exists_first_overclosing overclosed
    exact never inner rest split balanced
  · rintro never inner rest rfl balanced
    exact never (overclosed_of_balanced balanced rest)

/-- A bracket that is never closed behind balanced text is one too many. -/
theorem Balanced.unclosed (h : Balanced before) (never : Unclosed later) :
    ¬ Overclosed (before ++ '[' :: later) ∧
      (before ++ '[' :: later).count ']' < (before ++ '[' :: later).count '[' := by
  have never := unclosed_iff.mp never
  refine ⟨not_overclosed_append h.not_overclosed (not_overclosed_cons never), ?_⟩
  have below := above_of_not_overclosed never later (List.prefix_refl later)
  have even := h.even
  simp
  omega

/-- In balanced text every bracket that opens is closed, whatever comes behind. -/
theorem Balanced.closes (h : Balanced (before ++ '[' :: rest)) (later : List Char) :
    ¬ Unclosed (rest ++ later) := by
  rcases above_or_overclosing rest with above | ⟨inner, rest, rfl, balanced⟩
  · have first := h.above before (List.prefix_append before _)
    have second := above rest (List.prefix_refl rest)
    have even := h.even
    simp at even
    omega
  · exact fun never => never inner (rest ++ later) (by simp) balanced

/-- Only one bracket that is never closed stands behind balanced text: the leftmost. -/
theorem unclosed_unique (h : Balanced before) (h' : Balanced before') (never : Unclosed later)
    (never' : Unclosed later') (same : before ++ '[' :: later = before' ++ '[' :: later') :
    before = before' ∧ later = later' := by
  -- If one of them stood before the other, it would be closed in the text before that.
  have ends {x y rest rest' : List Char} (hy : Balanced (x ++ y)) (never : Unclosed rest)
      (split : '[' :: rest = y ++ '[' :: rest') : y = [] := by
    cases y with
    | nil => rfl
    | cons d y =>
      obtain ⟨rfl, rfl⟩ := List.cons_eq_cons.mp split
      exact absurd never (hy.closes _)
  have whole : before = before' := by
    rcases List.append_eq_append_iff.mp same with ⟨more, rfl, rest⟩ | ⟨more, rfl, rest⟩
    · simp [ends h' never rest]
    · simp [ends h never' rest]
  subst whole
  exact ⟨rfl, by simpa using same⟩

end Brainfuck
