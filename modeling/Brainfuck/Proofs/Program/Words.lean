import Brainfuck.Operator
import Mathlib.Data.List.Chain
import Mathlib.Data.List.Induction
import Mathlib.Logic.Relation

/-!
# Words of operators

The operators of a text make a word. Neighbours in it that are each other's opposite can be deleted,
which may make neighbours of others, and so on. In whatever order that is done, there is one word in
which it ends: `reducesTo_iff` says that it is `reduce`, which reads the word once from its
beginning.
-/

namespace Brainfuck

/-- The operators of a text, in their order. -/
def operators (text : List Char) : List Operator :=
  text.filterMap Operator.ofChar?

theorem operators_append (first second : List Char) :
    operators (first ++ second) = operators first ++ operators second :=
  List.filterMap_append

namespace Word

/-- Two neighbours that are each other's opposite are deleted. -/
inductive Cancels : List Operator → List Operator → Prop
  | pair (before after : List Operator) {x y : Operator} (opposite : x.opposite = some y) :
      Cancels (before ++ x :: y :: after) (before ++ after)

/-- Deleting opposite neighbours can end in a word: it can be reached, and there are no more of
them in it. -/
def ReducesTo (word short : List Operator) : Prop :=
  Relation.ReflTransGen Cancels word short ∧ ∀ shorter, ¬ Cancels short shorter

/-- No neighbours are each other's opposite. -/
def Reduced (word : List Operator) : Prop :=
  word.IsChain fun x y => x.opposite ≠ some y

/-- Adds an operator at the end, where it may cancel the last one. -/
def join (word : List Operator) (op : Operator) : List Operator :=
  if word.getLast?.bind Operator.opposite = some op then word.dropLast else word ++ [op]

/-- Adds the operators of a word one after the other. -/
def reduce (word : List Operator) : List Operator :=
  word.foldl join []

variable {word short : List Operator} {last op x y : Operator}

@[simp] theorem join_nil (op : Operator) : join [] op = [op] := rfl

theorem join_snoc (word : List Operator) (last op : Operator) :
    join (word ++ [last]) op =
      if last.opposite = some op then word else word ++ [last] ++ [op] := by
  simp [join]

theorem reduce_snoc (word : List Operator) (op : Operator) :
    reduce (word ++ [op]) = join (reduce word) op := by
  simp [reduce]

/-! ### Words without opposite neighbours -/

theorem reduced_iff : Reduced word ↔ ∀ shorter, ¬ Cancels word shorter := by
  constructor
  · rintro reduced shorter ⟨before, after, opposite⟩
    exact (List.isChain_append_cons_cons.mp reduced).2.1 opposite
  · intro none
    rw [Reduced, List.isChain_iff_forall_rel_of_append_cons_cons]
    rintro x y before after rfl opposite
    exact none _ (.pair before after opposite)

theorem reduced_snoc_snoc :
    Reduced (word ++ [last] ++ [op]) ↔ Reduced (word ++ [last]) ∧ last.opposite ≠ some op := by
  rw [List.append_assoc, List.singleton_append, Reduced, List.isChain_append_cons_cons]
  simp [Reduced]

theorem Reduced.of_snoc (h : Reduced (word ++ [op])) : Reduced word :=
  (List.isChain_append.mp h).1

theorem Reduced.join (h : Reduced word) (op : Operator) : Reduced (join word op) := by
  rcases List.eq_nil_or_concat' word with rfl | ⟨before, last, rfl⟩
  · exact List.isChain_singleton op
  · rw [join_snoc]
    split
    · exact h.of_snoc
    · rename_i apart
      exact reduced_snoc_snoc.mpr ⟨h, apart⟩

theorem reduced_reduce (word : List Operator) : Reduced (reduce word) := by
  induction word using List.reverseRecOn with
  | nil => exact List.isChain_nil
  | append_singleton before op ih =>
    rw [reduce_snoc]
    exact ih.join op

/-- An operator that cancels nothing stands at the end. -/
theorem Reduced.join_eq (h : Reduced (word ++ [op])) : Word.join word op = word ++ [op] := by
  rcases List.eq_nil_or_concat' word with rfl | ⟨before, last, rfl⟩
  · rfl
  · rw [join_snoc, if_neg (reduced_snoc_snoc.mp h).2]

/-- There is nothing to do on a word without opposite neighbours. -/
theorem Reduced.reduce_eq (h : Reduced word) : reduce word = word := by
  induction word using List.reverseRecOn with
  | nil => rfl
  | append_singleton before op ih => rw [reduce_snoc, ih h.of_snoc, h.join_eq]

/-! ### Opposite neighbours -/

/-- Opposite operators undo each other, also when the first of them cancels another one. -/
theorem Reduced.join_join (h : Reduced word) (opposite : x.opposite = some y) :
    Word.join (Word.join word x) y = word := by
  rcases List.eq_nil_or_concat' word with rfl | ⟨before, last, rfl⟩
  · simp [Word.join, opposite]
  · rw [join_snoc]
    split
    · rename_i cancels
      obtain rfl : last = y :=
        Option.some_inj.mp ((Operator.opposite_comm cancels).symm.trans opposite)
      exact h.join_eq
    · rw [join_snoc, if_pos opposite]

/-- Deleting opposite neighbours leaves the outcome as it is. -/
theorem Cancels.reduce_eq (h : Cancels word short) : reduce word = reduce short := by
  obtain ⟨before, after, opposite⟩ := h
  have undone := (reduced_reduce before).join_join opposite
  simp only [reduce, List.foldl_append, List.foldl_cons] at undone ⊢
  rw [undone]

theorem Cancels.append (h : Cancels word short) (more : List Operator) :
    Cancels (word ++ more) (short ++ more) := by
  obtain ⟨before, after, opposite⟩ := h
  simpa using Cancels.pair before (after ++ more) opposite

/-- Adding an operator is one deletion at most. -/
theorem reflTransGen_join (word : List Operator) (op : Operator) :
    Relation.ReflTransGen Cancels (word ++ [op]) (join word op) := by
  rcases List.eq_nil_or_concat' word with rfl | ⟨before, last, rfl⟩
  · exact .refl
  · rw [join_snoc]
    split
    · rename_i opposite
      simpa using Relation.ReflTransGen.single (Cancels.pair before [] opposite)
    · exact .refl

theorem reflTransGen_reduce (word : List Operator) :
    Relation.ReflTransGen Cancels word (reduce word) := by
  induction word using List.reverseRecOn with
  | nil => exact .refl
  | append_singleton before op ih =>
    rw [reduce_snoc]
    have behind : Relation.ReflTransGen Cancels (before ++ [op]) (reduce before ++ [op]) :=
      ih.lift (· ++ [op]) fun _ _ h => h.append [op]
    exact behind.trans (reflTransGen_join _ op)

/-- There is exactly one word in which deleting opposite neighbours ends. -/
theorem reducesTo_iff : ReducesTo word short ↔ short = reduce word := by
  constructor
  · rintro ⟨reached, ended⟩
    have same : reduce word = reduce short := by
      clear ended
      induction reached with
      | refl => rfl
      | tail _ step ih => exact ih.trans step.reduce_eq
    rw [same, (reduced_iff.mpr ended).reduce_eq]
  · rintro rfl
    exact ⟨reflTransGen_reduce word, reduced_iff.mp (reduced_reduce word)⟩

/-- What cancels out in the middle lets its neighbours cancel; a bracket keeps them apart. -/
example : reduce [.increment, .shiftLeft, .shiftRight, .decrement, .increment, .loopStart,
    .decrement] = [.increment, .loopStart, .decrement] := by
  decide

end Word

end Brainfuck
