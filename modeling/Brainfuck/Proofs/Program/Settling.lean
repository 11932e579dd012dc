import Brainfuck.Proofs.Program.Brackets
import Brainfuck.Proofs.Program.Reduction
import Brainfuck.Proofs.Text.Place

/-!
# What a bracket settles

Operators are merged with the last instruction only, and never with a bracket. So once a bracket has
been read, it and all instructions before it stay where they are, whatever is read later; a bracket
that waits for its partner is told where to go. `exists_settled` says so of any part of an accepted
text and the whole of it.
-/

namespace Brainfuck

/-- An instruction stays as it is, or is a bracket that waited and is told where to go. -/
inductive Instruction.Stays : Instruction → Instruction → Prop
  | same (i : Instruction) : Stays i i
  | told (operand : Nat) : Stays ⟨.loopStart, 0⟩ ⟨.loopStart, operand⟩

/-- All instructions up to the last bracket are found again among later ones, at the same places. -/
def Settles (is js : List Instruction) : Prop :=
  ∀ (place : Nat) (bracket : Instruction), is[place]? = some bracket →
    isBracket bracket.operator.symbol = true →
    ∀ (k : Nat) (i : Instruction), k ≤ place → is[k]? = some i → ∃ j, js[k]? = some j ∧ i.Stays j

variable {i j k : Instruction} {is js ks : List Instruction}

theorem Instruction.Stays.operator_eq (h : i.Stays j) : j.operator = i.operator := by
  cases h <;> rfl

theorem Instruction.Stays.trans (h : i.Stays j) (h' : j.Stays k) : i.Stays k := by
  cases h with
  | same => exact h'
  | told operand =>
    cases h' with
    | same => exact .told operand
    | told operand' => exact .told operand'

theorem settles_refl (is : List Instruction) : Settles is is :=
  fun _ _ _ _ _ i _ found => ⟨i, found, .same i⟩

theorem Settles.trans (h : Settles is js) (h' : Settles js ks) : Settles is ks := by
  intro place bracket found isBracket k i le here
  obtain ⟨bracket', found', stays⟩ := h place bracket found isBracket place bracket le_rfl found
  obtain ⟨j, there, same⟩ := h place bracket found isBracket k i le here
  rw [← stays.operator_eq] at isBracket
  obtain ⟨j', beyond, same'⟩ := h' place bracket' found' isBracket k j le there
  exact ⟨j', beyond, same.trans same'⟩

theorem settles_append (is js : List Instruction) : Settles is (is ++ js) := by
  intro _ _ _ _ k i _ found
  refine ⟨i, ?_, .same i⟩
  rw [List.getElem?_append_left (List.getElem?_eq_some_iff.mp found).1, found]

/-- The last instruction is free to change if it is no bracket. -/
theorem settles_last {last : Instruction} (free : isBracket last.operator.symbol = false)
    (is js : List Instruction) : Settles (is ++ [last]) (is ++ js) := by
  intro place bracket found isBracket k i le here
  have lt : place < is.length := by
    by_contra ge
    rw [List.getElem?_append_right (by omega)] at found
    obtain rfl : bracket = last := List.mem_singleton.mp (List.mem_of_getElem? found)
    rw [free] at isBracket
    cases isBracket
  rw [List.getElem?_append_left (by omega)] at here
  exact ⟨i, by rw [List.getElem?_append_left (by omega), here], .same i⟩

theorem free_of_counted {op : Operator} (counted : op.isCounted = true) :
    isBracket op.symbol = false := by
  cases op <;> first | rfl | cases counted

/-- Merging does not reach back behind a bracket. -/
theorem settles_addTo {earlier chunk : List Instruction} {op : Operator} (h : Tidy chunk)
    (counted : op.isCounted = true) : Settles (earlier ++ chunk) (earlier ++ addTo chunk op) := by
  cases h.joint counted with
  | fresh =>
    rw [List.append_nil]
    exact settles_append earlier _
  | same before positive =>
    rw [addTo_same, ← List.append_assoc, ← List.append_assoc]
    exact settles_last (free_of_counted counted) _ _
  | opposite before n opposite =>
    have free := free_of_counted (isCounted_of_opposite (Operator.opposite_comm opposite))
    rw [addTo_opposite opposite, ← List.append_assoc]
    split
    · simpa using settles_last free (earlier ++ before) []
    · rw [← List.append_assoc]
      exact settles_last free _ _
  | @apart before last other opposite =>
    rw [addTo_apart other opposite, ← List.append_assoc earlier (before ++ [last])]
    exact settles_append _ _

namespace Assembly

variable {a next : Assembly} {op : Operator} {column : Nat} {word : List Operator}
  {words : List (List Operator)}

theorem Kept.settles_addOperator (h : a.Kept) (added : a.addOperator column op = .ok next) :
    Settles a.instructions.toList next.instructions.toList := by
  obtain ⟨⟨source, reads⟩, before, word, earlier, chunk, split, -, base, condenses⟩ := h
  cases op with
  | increment | decrement | shiftLeft | shiftRight =>
    cases added
    rw [addCounted_eq split base, split]
    exact settles_addTo condenses.tidy rfl
  | input | output | loopStart =>
    cases added
    simpa [push, openLoop] using settles_append _ _
  | loopEnd =>
    obtain ⟨bracket, outer, warnings, waiting, rfl⟩ := closeLoop_eq_ok added
    have innermost : bracket ∈ a.openBrackets := by simp [waiting]
    have waits := reads.waits innermost
    rw [← Array.getElem?_toList] at waits
    intro _ _ _ _ k i _ found
    have lt := (List.getElem?_eq_some_iff.mp found).1
    rcases eq_or_ne bracket.index k with rfl | other
    · obtain rfl : ⟨.loopStart, 0⟩ = i := Option.some_inj.mp (waits.symm.trans found)
      refine ⟨_, ?_, .told (a.instructions.size + 1)⟩
      simp only [link, Array.toList_setIfInBounds, Array.toList_push]
      rw [List.getElem?_set_self (by simp at lt ⊢; omega)]
    · refine ⟨i, ?_, .same i⟩
      simp only [link, Array.toList_setIfInBounds, Array.toList_push]
      rw [List.getElem?_set_ne other, List.getElem?_append_left lt, found]

theorem Kept.settles_addWord (h : a.Kept) (added : a.addWord word = some next) :
    Settles a.instructions.toList next.instructions.toList := by
  induction word generalizing a with
  | nil =>
    cases added
    exact settles_refl _
  | cons op word ih =>
    obtain ⟨middle, first, rest⟩ := addWord_cons_eq_some added
    exact (h.settles_addOperator first).trans (ih (h.addOperator first) rest)

theorem Kept.settles_addWords (h : a.Kept) (added : a.addWords words = some next) :
    Settles a.instructions.toList next.instructions.toList := by
  induction words generalizing a with
  | nil =>
    cases added
    exact settles_refl _
  | cons word words ih =>
    rw [addWords_cons] at added
    obtain ⟨middle, first, rest⟩ := Option.bind_eq_some_iff.mp added
    exact (h.beginLine.settles_addWord first).trans (ih (h.beginLine.addWord first) rest)

/-- The words of a text are read by reading those of a part of it and going on from there. -/
theorem addWords_part {byLine : Bool} {before later : List Char}
    (added : ({ byLine } : Assembly).addWords ((Text.lines (before ++ later)).map operators) =
      some next) :
    ∃ middle, ({ byLine } : Assembly).addWords ((Text.lines before).map operators) = some middle ∧
      ∃ word words, (middle.addWord word).bind (addWords · words) = some next := by
  obtain ⟨whole, part, -, -, unfinished, all⟩ := Text.exists_lines_append before
  have alone := all []
  rw [List.append_nil, List.append_nil] at alone
  rw [all, List.map_append, addWords_append] at added
  obtain ⟨a, first, rest⟩ := Option.bind_eq_some_iff.mp added
  rw [alone, List.map_append, addWords_append, first, Option.bind_some]
  rcases eq_or_ne part [] with rfl | some
  · exact ⟨a, rfl, [], _, rest⟩
  · have line : Text.lines part = [part] := by
      simpa using Text.lines_append_of_unfinished some unfinished []
    rw [Text.lines_append_of_unfinished some unfinished later, List.map_cons, addWords_cons,
      operators_append, addWord_append, Option.bind_assoc] at rest
    obtain ⟨middle, begun, rest'⟩ := Option.bind_eq_some_iff.mp rest
    refine ⟨middle, ?_, _, _, rest'⟩
    simp [line, begun]

end Assembly

/-- Any part of an accepted text that has been read has settled the program as far as its last
bracket. -/
theorem exists_settled {byLine : Bool} {source : String} {p : Program}
    (h : Program.ofSource byLine source = .ok p) {before later : List Char}
    (split : source.toList = before ++ later) :
    ∃ a : Assembly, ({ byLine } : Assembly).addLines (Text.lines before) = .ok a ∧
      Settles a.instructions.toList p.instructions.toList := by
  obtain ⟨last, read, -, -, rfl⟩ := ofSource_eq_ok_iff.mp h
  rw [split] at read
  obtain ⟨middle, first, word, words, rest⟩ :=
    Assembly.addWords_part (Assembly.addWords_eq_some.mpr ⟨last, read, rfl⟩)
  obtain ⟨next, more, rest⟩ := Option.bind_eq_some_iff.mp rest
  have kept := (Assembly.kept_empty byLine).addWords first
  have settled := (kept.settles_addWord more).trans ((kept.addWord more).settles_addWords rest)
  obtain ⟨a, read', rfl⟩ := Assembly.addWords_eq_some.mp first
  exact ⟨a, read', settled⟩

end Brainfuck
