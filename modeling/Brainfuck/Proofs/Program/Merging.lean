import Brainfuck.Proofs.Program.Columns

/-!
# Merging operators into instructions

An operator that is counted goes into the last instruction if that is possible. `addTo` does so on
the instructions that it may be merged with, and `expand` spells instructions out again. What is
spelled out stays reduced, and no two neighbours could be one instruction: `Condenses` says both of
a row of instructions and the word that was read.
-/

namespace Brainfuck

/-- An instruction spelled out: the operator of a run as often as it is counted, and any other
operator once. -/
def Instruction.spelled (i : Instruction) : List Operator :=
  List.replicate (if i.operator.isCounted then i.operand else 1) i.operator

/-- Instructions spelled out. Where the brackets lead to is left out. -/
def expand (chunk : List Instruction) : List Operator :=
  chunk.flatMap Instruction.spelled

/-- A run counts something, and a read or a write stands for itself. -/
def Instruction.Counts (i : Instruction) : Prop :=
  (i.operator.isCounted = true → 0 < i.operand) ∧
    (i.operator = .input ∨ i.operator = .output → i.operand = 1)

/-- Two instructions that are not runs of the same kind or of opposite kinds. -/
def Instruction.Apart (i j : Instruction) : Prop :=
  i.operator.isCounted = true → i.operator ≠ j.operator ∧ i.operator.opposite ≠ some j.operator

/-- Every instruction counts what it should, and runs are as long as they can be. -/
structure Tidy (chunk : List Instruction) : Prop where
  counts : ∀ i ∈ chunk, i.Counts
  apart : chunk.IsChain Instruction.Apart

/-- Adds a counted operator to instructions, with the last of which it may be merged. -/
def addTo (chunk : List Instruction) (op : Operator) : List Instruction :=
  match chunk.getLast? with
  | none => [⟨op, 1⟩]
  | some last =>
    if last.operator = op then chunk.dropLast ++ [⟨op, last.operand + 1⟩]
    else if op.opposite = some last.operator then
      if last.operand - 1 = 0 then chunk.dropLast
      else chunk.dropLast ++ [⟨last.operator, last.operand - 1⟩]
    else chunk ++ [⟨op, 1⟩]

variable {chunk before : List Instruction} {i j last : Instruction} {op x y : Operator}
  {word : List Operator} {n m : Nat}

theorem isCounted_of_opposite (h : x.opposite = some y) : x.isCounted = true := by
  simp [Operator.isCounted, h]

theorem opposite_ne_self (op : Operator) : op.opposite ≠ some op := by
  cases op <;> simp [Operator.opposite]

@[simp] theorem expand_nil : expand [] = [] := rfl

@[simp] theorem expand_append (first second : List Instruction) :
    expand (first ++ second) = expand first ++ expand second :=
  List.flatMap_append

@[simp] theorem expand_singleton (i : Instruction) : expand [i] = i.spelled := by
  simp [expand]

theorem spelled_of_counted (counted : op.isCounted = true) (n : Nat) :
    Instruction.spelled ⟨op, n⟩ = List.replicate n op := by
  simp [Instruction.spelled, counted]

theorem spelled_of_not_counted (single : op.isCounted = false) (n : Nat) :
    Instruction.spelled ⟨op, n⟩ = [op] := by
  simp [Instruction.spelled, single]

/-- What counts something ends with its operator. -/
theorem Instruction.Counts.spelled_eq (h : i.Counts) : ∃ word, i.spelled = word ++ [i.operator] := by
  obtain ⟨op, n⟩ := i
  cases counted : op.isCounted with
  | false => exact ⟨[], spelled_of_not_counted counted n⟩
  | true =>
    obtain ⟨k, rfl⟩ := Nat.exists_eq_succ_of_ne_zero (h.1 counted).ne'
    exact ⟨List.replicate k op, by rw [spelled_of_counted counted, List.replicate_succ']⟩

/-! ### The last instruction -/

@[simp] theorem addTo_nil (op : Operator) : addTo [] op = [⟨op, 1⟩] := rfl

theorem addTo_same (before : List Instruction) (op : Operator) (n : Nat) :
    addTo (before ++ [⟨op, n⟩]) op = before ++ [⟨op, n + 1⟩] := by
  simp [addTo]

theorem addTo_opposite (h : x.opposite = some y) (before : List Instruction) (n : Nat) :
    addTo (before ++ [⟨y, n + 1⟩]) x = if n = 0 then before else before ++ [⟨y, n⟩] := by
  have other : y ≠ x := fun same => opposite_ne_self x (same ▸ h)
  simp [addTo, h, other]

theorem addTo_apart (other : last.operator ≠ op) (h : last.operator.opposite ≠ some op) :
    addTo (before ++ [last]) op = before ++ [last] ++ [⟨op, 1⟩] := by
  have h' : op.opposite ≠ some last.operator := fun opposite => h (Operator.opposite_comm opposite)
  simp [addTo, other, h']

/-- What an operator may find at the end of a row that counts: nothing, a run of its own kind, a run
of its opposite, or something else. -/
inductive Joint (op : Operator) : List Instruction → Prop
  | fresh : Joint op []
  | same (before : List Instruction) {n : Nat} (positive : 0 < n) : Joint op (before ++ [⟨op, n⟩])
  | opposite (before : List Instruction) (n : Nat) {other : Operator}
      (h : op.opposite = some other) : Joint op (before ++ [⟨other, n + 1⟩])
  | apart (before : List Instruction) {last : Instruction} (other : last.operator ≠ op)
      (h : last.operator.opposite ≠ some op) : Joint op (before ++ [last])

theorem Tidy.joint (h : Tidy chunk) (counted : op.isCounted = true) : Joint op chunk := by
  rcases List.eq_nil_or_concat' chunk with rfl | ⟨before, ⟨kind, n⟩, rfl⟩
  · exact .fresh
  · have positive := (h.counts ⟨kind, n⟩ (by simp)).1
    by_cases same : kind = op
    · subst same
      exact .same before (positive counted)
    · by_cases opposite : kind.opposite = some op
      · obtain ⟨k, rfl⟩ := Nat.exists_eq_succ_of_ne_zero (positive (isCounted_of_opposite opposite)).ne'
        exact .opposite before k (Operator.opposite_comm opposite)
      · exact .apart before same opposite

/-! ### Tidiness -/

theorem Instruction.Apart.ne (h : i.Apart j) (counted : j.operator.isCounted = true) :
    i.operator ≠ j.operator :=
  fun same => (h (same ▸ counted)).1 same

theorem Instruction.Apart.opposite_ne (h : i.Apart j) : i.operator.opposite ≠ some j.operator :=
  fun opposite => (h (isCounted_of_opposite opposite)).2 opposite

/-- A run that begins counts one. -/
theorem counts_one (op : Operator) : Instruction.Counts ⟨op, 1⟩ :=
  ⟨fun _ => Nat.one_pos, fun _ => rfl⟩

/-- Only the counts of runs matter that are counted. -/
theorem counts_of_counted (counted : op.isCounted = true) (positive : 0 < n) :
    Instruction.Counts ⟨op, n⟩ := by
  refine ⟨fun _ => positive, ?_⟩
  rintro (rfl | rfl) <;> cases counted

theorem tidy_nil : Tidy [] :=
  ⟨by simp, List.isChain_nil⟩

theorem tidy_snoc : Tidy (chunk ++ [i]) ↔
    Tidy chunk ∧ i.Counts ∧ ∀ last ∈ chunk.getLast?, last.Apart i := by
  constructor
  · rintro ⟨counts, apart⟩
    obtain ⟨apart', -, joint⟩ := List.isChain_append.mp apart
    refine ⟨⟨fun j mem => counts j (by simp [mem]), apart'⟩, counts i (by simp), fun last ends => ?_⟩
    exact joint last ends i (by simp)
  · rintro ⟨⟨counts, apart⟩, counts', joint⟩
    refine ⟨?_, List.isChain_append.mpr ⟨apart, List.isChain_singleton i, ?_⟩⟩
    · simpa [or_imp, forall_and] using ⟨counts, counts'⟩
    · simpa using joint

/-- A run may count anything but zero. -/
theorem Tidy.recount (h : Tidy (before ++ [⟨op, n⟩])) (counted : op.isCounted = true)
    (positive : 0 < m) : Tidy (before ++ [⟨op, m⟩]) := by
  obtain ⟨tidy, -, apart⟩ := tidy_snoc.mp h
  exact tidy_snoc.mpr ⟨tidy, counts_of_counted counted positive, apart⟩

theorem Tidy.addTo (h : Tidy chunk) (counted : op.isCounted = true) : Tidy (addTo chunk op) := by
  cases h.joint counted with
  | fresh => exact tidy_snoc.mpr ⟨tidy_nil, counts_one op, by simp⟩
  | same before positive =>
    rw [addTo_same]
    exact h.recount counted (Nat.succ_pos _)
  | opposite before n opposite =>
    rw [addTo_opposite opposite]
    split
    · exact (tidy_snoc.mp h).1
    · rename_i left
      exact h.recount (isCounted_of_opposite (Operator.opposite_comm opposite))
        (Nat.pos_of_ne_zero left)
  | apart before other opposite =>
    rw [addTo_apart other opposite]
    refine tidy_snoc.mpr ⟨h, counts_one op, ?_⟩
    rintro last ends -
    obtain rfl : _ = last := by simpa using ends
    exact ⟨other, opposite⟩

/-- An operator and its opposite leave a tidy row as it is. -/
theorem Tidy.addTo_addTo (h : Tidy chunk) (opposite : x.opposite = some y) :
    Brainfuck.addTo (Brainfuck.addTo chunk x) y = chunk := by
  have opposite' := Operator.opposite_comm opposite
  cases h.joint (isCounted_of_opposite opposite) with
  | fresh => simpa using addTo_opposite opposite' [] 0
  | same before positive => rw [addTo_same, addTo_opposite opposite', if_neg positive.ne']
  | opposite before n found =>
    obtain rfl : y = _ := Option.some_inj.mp (opposite.symm.trans found)
    rw [addTo_opposite opposite]
    split
    · -- The run is gone, and a new one begins behind what it stood behind.
      rename_i gone
      subst gone
      obtain ⟨-, -, apart⟩ := tidy_snoc.mp h
      rcases List.eq_nil_or_concat' before with rfl | ⟨before, last, rfl⟩
      · rfl
      · have joint := apart last (by simp)
        exact addTo_apart (joint.ne (isCounted_of_opposite opposite')) joint.opposite_ne
    · rw [addTo_same]
  | @apart before last other found =>
    rw [addTo_apart other found]
    exact addTo_opposite opposite' (before ++ [last]) 0

/-! ### Spelling out -/

/-- A run ends with its operator. -/
theorem expand_run (counted : op.isCounted = true) (before : List Instruction) (n : Nat) :
    expand (before ++ [⟨op, n + 1⟩]) = expand before ++ List.replicate n op ++ [op] := by
  simp [spelled_of_counted counted, List.replicate_succ']

open Word in
theorem expand_addTo (h : Tidy chunk) (counted : op.isCounted = true) :
    expand (addTo chunk op) = join (expand chunk) op := by
  cases h.joint counted with
  | fresh => simp [spelled_of_counted counted]
  | @same before n positive =>
    obtain ⟨k, rfl⟩ := Nat.exists_eq_succ_of_ne_zero positive.ne'
    rw [addTo_same, expand_run counted, expand_run counted, join_snoc,
      if_neg (opposite_ne_self op), List.replicate_succ', ← List.append_assoc]
  | @opposite before n other found =>
    have found' := Operator.opposite_comm found
    have counted' := isCounted_of_opposite found'
    rw [addTo_opposite found, expand_run counted', join_snoc, if_pos found']
    split
    · rename_i gone
      simp [gone]
    · simp [spelled_of_counted counted']
  | @apart before last other found =>
    obtain ⟨word, spelled⟩ := (h.counts last (by simp)).spelled_eq
    have ends : expand (before ++ [last]) = expand before ++ word ++ [last.operator] := by
      simp [spelled]
    rw [addTo_apart other found, expand_append, ends, join_snoc, if_neg found]
    simp [spelled_of_counted counted]

/-- Instructions as a word gives them: spelled out they are the word when nothing is left to cancel,
and they are tidy. -/
structure Condenses (word : List Operator) (chunk : List Instruction) : Prop where
  expand_eq : expand chunk = Word.reduce word
  tidy : Tidy chunk

theorem condenses_nil : Condenses [] [] :=
  ⟨rfl, tidy_nil⟩

theorem Condenses.counted (h : Condenses word chunk) (counted : op.isCounted = true) :
    Condenses (word ++ [op]) (addTo chunk op) where
  expand_eq := by rw [expand_addTo h.tidy counted, Word.reduce_snoc, h.expand_eq]
  tidy := h.tidy.addTo counted

/-- An operator that is not counted is an instruction of its own. -/
theorem Condenses.single (h : Condenses word chunk) (single : op.isCounted = false) :
    Condenses (word ++ [op]) (chunk ++ [⟨op, 1⟩]) := by
  have apart (kind : Operator) (counted : kind.isCounted = true) :
      kind ≠ op ∧ kind.opposite ≠ some op := by
    constructor
    · rintro rfl
      simp [counted] at single
    · intro opposite
      simp [isCounted_of_opposite (Operator.opposite_comm opposite)] at single
  constructor
  · have behind : (Word.reduce word).getLast?.bind Operator.opposite ≠ some op := by
      intro found
      obtain ⟨last, -, opposite⟩ := Option.bind_eq_some_iff.mp found
      exact (apart last (isCounted_of_opposite opposite)).2 opposite
    rw [Word.reduce_snoc, Word.join, if_neg behind, expand_append, h.expand_eq, expand_singleton,
      spelled_of_not_counted single]
  · exact tidy_snoc.mpr ⟨h.tidy, counts_one op, fun last _ => apart last.operator⟩

end Brainfuck
