import Brainfuck.Proofs.Program.Jumps
import Brainfuck.Proofs.Program.LineTable

/-!
# Depth

Where an instruction stands among the loops is told by the jumps alone: a loop encloses it if it
begins before it and ends behind it. When the program is read from its beginning, the loops that are
still open make a stack: an instruction that opens a loop adds to it, one that closes a loop takes
the last one away, and it is just the loop that its own jump leads to.
-/

namespace Brainfuck

namespace Program

/-- An instruction opens a loop. -/
def opens (p : Program) (index : Nat) : Bool :=
  match p.get? index with
  | some ⟨.loopStart, _⟩ => true
  | _ => false

/-- An instruction opens a loop that has not ended before an index. -/
def waits (p : Program) (index i : Nat) : Bool :=
  match p.get? i with
  | some ⟨.loopStart, finish⟩ => index < finish
  | _ => false

/-- The loops that are open when an instruction comes, the outermost first: they begin before it,
and do not end before it. Each loop is named by its first instruction. -/
def waiting (p : Program) (index : Nat) : List Nat :=
  (List.range index).filter (p.waits index)

/-- The loops that enclose an instruction, the outermost first: they begin before it and end behind
it. -/
def enclosing (p : Program) (index : Nat) : List Nat :=
  (List.range index).filter (p.waits (index + 1))

/-- How many loops enclose an instruction. -/
def depth (p : Program) (index : Nat) : Nat :=
  (p.enclosing index).length

/-- How many loops begin before an instruction. -/
def opened (p : Program) (index : Nat) : Nat :=
  (List.range index).countP p.opens

/-- The number of the loop that an instruction opens, loops being counted from 1. -/
def label (p : Program) (index : Nat) : Nat :=
  p.opened index + 1

variable {p : Program} {index i j start finish : Nat} {op : Operator} {operand : Nat}

theorem filter_range_eq {f : Nat → Bool} {m n : Nat} (le : m ≤ n)
    (none : ∀ i, m ≤ i → i < n → f i = false) :
    (List.range n).filter f = (List.range m).filter f := by
  induction n, le using Nat.le_induction with
  | base => rfl
  | succ n le ih =>
    have last : ¬ f n = true := Bool.eq_false_iff.mp (none n le (Nat.lt_succ_self n))
    rw [List.range_succ, List.filter_append, List.filter_cons_of_neg last, List.filter_nil,
      List.append_nil]
    apply ih
    intro i past upTo
    exact none i past (Nat.lt_succ_of_lt upTo)

/-! ### Loops that are open -/

theorem opens_iff : p.opens index = true ↔ ∃ finish, p.get? index = some ⟨.loopStart, finish⟩ := by
  unfold opens
  split
  · rename_i finish found
    exact iff_of_true rfl ⟨finish, found⟩
  · rename_i other
    refine iff_of_false (by decide) ?_
    intro ⟨finish, found⟩
    exact other finish found

theorem waits_iff : p.waits index i = true ↔
    ∃ finish, p.get? i = some ⟨.loopStart, finish⟩ ∧ index < finish := by
  unfold waits
  split
  · rename_i finish found
    simp [found]
  · rename_i other
    refine iff_of_false (by decide) ?_
    intro ⟨finish, found, _⟩
    exact other finish found

/-- An instruction opens a loop or not, and the others are those that enclose it. -/
theorem waiting_succ (p : Program) (index : Nat) :
    p.waiting (index + 1) = p.enclosing index ++ [index].filter (p.waits (index + 1)) := by
  rw [waiting, List.range_succ, List.filter_append]
  rfl

theorem opened_succ (p : Program) (index : Nat) :
    p.opened (index + 1) = p.opened index + if p.opens index then 1 else 0 := by
  rw [opened, List.range_succ, List.countP_append, List.countP_singleton]
  rfl

theorem opened_mono (p : Program) {m n : Nat} (le : m ≤ n) : p.opened m ≤ p.opened n := by
  induction n, le using Nat.le_induction with
  | base => exact le_rfl
  | succ n le ih =>
    rw [opened_succ]
    omega

theorem label_le_of_opens (opening : p.opens i = true) (lt : i < index) :
    p.label i ≤ p.opened index := by
  have next := p.opened_succ i
  rw [if_pos opening] at next
  rw [label, ← next]
  exact p.opened_mono lt

/-- No two loops have the same label. -/
theorem eq_of_label (opening : p.opens i = true) (opening' : p.opens j = true)
    (same : p.label i = p.label j) : i = j := by
  have ordered {m n : Nat} (first : p.opens m = true) (lt : m < n) : p.label m < p.label n :=
    Nat.lt_succ_of_le (label_le_of_opens first lt)
  rcases Nat.lt_trichotomy i j with lt | eq | gt
  · have less := ordered opening lt
    omega
  · exact eq
  · have less := ordered opening' gt
    omega

/-- Every label is given to a loop. -/
theorem exists_label {k : Nat} (positive : 1 ≤ k) (le : k ≤ p.opened index) :
    ∃ i, i < index ∧ p.opens i = true ∧ p.label i = k := by
  have before : p.opened 0 ≤ k - 1 := Nat.zero_le _
  have past : k - 1 < p.opened index := by omega
  obtain ⟨i, -, upTo, beyond⟩ := exists_passes_at before past (Nat.zero_le index)
  have next := p.opened_succ i
  by_cases opening : p.opens i = true
  · rw [if_pos opening] at next
    refine ⟨i, ?_, opening, ?_⟩
    · by_contra outside
      have more := p.opened_mono (Nat.le_of_not_lt outside)
      omega
    · rw [label]
      omega
  · rw [if_neg opening] at next
    omega

section

variable {texts : List (List Char)} (closed : Closed 0 p.instructions.toList texts)

include closed

/-! ### Loops and their brackets -/

theorem exists_loop_of_opening (found : p.get? i = some ⟨.loopStart, finish⟩) :
    ∃ l : Loop 0 p.instructions.toList, i = l.opening ∧ finish = l.closing + 1 := by
  obtain ⟨l, ⟨here, same⟩ | ⟨-, other⟩⟩ := exists_loop_of_get? closed found rfl
  · cases same
    exact ⟨l, here, rfl⟩
  · cases other

theorem exists_loop_of_closing (found : p.get? j = some ⟨.loopEnd, start⟩) :
    ∃ l : Loop 0 p.instructions.toList, j = l.closing ∧ start = l.opening + 1 := by
  obtain ⟨l, ⟨-, other⟩ | ⟨here, same⟩⟩ := exists_loop_of_get? closed found rfl
  · cases other
  · cases same
    exact ⟨l, here, rfl⟩

/-- A loop waits for its end as long as it has not come. -/
theorem waits_iff_exists_loop : p.waits index i = true ↔
    ∃ l : Loop 0 p.instructions.toList, i = l.opening ∧ index ≤ l.closing := by
  rw [waits_iff]
  constructor
  · intro ⟨finish, found, lt⟩
    obtain ⟨l, here, same⟩ := exists_loop_of_opening closed found
    exact ⟨l, here, by omega⟩
  · intro ⟨l, here, le⟩
    subst here
    exact ⟨l.closing + 1, l.get?_opening, by omega⟩

omit closed in
theorem closing_unique (l l' : Loop 0 p.instructions.toList) (same : l.opening = l'.opening) :
    l.closing = l'.closing := by
  have both := l.get?_opening
  rw [same, l'.get?_opening] at both
  obtain ⟨-, ends⟩ := Instruction.mk.inj (Option.some.inj both)
  omega

/-! ### One instruction on -/

/-- Unless an instruction closes a loop, the loops that are open when it comes enclose it. -/
theorem waiting_eq (found : p.get? index = some ⟨op, operand⟩) (other : op ≠ .loopEnd) :
    p.waiting index = p.enclosing index := by
  refine List.filter_congr fun i _ => ?_
  rw [Bool.eq_iff_iff, waits_iff_exists_loop closed, waits_iff_exists_loop closed]
  constructor
  · intro ⟨l, here, le⟩
    refine ⟨l, here, ?_⟩
    by_contra ended
    have same : l.closing = index := by omega
    have closes := l.get?_closing
    rw [same, found] at closes
    cases closes
    exact other rfl
  · intro ⟨l, here, lt⟩
    exact ⟨l, here, by omega⟩

/-- A loop that begins before another one and is open in it is open all through it. -/
theorem waits_inside (l : Loop 0 p.instructions.toList) (earlier : i < l.opening)
    (within : l.opening < index) (upTo : index ≤ l.closing + 1) :
    p.waits index i = p.waits (l.opening + 1) i := by
  rw [Bool.eq_iff_iff, waits_iff_exists_loop closed, waits_iff_exists_loop closed]
  constructor
  · intro ⟨l', here, le⟩
    exact ⟨l', here, by omega⟩
  · intro ⟨l', here, le⟩
    refine ⟨l', here, ?_⟩
    rcases l'.nested l (by omega) with behind | around
    · omega
    · omega

/-- What begins in a loop has ended before it does. -/
theorem waits_of_inside (l : Loop 0 p.instructions.toList) (begun : l.opening < i)
    (before : i < l.closing) (ended : l.closing ≤ index) : p.waits index i = false := by
  rw [Bool.eq_false_iff]
  intro waits
  obtain ⟨l', here, le⟩ := (waits_iff_exists_loop closed).mp waits
  rcases l.nested l' (by omega) with behind | inside
  · omega
  · omega

/-- What encloses the end of a loop encloses its beginning. -/
theorem enclosing_closing (l : Loop 0 p.instructions.toList) :
    p.enclosing l.closing = p.enclosing l.opening := by
  have lt := l.opening_lt_closing
  have ended : ∀ i, l.opening ≤ i → i < l.closing → p.waits (l.closing + 1) i = false := by
    intro i le before
    rcases Nat.eq_or_lt_of_le le with rfl | begun
    · rw [Bool.eq_false_iff]
      intro waits
      obtain ⟨l', here, later⟩ := (waits_iff_exists_loop closed).mp waits
      have same := closing_unique l l' here
      omega
    · exact waits_of_inside closed l begun before (Nat.le_succ _)
  rw [enclosing, enclosing, filter_range_eq (Nat.le_of_lt lt) ended]
  refine List.filter_congr fun i mem => ?_
  exact waits_inside closed l (List.mem_range.mp mem) (by omega) le_rfl

/-- When the end of a loop comes, the loop is the innermost that is open. -/
theorem waiting_closing (l : Loop 0 p.instructions.toList) :
    p.waiting l.closing = p.enclosing l.opening ++ [l.opening] := by
  have lt := l.opening_lt_closing
  have ended : ∀ i, l.opening + 1 ≤ i → i < l.closing → p.waits l.closing i = false := by
    intro i le before
    exact waits_of_inside closed l le before le_rfl
  have itself : p.waits l.closing l.opening = true :=
    (waits_iff_exists_loop closed).mpr ⟨l, rfl, le_rfl⟩
  rw [waiting, enclosing, filter_range_eq lt ended, List.range_succ, List.filter_append]
  congr 1
  · refine List.filter_congr fun i mem => ?_
    exact waits_inside closed l (List.mem_range.mp mem) lt (Nat.le_succ _)
  · rw [List.filter_cons_of_pos itself, List.filter_nil]

/-- An instruction that opens a loop adds it to those that are open. -/
theorem waiting_succ_of_opens (l : Loop 0 p.instructions.toList) :
    p.waiting (l.opening + 1) = p.enclosing l.opening ++ [l.opening] := by
  have itself : p.waits (l.opening + 1) l.opening = true :=
    (waits_iff_exists_loop closed).mpr ⟨l, rfl, l.opening_lt_closing⟩
  rw [waiting_succ, List.filter_cons_of_pos itself, List.filter_nil]

omit closed in
/-- Other instructions add none. -/
theorem waiting_succ_of_other (found : p.get? index = some ⟨op, operand⟩)
    (other : op ≠ .loopStart) : p.waiting (index + 1) = p.enclosing index := by
  have none : p.waits (index + 1) index ≠ true := by
    intro waits
    obtain ⟨finish, opening, _⟩ := waits_iff.mp waits
    rw [found] at opening
    cases opening
    exact other rfl
  rw [waiting_succ, List.filter_cons_of_neg none, List.filter_nil, List.append_nil]

end

end Program

end Brainfuck
