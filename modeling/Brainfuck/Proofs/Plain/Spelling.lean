import Brainfuck.Machine
import Brainfuck.Proofs.Plain.Basic

/-!
# Text that spells an instruction

An instruction stands for a piece of text: for a run of one operator with comments in it and with
whatever has cancelled out, or for a bracket, a read or a write with idle text before it. `Spells`
says which text that is for the operators that have no partner elsewhere, and the lemmas below what
one more character makes of it.
-/

namespace Brainfuck

open Plain

/-- The operators whose repetitions are counted. -/
def Operator.isCounted (op : Operator) : Bool :=
  op.opposite.isSome

/-- What an instruction of a counted operator does to the memory. -/
def Instruction.onMemory (i : Instruction) (m : Memory) : Memory :=
  match i.operator with
  | .increment => m.update (· + UInt8.ofNat i.operand)
  | .decrement => m.update (· - UInt8.ofNat i.operand)
  | .shiftLeft => m.move (-i.operand)
  | .shiftRight => m.move i.operand
  | _ => m

/-! ### Characters -/

theorem symbol_of_ofChar? {c : Char} {op : Operator} (h : Operator.ofChar? c = some op) :
    c = op.symbol := by
  unfold Operator.ofChar? at h
  split at h <;> cases h <;> rfl

theorem quiet_of_isCounted {op : Operator} (counted : op.isCounted = true) : Quiet op.symbol := by
  cases op <;> first | contradiction | (refine ⟨?_, ?_, ?_, ?_⟩ <;> decide)

theorem after_symbol {op : Operator} (counted : op.isCounted = true) (m : Memory) :
    m.after op.symbol = Instruction.onMemory ⟨op, 1⟩ m := by
  cases op <;> first | contradiction | rfl

theorem quiet_of_comment {c : Char} (h : Operator.ofChar? c = none) : Quiet c := by
  refine ⟨?_, ?_, ?_, ?_⟩ <;> rintro rfl <;> cases h

theorem after_comment {c : Char} (h : Operator.ofChar? c = none) (m : Memory) : m.after c = m := by
  unfold Memory.after
  split <;> first | cases h | rfl

/-! ### Counting -/

variable {op other : Operator} {n : Nat}

@[simp] theorem onMemory_zero (op : Operator) (m : Memory) :
    Instruction.onMemory ⟨op, 0⟩ m = m := by
  cases op <;> simp [Instruction.onMemory, Memory.update_same]

/-- One more of the same kind. -/
theorem onMemory_succ (op : Operator) (n : Nat) (m : Memory) :
    Instruction.onMemory ⟨op, 1⟩ (Instruction.onMemory ⟨op, n⟩ m) =
      Instruction.onMemory ⟨op, n + 1⟩ m := by
  cases op <;> simp only [Instruction.onMemory, Memory.update_update, Memory.move_move]
  case increment =>
    congr 1
    funext byte
    rw [UInt8.ofNat_add, UInt8.add_assoc]
  case decrement =>
    congr 1
    funext byte
    rw [UInt8.ofNat_add]
    grind
  case shiftLeft =>
    congr 1
    omega
  case shiftRight => rfl

/-- One of the opposite kind takes one away. -/
theorem onMemory_opposite (h : op.opposite = some other) (n : Nat) (m : Memory) :
    Instruction.onMemory ⟨op, 1⟩ (Instruction.onMemory ⟨other, n + 1⟩ m) =
      Instruction.onMemory ⟨other, n⟩ m := by
  cases op <;> cases h <;>
    simp only [Instruction.onMemory, Memory.update_update, Memory.move_move]
  case increment =>
    congr 1
    funext byte
    rw [UInt8.ofNat_add]
    grind
  case decrement =>
    congr 1
    funext byte
    rw [UInt8.ofNat_add]
    grind
  case shiftLeft =>
    congr 1
    omega
  case shiftRight =>
    congr 1
    omega

/-! ### Text -/

/-- Text that does nothing: comments, and operators that cancel each other. -/
structure Idle (text : List Char) : Prop where
  quiet : ∀ c ∈ text, Quiet c
  still : ∀ m : Memory, text.foldl Memory.after m = m

theorem idle_nil : Idle [] :=
  ⟨by simp, fun _ => rfl⟩

theorem Idle.comment {text : List Char} {c : Char} (h : Idle text)
    (comment : Operator.ofChar? c = none) : Idle (text ++ [c]) where
  quiet := by
    intro x mem
    rcases List.mem_append.mp mem with mem | mem
    · exact h.quiet x mem
    · rw [List.mem_singleton.mp mem]
      exact quiet_of_comment comment
  still := by simp [h.still, after_comment comment]

/-- The text of an instruction that is no bracket. -/
inductive Spells : Instruction → List Char → Prop
  | counted {i : Instruction} {text : List Char} (kind : i.operator.isCounted = true)
      (positive : 0 < i.operand) (written : text ≠ []) (quiet : ∀ c ∈ text, Quiet c)
      (effect : ∀ m : Memory, text.foldl Memory.after m = i.onMemory m) : Spells i text
  | input {idle : List Char} (h : Idle idle) : Spells ⟨.input, 1⟩ (idle ++ [','])
  | output {idle : List Char} (h : Idle idle) : Spells ⟨.output, 1⟩ (idle ++ ['.'])

/-- A run begins. -/
theorem Idle.spells {idle : List Char} (h : Idle idle) (counted : op.isCounted = true) :
    Spells ⟨op, 1⟩ (idle ++ [op.symbol]) := by
  refine .counted counted Nat.one_pos (by simp) ?_ ?_
  · intro c mem
    rcases List.mem_append.mp mem with mem | mem
    · exact h.quiet c mem
    · rw [List.mem_singleton.mp mem]
      exact quiet_of_isCounted counted
  · intro m
    rw [List.foldl_append, h.still]
    exact after_symbol counted m

/-- What the text of a run, idle text and one more symbol do together. -/
theorem foldl_after_join {text idle : List Char} {i : Instruction}
    (effect : ∀ m : Memory, text.foldl Memory.after m = i.onMemory m) (h : Idle idle)
    (counted : op.isCounted = true) (m : Memory) :
    (text ++ (idle ++ [op.symbol])).foldl Memory.after m =
      Instruction.onMemory ⟨op, 1⟩ (i.onMemory m) := by
  rw [List.foldl_append, List.foldl_append, effect, h.still]
  exact after_symbol counted _

theorem quiet_join {text idle : List Char} (quiet : ∀ c ∈ text, Quiet c) (h : Idle idle)
    (counted : op.isCounted = true) : ∀ c ∈ text ++ (idle ++ [op.symbol]), Quiet c := by
  intro c mem
  rcases List.mem_append.mp mem with mem | mem
  · exact quiet c mem
  · rcases List.mem_append.mp mem with mem | mem
    · exact h.quiet c mem
    · rw [List.mem_singleton.mp mem]
      exact quiet_of_isCounted counted

/-- A run goes on. -/
theorem Spells.succ {text idle : List Char} (s : Spells ⟨op, n⟩ text) (h : Idle idle)
    (counted : op.isCounted = true) : Spells ⟨op, n + 1⟩ (text ++ (idle ++ [op.symbol])) := by
  cases s with
  | counted kind positive written quiet effect =>
    refine .counted kind n.succ_pos (by simp) (quiet_join quiet h counted) fun m => ?_
    rw [foldl_after_join effect h counted, onMemory_succ]
  | input => cases counted
  | output => cases counted

/-- One of the opposite kind is taken away from a run, and another is left. -/
theorem Spells.pred {text idle : List Char} (s : Spells ⟨other, n + 1⟩ text) (h : Idle idle)
    (opposite : op.opposite = some other) (left : 0 < n) :
    Spells ⟨other, n⟩ (text ++ (idle ++ [op.symbol])) := by
  have counted : op.isCounted = true := by simp [Operator.isCounted, opposite]
  cases s with
  | counted kind positive written quiet effect =>
    refine .counted kind left (by simp) (quiet_join quiet h counted) fun m => ?_
    rw [foldl_after_join effect h counted, onMemory_opposite opposite]
  | input => cases left
  | output => cases left

/-- One of the opposite kind takes the last one away, and the text of both is idle. -/
theorem Spells.cancel {text idle : List Char} (s : Spells ⟨other, 1⟩ text) (h : Idle idle)
    (opposite : op.opposite = some other) : Idle (text ++ (idle ++ [op.symbol])) := by
  have counted : op.isCounted = true := by simp [Operator.isCounted, opposite]
  cases s with
  | counted kind positive written quiet effect =>
    refine ⟨quiet_join quiet h counted, fun m => ?_⟩
    rw [foldl_after_join effect h counted, onMemory_opposite opposite, onMemory_zero]
  | input => cases op <;> cases opposite
  | output => cases op <;> cases opposite

theorem Spells.positive {i : Instruction} {text : List Char} (s : Spells i text) :
    0 < i.operand := by
  cases s with
  | counted _ positive => exact positive
  | input => exact Nat.one_pos
  | output => exact Nat.one_pos

/-- Idle text is passed over by the search for a partner. -/
theorem nested_of_quiet {text : List Char} (quiet : ∀ c ∈ text, Quiet c) : Nested text :=
  nested_of_notMem (fun mem => (quiet _ mem).1 rfl) fun mem => (quiet _ mem).2.1 rfl

/-- So is the text of an instruction that is no bracket. -/
theorem Spells.nested {i : Instruction} {text : List Char} (s : Spells i text) : Nested text := by
  cases s with
  | counted _ _ _ quiet => exact nested_of_quiet quiet
  | input h => exact (nested_of_quiet h.quiet).append (nested_of_notMem (by decide) (by decide))
  | output h => exact (nested_of_quiet h.quiet).append (nested_of_notMem (by decide) (by decide))

end Brainfuck
