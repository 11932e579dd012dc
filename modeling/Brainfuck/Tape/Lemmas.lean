import Brainfuck.Tape

/-! The tape as a function from addresses to bytes. Main statements: the slot that is kept is always
that of the pointer's block, a change is seen at the pointer and nowhere else, and a move is seen
nowhere. -/
namespace Brainfuck.Tape

/-- The block with a number is among those of a tape. -/
def Holds (t : Tape) (number : Int) : Prop :=
  t.first ≤ number ∧ number < t.beyond

/-- The slot is the place of the pointer's block, which is one of the blocks. -/
structure Placed (t : Tape) : Prop where
  slot : (t.slot : Int) = t.block - t.first
  inside : t.slot < t.blocks.size

@[simp] theorem readAt_empty (address : Int) : ({} : Tape).readAt address = 0 := by
  unfold readAt blockAt?
  split
  · rename_i block h
    split at h
    · contradiction
    · have last := (Array.getElem?_eq_some_iff.mp h).1
      simp only [Array.size_singleton] at last
      obtain ⟨_, found⟩ := Array.getElem?_eq_some_iff.mp h
      have zero : block = Block.zero := by
        rw [← found]
        simp
      simp [zero, Block.zero]
  · rfl

theorem placed_empty : Placed {} where
  slot := by decide
  inside := by decide

/-- The pointer's block is there. -/
theorem Placed.holds {t : Tape} (p : t.Placed) : t.Holds t.block := by
  have slot := p.slot
  have inside := p.inside
  unfold Holds beyond
  omega

/-- Where the slot says, an address in the pointer's block is looked for. -/
theorem Placed.blockAt?_block {t : Tape} (p : t.Placed) :
    t.blockAt? t.block = t.blocks[t.slot]? := by
  have slot := p.slot
  have low : ¬ t.block < t.first := by omega
  have same : (t.block - t.first).toNat = t.slot := by omega
  rw [blockAt?, if_neg low, same]

/-- What is read at the slot is what is read at the pointer's address. -/
theorem Placed.current_eq {t : Tape} (p : t.Placed) : t.current = t.readAt t.pointer := by
  have inside := p.inside
  have found : t.blockAt? (Address.block t.pointer) = some t.blocks[t.slot] := by
    rw [← Array.getElem?_eq_getElem inside]
    exact p.blockAt?_block
  rw [current, readAt, found, Array.getElem?_eq_getElem inside]
  rfl

@[simp] theorem pointer_update (t : Tape) (change : UInt8 → UInt8) :
    (t.update change).pointer = t.pointer := rfl

@[simp] theorem first_update (t : Tape) (change : UInt8 → UInt8) :
    (t.update change).first = t.first := rfl

@[simp] theorem size_update (t : Tape) (change : UInt8 → UInt8) :
    (t.update change).blocks.size = t.blocks.size := by
  simp [update]

theorem Placed.update {t : Tape} (p : t.Placed) (change : UInt8 → UInt8) :
    (t.update change).Placed where
  slot := p.slot
  inside := by
    rw [size_update]
    exact p.inside

theorem Placed.write {t : Tape} (p : t.Placed) (byte : UInt8) : (t.write byte).Placed :=
  p.update _

theorem Placed.increment {t : Tape} (p : t.Placed) (count : Nat) : (t.increment count).Placed :=
  p.update _

theorem Placed.decrement {t : Tape} (p : t.Placed) (count : Nat) : (t.decrement count).Placed :=
  p.update _

/-- A change is seen at the pointer and nowhere else. -/
theorem readAt_update {t : Tape} (p : t.Placed) (change : UInt8 → UInt8) (address : Int) :
    (t.update change).readAt address =
      if address = t.pointer then change (t.readAt address) else t.readAt address := by
  have slot := p.slot
  have inside := p.inside
  have split := Address.block_cell address
  have splitPointer := Address.block_cell t.pointer
  unfold block at slot
  simp only [readAt, blockAt?, update]
  by_cases below : Address.block address < t.first
  · have apart : address ≠ t.pointer := by
      rintro rfl
      omega
    simp [below, apart]
  simp only [below, if_false, Array.getElem?_modify]
  by_cases same : Address.block t.pointer = Address.block address
  · have here : t.slot = (Address.block address - t.first).toNat := by omega
    rw [here] at inside
    simp only [here, if_true, Array.getElem?_eq_getElem inside, Option.map_some]
    by_cases cells : Address.cell address = Address.cell t.pointer
    · have here : address = t.pointer := by rw [split, splitPointer, same, cells]
      simp [here]
    · have apart : address ≠ t.pointer := fun e => cells (e ▸ rfl)
      have values : (Address.cell t.pointer).val ≠ (Address.cell address).val :=
        fun e => cells (Fin.ext e.symm)
      simp [apart, Vector.getElem_set_ne, values]
  · have apart : address ≠ t.pointer := fun e => same (e ▸ rfl)
    have slots : t.slot ≠ (Address.block address - t.first).toNat := by omega
    rw [if_neg slots, if_neg apart]

@[simp] theorem pointer_reach (t : Tape) (number : Int) : (t.reach number).pointer = t.pointer := by
  unfold reach
  split
  · rfl
  · split <;> rfl

/-- A block that has been reached is there. -/
theorem holds_reach (t : Tape) (number : Int) (h : 0 < t.blocks.size) :
    (t.reach number).Holds number := by
  unfold reach Holds beyond
  split
  · simp only [Array.size_append, Array.size_replicate]
    omega
  · split
    · simp only [Array.size_append, Array.size_replicate]
      omega
    · omega

@[simp] theorem readAt_reach (t : Tape) (number address : Int) :
    (t.reach number).readAt address = t.readAt address := by
  have zero (i : Fin blockSize) : Block.zero[i] = 0 := by simp [Block.zero]
  unfold reach
  split
  · rename_i before
    simp only [readAt, blockAt?]
    by_cases below : Address.block address < number
    · have : Address.block address < t.first := by omega
      simp [below, this]
    · simp only [below, if_false, Array.getElem?_append, Array.size_replicate]
      by_cases old : Address.block address < t.first
      · have inside : (Address.block address - number).toNat < (t.first - number).toNat := by omega
        simp [old, inside, zero]
      · have outside : ¬ (Address.block address - number).toNat < (t.first - number).toNat := by
          omega
        have slot : (Address.block address - number).toNat - (t.first - number).toNat =
            (Address.block address - t.first).toNat := by omega
        rw [if_neg outside, slot, if_neg old]
  · split
    · simp only [readAt, blockAt?]
      by_cases below : Address.block address < t.first
      · simp [below]
      · simp only [below, if_false, Array.getElem?_append]
        by_cases inside : (Address.block address - t.first).toNat < t.blocks.size
        · simp [inside]
        · have none : t.blocks[(Address.block address - t.first).toNat]? = none :=
            Array.getElem?_eq_none (by omega)
          simp only [inside, if_false, none, Array.getElem?_replicate]
          split
          · rename_i block found
            split at found
            · rw [← Option.some.inj found, zero]
            · simp at found
          · rfl
    · rfl

@[simp] theorem pointer_move (t : Tape) (delta : Int) :
    (t.move delta).pointer = t.pointer + delta := by
  simp [move]

@[simp] theorem readAt_move (t : Tape) (delta address : Int) :
    (t.move delta).readAt address = t.readAt address :=
  readAt_reach { t with pointer := t.pointer + delta } _ address

/-- A move finds the slot again, whatever it was before. -/
theorem placed_move (t : Tape) (delta : Int) (h : 0 < t.blocks.size) : (t.move delta).Placed := by
  have block : (t.move delta).block = Address.block (t.pointer + delta) := by
    rw [Tape.block, pointer_move]
  obtain ⟨low, high⟩ := holds_reach { t with pointer := t.pointer + delta }
    (Address.block (t.pointer + delta)) h
  unfold beyond at high
  constructor
  · rw [block]
    simp only [move, Tape.block]
    omega
  · simp only [move, Tape.block]
    omega

/-- A tape whose pointer's block is there has blocks at all, so that it can move. -/
theorem Placed.move {t : Tape} (p : t.Placed) (delta : Int) : (t.move delta).Placed := by
  have inside := p.inside
  exact placed_move t delta (by omega)

end Brainfuck.Tape
