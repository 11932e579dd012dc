import Brainfuck.Proofs.Tape.Refinement
import Mathlib.Data.List.Infix

/-!
# Addresses and their cells

An address is split into block and place by arithmetic on 64-bit integers, which could overflow at
either end of the address space, and which has a division that rounds down and one that cuts towards
zero. `split?` does it value by value and stops at a value that does not fit. None of them does, and
the block and the place that come out are the only ones that spell the address:
`address_split_exact`. The number of an address's block among those of a tape fits as well.
-/

namespace Brainfuck

namespace Address

/-- A value that 64-bit arithmetic comes to, if it does not overflow. -/
def fit? (value : Int) : Option Int :=
  if Representable value then some value else none

/-- The block and the place of an address, value by value. The address itself is divided rounding
down, and what has been moved up by half a block is divided cutting towards zero. -/
def split? (address : Int) : Option (Int × Int) := do
  let remainder ← fit? (address % 1024)
  let shifted ← fit? (remainder + 512)
  let whole ← fit? (address / 1024)
  let carry ← fit? (shifted.tdiv 1024)
  let number ← fit? (whole + carry)
  let place ← fit? (shifted.tmod 1024)
  return (number, place)

variable {address other number place value : Int} {requests : List Tape.Request}

theorem fit?_eq (h : Representable value) : fit? value = some value :=
  if_pos h

/-! ### One address -/

theorem cell_eq (address : Int) : (cell address : Int) = shifted address % 1024 := by
  simp only [cell, Fin.ofNat, blockSize]
  omega

/-- There are not more blocks than 64-bit integers by far. -/
theorem block_bounds (h : Representable address) :
    -9007199254740992 ≤ block address ∧ block address ≤ 9007199254740992 := by
  unfold Representable at h
  unfold block shifted
  omega

/-- Nothing overflows on the way. -/
theorem split?_eq (h : Representable address) :
    split? address = some (block address, (cell address : Int)) := by
  have positive : 0 ≤ address % 1024 + 512 := by omega
  have remainder : Representable (address % 1024) := by
    unfold Representable
    omega
  have moved : Representable (address % 1024 + 512) := by
    unfold Representable
    omega
  have whole : Representable (address / 1024) := by
    unfold Representable at h ⊢
    omega
  have carry : Representable ((address % 1024 + 512) / 1024) := by
    unfold Representable
    omega
  have number : Representable (address / 1024 + (address % 1024 + 512) / 1024) := by
    unfold Representable at h ⊢
    omega
  have place : Representable ((address % 1024 + 512) % 1024) := by
    unfold Representable
    omega
  -- What is not negative is divided alike, whether the division rounds down or cuts.
  have quotient := Int.tdiv_eq_ediv_of_nonneg (b := 1024) positive
  have rest := Int.tmod_eq_emod_of_nonneg (b := 1024) positive
  simp only [split?, fit?_eq remainder, fit?_eq moved, fit?_eq whole, quotient, fit?_eq carry,
    fit?_eq number, rest, fit?_eq place, Option.bind_eq_bind, Option.bind_some, cell_eq]
  rfl

/-- If half a block were added before the division, the highest addresses would overflow. -/
example : fit? (9223372036854775807 + 512) = none := by
  decide

/-- An address is spelled by its block and its place, and by no others. -/
theorem spells_iff : 0 ≤ place ∧ place < 1024 ∧ address = 1024 * number + place - 512 ↔
    number = block address ∧ place = cell address := by
  have itself := block_cell address
  have bound := (cell address).isLt
  unfold blockSize at bound
  constructor
  · intro ⟨low, high, spelled⟩
    omega
  · intro ⟨sameNumber, samePlace⟩
    omega

/-! ### Two addresses -/

theorem eq_of_block_of_cell (blocks : block other = block address)
    (cells : cell other = cell address) : other = address := by
  rw [block_cell other, block_cell address, blocks, cells]

theorem block_mono (le : other ≤ address) : block other ≤ block address := by
  unfold block shifted
  omega

/-! ### The blocks of a tape -/

/-- The first block of a tape is one that its pointer has been in. -/
theorem exists_block_eq_first (requests : List Tape.Request) :
    ∃ earlier, earlier <+: requests ∧
      (({} : Tape).afterAll requests).first = block (({} : Tape).afterAll earlier).pointer := by
  obtain ⟨-, spans⟩ := Tape.memory_afterAll requests
  obtain ⟨earlier, isPrefix, visited⟩ := spans.first
  obtain ⟨same, -⟩ := Tape.memory_afterAll earlier
  refine ⟨earlier, isPrefix, ?_⟩
  rw [← visited, ← same, ← Tape.block_eq]
  rfl

/-- The number of a block among those of a tape is a 64-bit integer. -/
theorem representable_slot
    (within : ∀ earlier, earlier <+: requests →
      Representable (({} : Tape).afterAll earlier).pointer)
    (h : Representable address) :
    Representable (block address - (({} : Tape).afterAll requests).first) := by
  obtain ⟨earlier, isPrefix, first⟩ := exists_block_eq_first requests
  have low := block_bounds (within earlier isPrefix)
  have high := block_bounds h
  rw [first]
  unfold Representable
  omega

/-- The split of an address is exact. No value on the way overflows, and it comes to the one block
and place that spell the address. So no other address has the same cell, lower addresses have no
higher blocks, and on a tape whose pointer has never left the address space the slot of the block is
found without an overflow. -/
theorem address_split_exact
    (within : ∀ earlier, earlier <+: requests →
      Representable (({} : Tape).afterAll earlier).pointer)
    (h : Representable address) :
    split? address = some (block address, (cell address : Int)) ∧
      (∀ number place : Int, 0 ≤ place ∧ place < 1024 ∧ address = 1024 * number + place - 512 ↔
        number = block address ∧ place = cell address) ∧
      (∀ other, block other = block address → cell other = cell address → other = address) ∧
      (∀ other, other ≤ address → block other ≤ block address) ∧
      Representable (block address - (({} : Tape).afterAll requests).first) := by
  refine ⟨split?_eq h, ?_, ?_, ?_, representable_slot within h⟩
  · intro number place
    exact spells_iff
  · intro other blocks cells
    exact eq_of_block_of_cell blocks cells
  · intro other le
    exact block_mono le

/-- The lowest and the highest address, and a tape that reaches one block to the left. -/
theorem outermost_addresses_are_split :
    let requests : List Tape.Request := [.move (-600), .increment 1, .move 3000]
    (∀ earlier, earlier <+: requests → Representable (({} : Tape).afterAll earlier).pointer) ∧
      Representable (-9223372036854775808) ∧ Representable 9223372036854775807 ∧
      split? (-9223372036854775808) = some (-9007199254740992, 512) ∧
      split? 9223372036854775807 = some (9007199254740992, 511) ∧
      (({} : Tape).afterAll requests).first = -1 ∧
      Representable (block 9223372036854775807 - (({} : Tape).afterAll requests).first) := by
  intro requests
  have each : ∀ earlier ∈ requests.inits,
      Representable (({} : Tape).afterAll earlier).pointer := by decide +kernel
  have within : ∀ earlier, earlier <+: requests →
      Representable (({} : Tape).afterAll earlier).pointer := by
    intro earlier isPrefix
    exact each earlier ((List.mem_inits earlier requests).mpr isPrefix)
  have lowest : Representable (-9223372036854775808) := by decide
  have highest : Representable 9223372036854775807 := by decide
  obtain ⟨low, -⟩ := address_split_exact within lowest
  obtain ⟨high, -, -, -, slot⟩ := address_split_exact within highest
  exact ⟨within, lowest, highest, low, high, by decide +kernel, slot⟩

end Address

end Brainfuck
