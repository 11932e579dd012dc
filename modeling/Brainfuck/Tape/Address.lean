/-! Cell addresses. An address is a 64-bit integer; it is split into the number of its block and
the place inside that block. Block 0 lies around address 0, so that short walks to either side of
it stay in one block. -/
namespace Brainfuck

def blockSize : Nat := 1024

namespace Address

/-- The integers from -2^63 to just below 2^63, the only addresses there are. -/
def Representable (address : Int) : Prop :=
  -9223372036854775808 ≤ address ∧ address < 9223372036854775808

instance (address : Int) : Decidable (Representable address) :=
  inferInstanceAs (Decidable (_ ∧ _))

/-- The remainder of an address, moved up by half a block. Address 0 is in the middle of its
block for this reason. -/
def shifted (address : Int) : Int :=
  address % 1024 + 512

/-- The number of the block that holds an address. The address itself is divided before half a
block is added, so that no value on the way is outside the 64-bit integers. -/
def block (address : Int) : Int :=
  address / 1024 + shifted address / 1024

/-- The place of an address inside its block. -/
def cell (address : Int) : Fin blockSize :=
  Fin.ofNat 1024 (shifted address % 1024).toNat

/-- Block number and place spell the address. -/
theorem block_cell (address : Int) :
    address = 1024 * block address + (cell address : Int) - 512 := by
  simp only [block, cell, shifted, Fin.ofNat, blockSize]
  omega

end Address

end Brainfuck
