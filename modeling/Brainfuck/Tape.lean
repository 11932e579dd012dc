import Brainfuck.Tape.Address

/-! The tape: cells of one byte, all zero at first, without an end on either side, and a pointer to
one of them. Cells are kept in blocks, and only the blocks between the outermost ones that the
pointer has been in. A cell outside of them is still zero, and looking at it adds no block. -/
namespace Brainfuck

abbrev Block := Vector UInt8 blockSize

/-- A block nothing has been written to. -/
def Block.zero : Block :=
  Vector.replicate blockSize 0

/-- The cells that have been in reach of the pointer, and the pointer. -/
structure Tape where
  /-- Neighbouring blocks, in the order of their numbers. -/
  blocks : Array Block := #[Block.zero]
  /-- The number of the first of the blocks. -/
  first : Int := 0
  /-- The address of the cell that operators act on. -/
  pointer : Int := 0
  /-- The place of the pointer's block among the blocks. It is kept from move to move, so that no
  operator has to look for the block. -/
  slot : Nat := 0
  deriving DecidableEq

namespace Tape

/-- The number of the block that holds the pointer. -/
def block (t : Tape) : Int :=
  Address.block t.pointer

def blockCount (t : Tape) : Nat :=
  t.blocks.size

/-- The block with a number, if there is one. -/
def blockAt? (t : Tape) (number : Int) : Option Block :=
  if number < t.first then none else t.blocks[(number - t.first).toNat]?

def readAt (t : Tape) (address : Int) : UInt8 :=
  match t.blockAt? (Address.block address) with
  | some block => block[Address.cell address]
  | none => 0

/-- The byte at an offset from the pointer, and zero where there is no such address. -/
def read (t : Tape) (offset : Int) : UInt8 :=
  if Address.Representable (t.pointer + offset) then t.readAt (t.pointer + offset) else 0

/-- Neighbouring bytes from an offset on. An offset that is no 64-bit integer reads as zero. -/
def peek (t : Tape) (offset : Int) (length : Nat) : List UInt8 :=
  (List.range length).map fun index : Nat =>
    if Address.Representable (offset + index) then t.read (offset + index) else 0

/-- The byte under the pointer. -/
def current (t : Tape) : UInt8 :=
  (t.blocks[t.slot]?.getD Block.zero)[Address.cell t.pointer]

/-- Changes the byte under the pointer. -/
def update (t : Tape) (change : UInt8 → UInt8) : Tape :=
  let cell := Address.cell t.pointer
  { t with blocks := t.blocks.modify t.slot fun block =>
      block.set cell (change block[cell]) cell.isLt }

def write (t : Tape) (byte : UInt8) : Tape :=
  t.update fun _ => byte

/-- Adds to the byte under the pointer, modulo 256. -/
def increment (t : Tape) (count : Nat) : Tape :=
  t.update (· + UInt8.ofNat count)

/-- Subtracts from the byte under the pointer, modulo 256. -/
def decrement (t : Tape) (count : Nat) : Tape :=
  t.update (· - UInt8.ofNat count)

/-- The number behind that of the last block. -/
def beyond (t : Tape) : Int :=
  t.first + t.blocks.size

/-- Adds the zero blocks up to a block number, on the side where they are missing. -/
def reach (t : Tape) (block : Int) : Tape :=
  if block < t.first then
    { t with
      blocks := Array.replicate (t.first - block).toNat Block.zero ++ t.blocks
      first := block }
  else if t.beyond ≤ block then
    { t with blocks := t.blocks ++ Array.replicate (block + 1 - t.beyond).toNat Block.zero }
  else t

/-- Moves the pointer. Blocks that are added on the left give the others new places, so the place of
the pointer's block is found anew once it has been reached. -/
def move (t : Tape) (delta : Int) : Tape :=
  let moved := { t with pointer := t.pointer + delta }
  let reached := moved.reach moved.block
  { reached with slot := (moved.block - reached.first).toNat }

def summary (t : Tape) : String :=
  "Tape \x7b pointer: " ++ toString t.pointer ++ ", first_block: " ++ toString t.first ++
    ", blocks: " ++ toString t.blockCount ++ " \x7d"

end Tape

end Brainfuck
