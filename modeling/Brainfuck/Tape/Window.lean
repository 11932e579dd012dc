/-! The part of the tape that is shown at a time. -/
namespace Brainfuck

/-- Which cells are shown around the pointer: how many stand before it, and how many there are. -/
structure Window where
  before : Int := 10
  width : Nat := 20
  deriving DecidableEq

end Brainfuck
