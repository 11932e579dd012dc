import Brainfuck.Operator

/-! The interrupt: a flag that is raised to halt a running program and lowered by whoever has
noticed it. -/
namespace Brainfuck

/-- When the interrupt is raised while the program reads or writes. Reads and writes are each
counted from 1 over a whole session. -/
structure Schedule where
  duringRead : Nat → Bool := fun _ => false
  duringWrite : Nat → Bool := fun _ => false

/-- The interrupt flag, and how far the session is in its schedule. -/
structure Signal where
  raised : Bool := false
  reads : Nat := 0
  writes : Nat := 0
  schedule : Schedule := {}

namespace Signal

def raise (s : Signal) : Signal :=
  { s with raised := true }

def lower (s : Signal) : Signal :=
  { s with raised := false }

/-- What becomes of the flag while an operator is executed. -/
def during (s : Signal) (operator : Operator) : Signal :=
  match operator with
  | .input =>
    { s with reads := s.reads + 1, raised := s.raised || s.schedule.duringRead (s.reads + 1) }
  | .output =>
    { s with writes := s.writes + 1, raised := s.raised || s.schedule.duringWrite (s.writes + 1) }
  | _ => s

end Signal

end Brainfuck
