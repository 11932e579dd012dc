import Brainfuck.Tape.Lemmas

/-!
# The tape without its blocks

A byte for every address and a pointer: what a tape is to a program. Changes and moves of a tape are
changes and moves of its memory, so blocks are of no concern from here on.
-/

namespace Brainfuck

/-- A byte for every address, and the address of one of them. -/
@[ext] structure Memory where
  cells : Int → UInt8 := fun _ => 0
  pointer : Int := 0

namespace Memory

/-- The byte under the pointer. -/
def current (m : Memory) : UInt8 :=
  m.cells m.pointer

/-- Changes the byte under the pointer. -/
def update (m : Memory) (change : UInt8 → UInt8) : Memory :=
  { m with
    cells := fun address =>
      if address = m.pointer then change (m.cells address) else m.cells address }

/-- Moves the pointer. -/
def move (m : Memory) (delta : Int) : Memory :=
  { m with pointer := m.pointer + delta }

theorem update_update (m : Memory) (first second : UInt8 → UInt8) :
    (m.update first).update second = m.update fun byte => second (first byte) := by
  refine Memory.ext (funext fun address => ?_) ?_
  · by_cases here : address = m.pointer <;> simp [update, here]
  · rfl

theorem update_same (m : Memory) {change : UInt8 → UInt8} (same : ∀ byte, change byte = byte) :
    m.update change = m := by
  refine Memory.ext (funext fun address => ?_) ?_
  · by_cases here : address = m.pointer <;> simp [update, same]
  · rfl

theorem move_move (m : Memory) (first second : Int) :
    (m.move first).move second = m.move (first + second) := by
  simp [move, Int.add_assoc]

@[simp] theorem move_zero (m : Memory) : m.move 0 = m := by
  simp [move]

end Memory

namespace Tape

/-- What a tape is to a program. -/
def memory (t : Tape) : Memory :=
  ⟨t.readAt, t.pointer⟩

theorem memory_empty : ({} : Tape).memory = {} := by
  refine Memory.ext (funext fun address => ?_) ?_
  · exact readAt_empty address
  · rfl

theorem memory_update {t : Tape} (p : t.Placed) (change : UInt8 → UInt8) :
    (t.update change).memory = t.memory.update change := by
  refine Memory.ext (funext fun address => ?_) ?_
  · exact readAt_update p change address
  · rfl

theorem memory_move (t : Tape) (delta : Int) : (t.move delta).memory = t.memory.move delta := by
  refine Memory.ext (funext fun address => ?_) ?_
  · exact readAt_move t delta address
  · exact pointer_move t delta

/-- What is read at the slot is the byte under the pointer. -/
theorem memory_current {t : Tape} (p : t.Placed) : t.current = t.memory.current :=
  p.current_eq

end Tape

end Brainfuck
