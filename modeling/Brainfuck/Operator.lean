/-! The eight operators of a program text. Every other character is a comment. -/
namespace Brainfuck

/-- What one significant character of a program text asks for. -/
inductive Operator
  /-- `+`: adds to the cell under the pointer. -/
  | increment
  /-- `-`: subtracts from the cell under the pointer. -/
  | decrement
  /-- `<`: moves the pointer down. -/
  | shiftLeft
  /-- `>`: moves the pointer up. -/
  | shiftRight
  /-- `[`: passes over the loop if the cell is zero. -/
  | loopStart
  /-- `]`: goes back into the loop unless the cell is zero. -/
  | loopEnd
  /-- `,`: stores the next input byte, or zero at the end of the input. -/
  | input
  /-- `.`: writes the cell to the output. -/
  | output
  deriving DecidableEq

namespace Operator

/-- The operator that a character stands for; a comment character stands for none. -/
def ofChar? : Char → Option Operator
  | '+' => some increment
  | '-' => some decrement
  | '<' => some shiftLeft
  | '>' => some shiftRight
  | '[' => some loopStart
  | ']' => some loopEnd
  | ',' => some input
  | '.' => some output
  | _ => none

def symbol : Operator → Char
  | increment => '+'
  | decrement => '-'
  | shiftLeft => '<'
  | shiftRight => '>'
  | loopStart => '['
  | loopEnd => ']'
  | input => ','
  | output => '.'

def name : Operator → String
  | increment => "Increment"
  | decrement => "Decrement"
  | shiftLeft => "ShiftLeft"
  | shiftRight => "ShiftRight"
  | loopStart => "LoopStart"
  | loopEnd => "LoopEnd"
  | input => "Input"
  | output => "Output"

/-- The operator that undoes this one. Only the operators whose repetitions are counted have an
opposite. -/
def opposite : Operator → Option Operator
  | increment => some decrement
  | decrement => some increment
  | shiftLeft => some shiftRight
  | shiftRight => some shiftLeft
  | _ => none

/-- An operator is read back from its symbol. -/
@[simp] theorem ofChar?_symbol (op : Operator) : ofChar? op.symbol = some op := by
  cases op <;> rfl

/-- Opposition is mutual. -/
theorem opposite_comm {a b : Operator} (h : a.opposite = some b) : b.opposite = some a := by
  cases a <;> cases h <;> rfl

end Operator

end Brainfuck
