import Brainfuck.Operator
import Brainfuck.Text.Column

/-! One instruction of an analysed program. -/
namespace Brainfuck

/-- An operator with its operand: how often it is repeated for `+ - < >`, where execution goes on
for `[ ]`, and 1 for `, .`. -/
structure Instruction where
  operator : Operator
  operand : Nat
  deriving DecidableEq

namespace Instruction

/-- The operator's name in a column of 15, a blank, and the operand. -/
def text (i : Instruction) : String :=
  Text.Column.left 15 i.operator.name ++ " " ++ toString i.operand

end Instruction

end Brainfuck
