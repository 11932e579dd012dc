import Brainfuck.Instruction
import Brainfuck.Program
import Brainfuck.Tape

/-! The machine that executes programs. It cannot fail: cells wrap around, the input is followed by
zeros, and the tape has no end. -/
namespace Brainfuck

/-- A program on its way: its memory, where it goes on, the bytes it has not read yet, and the
bytes it has written. -/
structure Machine where
  tape : Tape := {}
  /-- The index of the instruction to execute next. -/
  pc : Nat := 0
  input : List UInt8 := []
  output : Array UInt8 := #[]
  deriving DecidableEq

namespace Machine

def execute (m : Machine) (i : Instruction) : Machine :=
  match i.operator with
  | .increment => { m with tape := m.tape.increment i.operand, pc := m.pc + 1 }
  | .decrement => { m with tape := m.tape.decrement i.operand, pc := m.pc + 1 }
  | .shiftLeft => { m with tape := m.tape.move (-i.operand), pc := m.pc + 1 }
  | .shiftRight => { m with tape := m.tape.move i.operand, pc := m.pc + 1 }
  | .loopStart => { m with pc := if m.tape.current = 0 then i.operand else m.pc + 1 }
  | .loopEnd => { m with pc := if m.tape.current = 0 then m.pc + 1 else i.operand }
  | .input =>
    match m.input with
    | [] => { m with tape := m.tape.write 0, pc := m.pc + 1 }
    | byte :: rest => { m with tape := m.tape.write byte, pc := m.pc + 1, input := rest }
  | .output => { m with output := m.output.push m.tape.current, pc := m.pc + 1 }

/-- The effect of the instruction to execute next, if the program has not ended. -/
def step? (p : Program) (m : Machine) : Option Machine :=
  (p.get? m.pc).map m.execute

/-- Back to the first instruction with a fresh tape. What has been read and written stays so. -/
def restart (m : Machine) : Machine :=
  { m with tape := {}, pc := 0 }

end Machine

end Brainfuck
