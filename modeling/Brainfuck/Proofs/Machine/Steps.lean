import Brainfuck.Machine
import Brainfuck.Proofs.Steps

/-!
# Uninterrupted execution

The steps of the machine, and the indices of the instructions that are executed. This is what a
debug session is compared with: `Machine.step?` knows of no breakpoint, no watched cell and no
interrupt.
-/

namespace Brainfuck

/-- `++[`, `-]` and `.` on three lines: counts a cell down. Laws about sessions are tried on it. -/
def Program.countdown : Program where
  instructions :=
    #[⟨.increment, 2⟩, ⟨.loopStart, 4⟩, ⟨.decrement, 1⟩, ⟨.loopEnd, 2⟩, ⟨.output, 1⟩]
  lineBegins := some #[some 0, some 2, some 4]
  lineCount := 3
  warnings := #[]

namespace Machine

/-- The indices of the first instructions that are executed, as many as asked for or as there
are. -/
def trace (p : Program) : Nat → Machine → List Nat
  | 0, _ => []
  | n + 1, m =>
    match m.step? p with
    | none => []
    | some next => m.pc :: trace p n next

variable {p : Program} {m next : Machine}

theorem step?_of_get? {i : Instruction} (h : p.get? m.pc = some i) :
    m.step? p = some (m.execute i) := by
  simp [step?, h]

theorem step?_eq_none_iff : m.step? p = none ↔ p.get? m.pc = none := by
  simp [step?]

theorem trace_succ {n : Nat} {start : Machine} (h : after? (step? p) n start = some m)
    (hs : m.step? p = some next) : trace p (n + 1) start = trace p n start ++ [m.pc] := by
  induction n generalizing start with
  | zero =>
    obtain rfl : start = m := Option.some.inj h
    simp [trace, hs]
  | succ n ih =>
    obtain ⟨second, first, rest⟩ := Option.bind_eq_some_iff.mp h
    rw [trace, first, trace, first]
    simp [ih rest]

/-- A trace is that of a machine that is reached. -/
theorem exists_after?_trace (n : Nat) (start : Machine) :
    ∃ k m, after? (step? p) k start = some m ∧ trace p k start = trace p n start := by
  induction n generalizing start with
  | zero => exact ⟨0, start, rfl, rfl⟩
  | succ n ih =>
    cases first : start.step? p with
    | none => exact ⟨0, start, rfl, by simp [trace, first]⟩
    | some second =>
      obtain ⟨k, m, reached, same⟩ := ih second
      exact ⟨k + 1, m, by simp [after?, first, reached], by simp [trace, first, same]⟩

end Machine

end Brainfuck
