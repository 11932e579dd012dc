import Brainfuck.Proofs.Debugger.Interrupting
import Brainfuck.Shell.Execute

/-!
# The interrupt between two command lines

A command line begins with the flag lowered, so the shell cannot tell whether the interrupt was
raised before it. A shell apart from its flag is `calm`; two shells that are the same when they are
calm execute a line alike, and stay the same over any number of lines with interrupts in between.
-/

namespace Brainfuck

namespace Shell

/-- What a shell meets between two commands and in them. -/
inductive Entry
  | line (fuel : Nat) (text : String)
  /-- The interrupt is raised at the prompt. -/
  | interrupt

def Entry.isLine : Entry → Bool
  | line _ _ => true
  | interrupt => false

def enter (s : Shell) : Entry → Shell
  | .line fuel text => (s.execute fuel text).1
  | .interrupt => { s with debugger := s.debugger.interrupt }

/-- Some entries, one after the other. -/
def entered (s : Shell) (entries : List Entry) : Shell :=
  entries.foldl enter s

/-- The shell with the flag lowered. -/
def calm (s : Shell) : Shell :=
  { s with debugger := s.debugger.takeInterrupt.1 }

variable {s s' : Shell}

theorem execute_calm (s : Shell) (fuel : Nat) (line : String) :
    s.calm.execute fuel line = s.execute fuel line := by
  have begun : s.calm.begin line = s.begin line := by
    unfold begin
    rfl
  rw [execute, execute, begun]

/-- Shells that differ in their flags only execute a line alike. -/
theorem execute_congr (alike : s.calm = s'.calm) (fuel : Nat) (line : String) :
    s.execute fuel line = s'.execute fuel line := by
  rw [← execute_calm, alike, execute_calm]

/-- Whether the interrupt is raised between the lines makes no difference to them. -/
theorem calm_entered (alike : s.calm = s'.calm) (entries : List Entry) :
    (s.entered entries).calm = (s'.entered (entries.filter Entry.isLine)).calm := by
  induction entries generalizing s s' with
  | nil => exact alike
  | cons entry later ih =>
    cases entry with
    | line fuel text =>
      have same : s.enter (.line fuel text) = s'.enter (.line fuel text) :=
        congrArg Prod.fst (execute_congr alike fuel text)
      exact ih (congrArg calm same)
    | interrupt => exact ih (s := { s with debugger := s.debugger.interrupt }) alike

end Shell

/-- In every call of every session the interrupt is heeded at once and not lost. Between two lines
of a shell it has no effect: with it or without it the shell is the same but for the flag, and
executes every later line alike. -/
theorem interrupt_prompt_and_kept :
    (∀ (d : Debugger) (call : Debugger.Call) (pace : Debugger.Pace), call.pace? = some pace →
      d.HeedsInterrupt call pace) ∧
    ∀ (s : Shell) (entries : List Shell.Entry),
      (s.entered entries).calm = (s.entered (entries.filter Shell.Entry.isLine)).calm ∧
      ∀ fuel line, (s.entered entries).execute fuel line =
        (s.entered (entries.filter Shell.Entry.isLine)).execute fuel line := by
  refine ⟨fun d call pace paced => d.heedsInterrupt paced, fun s entries => ?_⟩
  have alike := Shell.calm_entered (rfl : s.calm = s.calm) entries
  exact ⟨alike, Shell.execute_congr alike⟩

/-- The interrupt is raised while `,+` reads: the run pauses for it before `+`. A step over the `,`
has returned by then, and the flag is still raised. -/
theorem interrupt_during_input :
    let p : Program := ⟨#[⟨.input, 1⟩, ⟨.increment, 1⟩], some #[some 0], 1, #[]⟩
    let d : Debugger := .ofProgram p [97] { duringRead := (· == 1) }
    Program.ofSource true ",+" = .ok p ∧
      ((d.calling .run 1).debugger.signal.raised = true ∧
        (d.calling .run 2).Returned (.paused .interrupted) ∧
        (d.calling .run 2).debugger.signal.raised = false ∧
        (d.calling .run 2).debugger.machine = (d.calling .run 1).debugger.machine) ∧
      ((d.calling .step 1).Returned (.paused .stepped) ∧
        (d.calling .step 1).debugger.signal.raised = true) := by
  intro p d
  have accepted : Program.ofSource true ",+" = .ok p := by cbv
  have run : d.HeedsInterrupt .run .running := interrupt_prompt_and_kept.1 d .run .running rfl
  have raised : (d.calling .run 1).debugger.signal.raised = true := by decide +kernel
  obtain ⟨outcome, returned, machine, -⟩ := run.prompt 1 2 (by decide) raised
  have paused : (d.calling .run 2).Returned (.paused .interrupted) :=
    ⟨returned.1, by decide +kernel⟩
  have lowered : (d.calling .run 2).debugger.signal.raised = false := by
    simpa using run.kept 1 2 _ raised paused
  have stepped : (d.calling .step 1).Returned (.paused .stepped) :=
    ⟨by decide +kernel, by decide +kernel⟩
  have still : (d.calling .step 1).debugger.signal.raised = true := by decide +kernel
  exact ⟨accepted, ⟨raised, paused, lowered, machine⟩, stepped, still⟩

end Brainfuck
