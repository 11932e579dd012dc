import Brainfuck.Proofs.Shell.Moves

/-!
# Plain steps and detailed steps

Two commands step through a program: one of them shows nothing but what the program writes, and one
shows each instruction with the tape and looks for the interrupt itself. Both make the same calls of
the debugger (`steps`), up to the same one, and leave it the same but for the reason of a pause for
the interrupt.
-/

namespace Brainfuck

namespace Debugger

/-- Steps one after the other, until one has come to more than a plain step or as many as given have
been made. What the last one has come to is told if it was no plain step. -/
def steps : Nat → Debugger → Debugger × Option Outcome
  | 0, d => (d, none)
  | n + 1, d =>
    match d.step with
    | (after, .paused .stepped) => steps n after
    | (after, outcome) => (after, some outcome)

variable {d : Debugger}

theorem steps_succ (d : Debugger) (n : Nat) :
    d.steps (n + 1) =
      if d.step.2 = .paused .stepped then d.step.1.steps n else (d.step.1, some d.step.2) := by
  rw [steps]
  rcases d.step with ⟨after, outcome⟩
  split
  · simp_all
  · simp_all

theorem phase_steps {n : Nat} {outcome : Outcome} (ended : (d.steps n).2 = some outcome) :
    (d.steps n).1.phase = outcome.phase := by
  induction n generalizing d with
  | zero => cases ended
  | succ n ih =>
    rw [steps_succ] at ended ⊢
    split at ended
    · rw [if_pos ‹_›]
      exact ih ended
    · rw [if_neg ‹_›]
      obtain rfl := Option.some.inj ended
      exact d.phase_step

/-- A step that begins with the flag raised lowers it and pauses, and does nothing else. -/
theorem step_of_raised (raised : d.signal.raised = true) (paused : d.phase = .paused .stepped) :
    d.step = ({ d.takeInterrupt.1 with phase := .paused .interrupted }, .paused .interrupted) := by
  have started : d.started = d := by
    rw [Debugger.started, paused]
  rw [step, started, single, if_pos raised]
  rfl

/-- To lower a flag that is not raised changes nothing. -/
theorem takeInterrupt_of_lowered (lowered : d.signal.raised = false) : d.takeInterrupt.1 = d := by
  have same : d.signal.lower = d.signal := by
    rw [Signal.lower, ← lowered]
  rw [takeInterrupt, same]

end Debugger

namespace Shell

/-- Plain steps make calls of the debugger, and report what the last one has come to. -/
theorem whole_step (s : Shell) (n : Nat) :
    (s.step n).whole = (s.whole.steps n).1 ∧
      (s.step n).statuses = s.statuses ++ ((s.whole.steps n).2.map (s.step n).status).toList := by
  induction n generalizing s with
  | zero => simp [step, Debugger.steps]
  | succ n ih =>
    obtain ⟨whole, outcome⟩ := s.whole_stepOnce
    have statuses := s.statuses_stepOnce
    rw [step_succ, Debugger.steps_succ, ← outcome, ← whole]
    split
    · obtain ⟨reached, told⟩ := ih s.stepOnce.1
      exact ⟨reached, statuses ▸ told⟩
    · simp [statuses_report, statuses]

theorem calm_of_lowered {s : Shell} (lowered : s.debugger.signal.raised = false) : s.calm = s := by
  rw [calm, Debugger.takeInterrupt_of_lowered lowered]

/-- Detailed steps make the same calls. They look for the interrupt before each of them, so that
they know of one that the last step has raised before the debugger does. -/
theorem whole_detailed (n : Nat) {s : Shell}
    (raised : s.debugger.signal.raised = true → s.debugger.phase = .paused .stepped) :
    (s.detailed n).whole =
        { (s.whole.steps n).1 with
          phase :=
            if (s.whole.steps n).2 = some (.paused .interrupted) then .paused .stepped
            else (s.whole.steps n).1.phase } ∧
      (s.detailed n).statuses =
        s.statuses ++ ((s.whole.steps n).2.map (s.detailed n).status).toList := by
  induction n generalizing s with
  | zero => simp [detailed, Debugger.steps]
  | succ n ih =>
    rw [detailed_if, Debugger.steps_succ]
    split
    · have step := Debugger.step_of_raised (d := s.whole) ‹_› (raised ‹_›)
      have phase : s.whole.phase = .paused .stepped := raised ‹_›
      rw [step, if_neg (by simp)]
      refine ⟨?_, by simp [statuses_report]⟩
      rw [whole_report, if_pos rfl, ← phase]
      rfl
    · rename_i notRaised
      have lowered : s.debugger.signal.raised = false := by simpa using notRaised
      obtain ⟨whole, outcome⟩ := s.announced.whole_stepOnce
      have statuses := s.announced.statuses_stepOnce
      have phase := s.announced.phase_stepOnce
      rw [whole_announced] at whole outcome
      rw [calm_of_lowered lowered, ← outcome, ← whole]
      split
      · rename_i plain
        rw [plain] at phase
        obtain ⟨reached, told⟩ := ih (s := s.announced.stepOnce.1.showWindow) fun _ => by
          simpa [Outcome.phase] using phase
        rw [whole_showWindow] at reached told
        exact ⟨reached, by rw [told]; simp [statuses]⟩
      · -- A step that began with the flag lowered is not interrupted.
        have other : s.announced.stepOnce.2 ≠ .paused .interrupted :=
          Debugger.step_ne_interrupted (by simpa using lowered)
        rw [whole_report, whole_showWindow, if_neg (by simpa using other)]
        exact ⟨rfl, by simp [statuses_report, statuses]⟩

@[simp] theorem phase_whole (s : Shell) : s.whole.phase = s.debugger.phase := rfl

theorem execute_of_parse {s : Shell} {line : String} {command : Command}
    (parsed : Command.parse line = .ok (some command)) {after : Shell} {flow : Flow}
    (done : s.calm.dispatch command = (after, .done flow)) (fuel : Nat) :
    s.execute fuel line = (after, some flow) := by
  refine execute_of_done ?_ fuel
  rw [begin, parsed]
  exact done

end Shell

/-- A command for some plain steps and one for as many detailed steps make the same calls of the
debugger, up to the first that is no plain step, and report it alike. What they leave differs in one
thing: when that call was a pause for the interrupt, detailed steps leave the session stepped. -/
theorem step_and_detailed_take_same_steps {s : Shell} {line line' : String} {n : Nat}
    {times : Option Nat} (plainly : Command.parse line = .ok (some (.step n)))
    (detailed : Command.parse line' = .ok (some (.detailed times)))
    (same : times.getD (Text.Numeral.countBound - 1) = n) (fuel : Nat) :
    ∃ plain full last outcome,
      s.execute fuel line = (plain, some .goOn) ∧ s.execute fuel line' = (full, some .goOn) ∧
      s.calm.whole.steps n = (last, outcome) ∧
      plain.whole = last ∧ full.whole = { last with phase := full.debugger.phase } ∧
      full.debugger.running = plain.debugger.running ∧
      (full.debugger.phase = if outcome = some (.paused .interrupted) then .paused .stepped
        else plain.debugger.phase) ∧
      plain.statuses = s.statuses ++ (outcome.map plain.status).toList ∧
      full.statuses = s.statuses ++ (outcome.map full.status).toList := by
  obtain ⟨whole, told⟩ := s.calm.whole_step n
  obtain ⟨whole', told'⟩ := Shell.whole_detailed n (s := s.calm) nofun
  rcases made : s.calm.whole.steps n with ⟨last, outcome⟩
  rw [made] at whole whole' told told'
  have left : (s.calm.step n).debugger.phase = last.phase := by
    rw [← Shell.phase_whole, whole]
  have left' : (s.calm.detailed n).debugger.phase =
      if outcome = some (.paused .interrupted) then .paused .stepped else last.phase := by
    rw [← Shell.phase_whole, whole']
  have reply : s.calm.dispatch (.detailed times) = (s.calm.detailed n, .done .goOn) := by
    rw [← same]
    rfl
  refine ⟨s.calm.step n, s.calm.detailed n, last, outcome, Shell.execute_of_parse plainly rfl fuel,
    Shell.execute_of_parse detailed reply fuel, rfl, whole, ?_, ?_, ?_, told, told'⟩
  · rw [left']
    exact whole'
  · rw [Debugger.running, Debugger.running, left', left]
    split
    · have paused := Debugger.phase_steps (congrArg Prod.snd made |>.trans ‹_›)
      rw [made] at paused
      rw [paused]
      rfl
    · rfl
  · rw [left', left]

/-- The interrupt is raised while the first of two steps reads a byte. The second one executes
nothing in either command, and only a plain step knows that the session was interrupted. -/
theorem interrupted_steps_agree :
    let p : Program := ⟨#[⟨.input, 1⟩, ⟨.increment, 1⟩], some #[some 0], 1, #[]⟩
    let s : Shell := { debugger := .ofProgram p [97] { duringRead := (· == 1) } }
    Program.ofSource true ",+" = .ok p ∧ Command.parse "s 2" = .ok (some (.step 2)) ∧
      Command.parse "d 2" = .ok (some (.detailed (some 2))) ∧
      ∃ plain full, s.execute 0 "s 2" = (plain, some .goOn) ∧
        s.execute 0 "d 2" = (full, some .goOn) ∧ plain.whole.machine.pc = 1 ∧
        full.whole = { plain.whole with phase := .paused .stepped } ∧
        plain.debugger.phase = .paused .interrupted := by
  intro p s
  have accepted : Program.ofSource true ",+" = .ok p := by cbv
  have plainly : Command.parse "s 2" = .ok (some (.step 2)) := by decide +kernel
  have detailed : Command.parse "d 2" = .ok (some (.detailed (some 2))) := by decide +kernel
  have made : (s.calm.whole.steps 2).2 = some (.paused .interrupted) := by decide +kernel
  have there : (s.calm.whole.steps 2).1.machine.pc = 1 := by decide +kernel
  obtain ⟨plain, full, last, outcome, executed, executed', steps, whole, whole', -, phase, -, -⟩ :=
    step_and_detailed_take_same_steps (s := s) plainly detailed rfl 0
  rw [steps] at made there
  rw [if_pos made] at phase
  refine ⟨accepted, plainly, detailed, plain, full, executed, executed', whole ▸ there, ?_, ?_⟩
  · rw [whole', whole, phase]
  · have paused := Debugger.phase_steps ((congrArg Prod.snd steps).trans made)
    rw [steps, ← whole] at paused
    exact paused

end Brainfuck
