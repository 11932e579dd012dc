import Brainfuck.Proofs.Shell.Reached
import Brainfuck.Proofs.Shell.Steps

/-!
# What detailed steps show

Before each detailed step the instruction that it is going to execute is shown, and the address of
the pointer. The instruction is always the right one, and so is the address but for one step: the
first one of a command that begins a program anew after it has come to its end. The tape is set back
by the step itself, so that the address shown is the one that the last run has left.
-/

namespace Brainfuck

namespace Debugger

variable {d : Debugger} {index : Nat} {i : Instruction}

/-- What a step does: it executes the instruction at an index while the pointer is at an address, or
pauses before it since the cell at that address is watched. -/
structure StepsOver (d : Debugger) (index : Nat) (i : Instruction) (address : Int) : Prop where
  place : d.started.machine.pc = index
  here : d.program.get? index = some i
  pointer : d.started.pointer = address
  made : EndsInstruction d.step.2 ∧ d.step.1.machine = d.started.machine.execute i ∨
    d.step.2 = .paused (.watch address) ∧ d.step.1.machine = d.started.machine

/-- A step with the flag lowered executes the next instruction, or pauses before it for a watch. -/
theorem stepsOver_of_lowered (lowered : d.signal.raised = false)
    (place : d.started.machine.pc = index) (here : d.program.get? index = some i) :
    d.StepsOver index i d.started.pointer := by
  refine ⟨place, here, rfl, ?_⟩
  have same : d.started.signal = d.signal ∧ d.started.program = d.program := by
    unfold started
    split <;> exact ⟨rfl, rfl⟩
  have ready : d.started.Ready .stepping i :=
    ⟨by rw [same.2, place, here], by rw [same.1, lowered], nofun, nofun⟩
  have stepped : d.started.proceed .stepping = (d.step.1, some d.step.2) := rfl
  have deed := ready.deed_eq
  cases guarded : d.started.guards i with
  | true =>
    rw [attempt, if_pos guarded] at deed
    rw [proceed_eq, deed] at stepped
    obtain ⟨debugger, outcome⟩ := Prod.ext_iff.mp stepped
    exact .inr ⟨(Option.some.inj outcome).symm, (congrArg Debugger.machine debugger).symm⟩
  | false =>
    rw [attempt, if_neg (by simp [guarded])] at deed
    have machine := d.started.machine_fulfil .stepping (.execute i)
    rw [← deed, ← proceed_eq, stepped, deed] at machine
    rcases events_of_execute deed with ⟨goesOn, -⟩ | ⟨outcome, returned, ends, -⟩
    · rw [stepped] at goesOn
      cases goesOn
    · rw [stepped] at returned
      obtain rfl := Option.some.inj returned
      exact .inl ⟨ends, machine⟩

/-- Where a session goes on is where its pointer is shown, unless it begins anew with a tape that a
run has left. -/
theorem pointer_started (rested : d.Rested) :
    d.pointer = d.started.pointer ∨ d.phase = .idle ∧ d.program.size ≤ d.machine.pc := by
  unfold started
  cases phase : d.phase with
  | paused reason => exact .inl rfl
  | idle =>
    rcases rested phase with fresh | ended
    · exact .inl (congrArg Tape.pointer fresh)
    · exact .inr ⟨rfl, ended⟩

end Debugger

namespace Shell

variable {s t : Shell}

/-! ### What is shown stays -/

/-- A shell that has shown more. -/
def Grows (s t : Shell) : Prop :=
  s.transcript.toList <+: t.transcript.toList

theorem Grows.trans {u : Shell} (h : s.Grows t) (h' : t.Grows u) : s.Grows u :=
  List.IsPrefix.trans h h'

theorem grows_put (s : Shell) (span : Span) : s.Grows (s.put span) :=
  ⟨[span], by simp [put]⟩

theorem grows_print (s : Shell) (text : String) : s.Grows (s.print text) :=
  s.grows_put _

theorem grows_drain (s : Shell) : s.Grows s.drain := by
  unfold drain
  simp only
  split
  · exact List.prefix_refl _
  · exact grows_put _ _

theorem grows_showCells (s : Shell) (offset : Int) (length : Nat) :
    s.Grows (s.showCells offset length) := by
  refine .trans ?_ (grows_print _ _)
  induction rowSpans offset (s.debugger.machine.tape.peek offset length) generalizing s with
  | nil => exact List.prefix_refl _
  | cons span spans ih => exact (s.grows_put span).trans (ih _)

theorem grows_report (s : Shell) (outcome : Outcome) : s.Grows (s.report outcome) := by
  have apart := s.grows_print "\n\n"
  cases outcome <;> exact (apart.trans (grows_put _ _)).trans (grows_print _ _)

theorem grows_stepOnce (s : Shell) : s.Grows s.stepOnce.1 :=
  grows_drain { s with debugger := s.debugger.step.1 }

theorem grows_announced (s : Shell) : s.Grows s.announced := by
  refine .trans ?_ (grows_print _ _)
  unfold showNext
  split
  · exact grows_print _ _
  · exact List.prefix_refl _

/-! ### Detailed steps one by one -/

/-- One detailed step that the command goes on from. -/
def detailedOnce? (s : Shell) : Option Shell :=
  if s.debugger.signal.raised then none
  else if s.calm.announced.stepOnce.2 = .paused .stepped then
    some s.calm.announced.stepOnce.1.showWindow
  else none

theorem detailedOnce?_eq_some_iff :
    s.detailedOnce? = some t ↔
      s.debugger.signal.raised = false ∧ s.calm.announced.stepOnce.2 = .paused .stepped ∧
        t = s.calm.announced.stepOnce.1.showWindow := by
  rw [detailedOnce?, Option.ite_none_left_eq_some, Option.ite_none_right_eq_some, Option.some_inj,
    Bool.not_eq_true, eq_comm (a := t)]

/-- A command is at the same place after some of its steps. -/
theorem detailed_of_after {k : Nat} (reached : after? detailedOnce? k s = some t) (more : Nat) :
    s.detailed (k + more) = t.detailed more := by
  induction k generalizing s with
  | zero =>
    obtain rfl : s = t := Option.some.inj reached
    rw [Nat.zero_add]
  | succ k ih =>
    obtain ⟨next, once, later⟩ := Option.bind_eq_some_iff.mp reached
    obtain ⟨lowered, plain, rfl⟩ := detailedOnce?_eq_some_iff.mp once
    rw [Nat.succ_add, detailed_if, if_neg (by simp [lowered]), if_pos plain, ih later]

/-- What a detailed step shows stays shown. -/
theorem grows_detailed (s : Shell) (times : Nat) : s.Grows (s.detailed times) := by
  induction times generalizing s with
  | zero => exact List.prefix_refl _
  | succ times ih =>
    have made : s.Grows s.calm.announced.stepOnce.1.showWindow :=
      (s.calm.grows_announced.trans (grows_stepOnce _)).trans (grows_showCells _ _ _)
    rw [detailed_if]
    split
    · exact s.calm.grows_report _
    · split
      · exact made.trans (ih _)
      · exact made.trans (grows_report _ _)

/-- An announcement of a step stays shown when the step is made. -/
theorem grows_detailed_of_announced (lowered : s.debugger.signal.raised = false) (times : Nat) :
    s.calm.announced.Grows (s.detailed (times + 1)) := by
  have made : s.calm.announced.Grows s.calm.announced.stepOnce.1.showWindow :=
    (grows_stepOnce _).trans (grows_showCells _ _ _)
  rw [detailed_if, if_neg (by simp [lowered])]
  split
  · exact made.trans (grows_detailed _ times)
  · exact made.trans (grows_report _ _)

/-- A detailed step is a number of moves, and leaves the session stepped. -/
theorem leads_detailedOnce (once : s.detailedOnce? = some t) :
    (s.moment none).Leads (t.moment none) ∧ t.debugger.phase = .paused .stepped := by
  obtain ⟨-, plain, rfl⟩ := detailedOnce?_eq_some_iff.mp once
  refine ⟨?_, ?_⟩
  · refine s.leads_calm.trans ((leads_of_whole s.calm.whole_announced).trans ?_)
    exact (leads_stepOnce _).trans (leads_of_whole (whole_showWindow _))
  · rw [debugger_showWindow, phase_stepOnce, plain]
    rfl

theorem leads_of_after {k : Nat} (reached : after? detailedOnce? k s = some t) :
    (s.moment none).Leads (t.moment none) ∧
      (k = 0 ∧ t = s ∨ t.debugger.phase = .paused .stepped) := by
  induction k generalizing s with
  | zero =>
    obtain rfl : s = t := Option.some.inj reached
    exact ⟨.refl _, .inl ⟨rfl, rfl⟩⟩
  | succ k ih =>
    obtain ⟨next, once, later⟩ := Option.bind_eq_some_iff.mp reached
    obtain ⟨leads, paused⟩ := leads_detailedOnce once
    obtain ⟨leads', first | paused'⟩ := ih later
    · exact ⟨leads.trans leads', .inr (first.2 ▸ paused)⟩
    · exact ⟨leads.trans leads', .inr paused'⟩

/-- What announces a step: its instruction with its index, and an address. -/
def announcement (index : Nat) (i : Instruction) (address : Int) : List Span :=
  [.plain (Text.Column.left 8 (toString index) ++ " " ++ i.text ++ "\n\n"),
    .plain ("Memory pointer at: " ++ toString address ++ "\n")]

theorem transcript_announced {index : Nat} {i : Instruction}
    (next : s.debugger.next? = some (index, i)) :
    s.announced.transcript.toList =
      s.transcript.toList ++ announcement index i s.debugger.pointer := by
  simp [announced, showNext, next, note, print, put, announcement]

end Shell

end Brainfuck
