import Brainfuck.Proofs.Shell.Prompt

/-!
# What the shell reports and where the session is

A command reports an outcome at most once. The session is then where the report says, with one
exception: a detailed step looks for the interrupt itself before it shows anything, and reports it
without telling the session, which stays stepped. `status_tells_phase` says so of every command
line.
-/

namespace Brainfuck

/-- A report among the stretches of a transcript: its tone and its words. -/
def Span.status? : Span → Option (Tone × String)
  | .toned .finished text => some (.finished, text)
  | .toned .stopEvent text => some (.stopEvent, text)
  | _ => none

/-- Where a session is after a call with an outcome. -/
def Outcome.phase : Outcome → Phase
  | .finished => .idle
  | .paused reason => .paused reason

namespace Debugger

variable {d e : Debugger} {outcome : Outcome}

theorem phase_proceed {pace : Pace} (returns : (d.proceed pace).2 = some outcome) :
    (d.proceed pace).1.phase = outcome.phase := by
  cases outcome with
  | paused reason => exact phase_of_paused returns
  | finished =>
    rw [proceed_eq] at returns ⊢
    cases deed : d.deed pace with
    | finish => rfl
    | hold reason => simp [deed, fulfil] at returns
    | execute i =>
      rw [deed] at returns
      rcases d.fulfil_execute_cases pace i with ⟨h, -⟩ | ⟨_, h, -⟩ | ⟨_, h, -⟩ <;>
        rw [h] at returns ⊢
      · cases returns
      · cases returns
      · rfl

theorem phase_step (d : Debugger) : d.step.1.phase = d.step.2.phase := by
  have stepped : (d.started.proceed .stepping).2 = some d.step.2 := rfl
  exact phase_proceed stepped

theorem phase_advance {fuel : Nat} (h : d.advance fuel = (e, some outcome)) :
    e.phase = outcome.phase := by
  induction fuel generalizing d with
  | zero => cases h
  | succ fuel ih =>
    rw [advance] at h
    have phase : (d.proceed .running).2 = some outcome →
        (d.proceed .running).1.phase = outcome.phase := phase_proceed
    rw [proceed] at phase
    rcases turned : d.turn with ⟨after, _ | reached⟩
    · rw [turned] at h
      exact ih h
    · rw [turned] at h phase
      cases h
      exact phase rfl

/-- A step that begins with the flag lowered does not pause for the interrupt. -/
theorem step_ne_interrupted (lowered : d.signal.raised = false) :
    d.step.2 ≠ .paused .interrupted := by
  intro paused
  have returns : (d.started.proceed .stepping).2 = some (.paused .interrupted) :=
    congrArg some paused
  have raised := (of_interrupted_pause returns).1
  have same : d.started.signal = d.signal := by
    unfold started
    split <;> rfl
  rw [same, lowered] at raised
  cases raised

end Debugger

namespace Shell

/-- The reports that a shell has shown, the first one first. -/
def statuses (s : Shell) : List (Tone × String) :=
  s.transcript.toList.filterMap Span.status?

/-- How a shell reports an outcome. -/
def status (s : Shell) : Outcome → Tone × String
  | .finished => (.finished, "Running finished")
  | .paused reason => (.stopEvent, describe s.debugger.breakpoints reason)

variable {s : Shell}

/-! ### What is shown without a report -/

/-- Another debugger is nothing shown. -/
@[simp] theorem statuses_debugger (s : Shell) (d : Debugger) :
    ({ s with debugger := d } : Shell).statuses = s.statuses := rfl

@[simp] theorem statuses_put (s : Shell) (span : Span) :
    (s.put span).statuses = s.statuses ++ span.status?.toList := by
  cases h : span.status? <;> simp [statuses, put, h]

@[simp] theorem statuses_print (s : Shell) (text : String) :
    (s.print text).statuses = s.statuses := by
  simp [print, Span.status?]

@[simp] theorem statuses_note (s : Shell) (message : String) :
    (s.note message).statuses = s.statuses := by
  simp [note]

theorem statuses_say (s : Shell) (tone : Tone) (message : String) :
    (s.say tone message).statuses = s.statuses ++ (Span.toned tone message).status?.toList := by
  simp [say]

@[simp] theorem statuses_warning (s : Shell) (message : String) :
    (s.say .warning message).statuses = s.statuses := by
  simp [statuses_say, Span.status?]

@[simp] theorem statuses_error (s : Shell) (message : String) :
    (s.say .error message).statuses = s.statuses := by
  simp [statuses_say, Span.status?]

@[simp] theorem statuses_refuse (s : Shell) (fault : Debugger.Fault) :
    (s.refuse fault).statuses = s.statuses := by
  unfold refuse
  split <;> simp

@[simp] theorem statuses_drain (s : Shell) : s.drain.statuses = s.statuses := by
  unfold drain
  simp only
  split
  · rfl
  · simp [Span.status?]

theorem statuses_foldl_put (spans : List Span) (s : Shell) :
    (spans.foldl put s).statuses = s.statuses ++ spans.filterMap Span.status? := by
  induction spans generalizing s with
  | nil => simp
  | cons span spans ih => cases h : span.status? <;> simp [ih, h]

theorem status?_rowSpans (offset : Int) (row : List UInt8) :
    (rowSpans offset row).filterMap Span.status? = [] := by
  rw [List.filterMap_eq_nil_iff]
  intro span mem
  obtain ⟨⟨byte, index⟩, -, mem⟩ := List.mem_flatMap.mp mem
  simp only [cellSpans] at mem
  split at mem
  · rcases List.mem_pair.mp mem with rfl | rfl <;> rfl
  · rw [List.mem_singleton.mp mem]
    rfl

@[simp] theorem statuses_showCells (s : Shell) (offset : Int) (length : Nat) :
    (s.showCells offset length).statuses = s.statuses := by
  simp [showCells, statuses_foldl_put, status?_rowSpans]

@[simp] theorem statuses_showWindow (s : Shell) : s.showWindow.statuses = s.statuses := by
  simp [showWindow]

@[simp] theorem statuses_showNext (s : Shell) : s.showNext.statuses = s.statuses := by
  unfold showNext
  split <;> simp

@[simp] theorem statuses_showStopPoint (s : Shell) : s.showStopPoint.statuses = s.statuses := by
  unfold showStopPoint
  split <;> simp

@[simp] theorem statuses_showTable (s : Shell) (heading : String) (rows : List String)
    (otherwise : String) : (s.showTable heading rows otherwise).statuses = s.statuses := by
  unfold showTable
  split <;> simp

@[simp] theorem statuses_info (s : Shell) (target : Option Target) :
    (s.info target).statuses = s.statuses := by
  rcases target with _ | target
  · simp [info, showBreakpoints, showWatches]
  · cases target <;> simp [info, showBreakpoints, showWatches]

/-- A request is answered with a message, or refused. -/
theorem statuses_settle {α : Type} (s : Shell) (request : Debugger.Request α)
    {goOn : Shell → α → Shell}
    (silent : ∀ (t : Shell) value, (goOn t value).statuses = t.statuses) :
    (s.settle request goOn).statuses = s.statuses := by
  unfold settle
  rcases request s.debugger with ⟨after, fault | value⟩
  · exact statuses_refuse _ fault
  · exact silent _ value

@[simp] theorem statuses_stopAt (s : Shell) (index : Nat) :
    (s.stopAt index).statuses = s.statuses :=
  s.statuses_settle _ fun _ _ => by simp

@[simp] theorem statuses_breakAt (s : Shell) (line : Nat) :
    (s.breakAt line).statuses = s.statuses :=
  s.statuses_settle _ fun _ _ => by split <;> simp

@[simp] theorem statuses_watch (s : Shell) (address : Int) :
    (s.watch address).statuses = s.statuses :=
  s.statuses_settle _ fun _ _ => by simp

@[simp] theorem statuses_deleteBreakpoint (s : Shell) (ordinal : Nat) :
    (s.deleteBreakpoint ordinal).statuses = s.statuses :=
  s.statuses_settle _ fun _ _ => by simp

@[simp] theorem statuses_deleteWatch (s : Shell) (ordinal : Nat) :
    (s.deleteWatch ordinal).statuses = s.statuses :=
  s.statuses_settle _ fun _ _ => by simp

@[simp] theorem statuses_deleteStopPoint (s : Shell) :
    s.deleteStopPoint.statuses = s.statuses := by
  simp [deleteStopPoint]

@[simp] theorem statuses_clear (s : Shell) (target : Option Target) :
    (s.clear target).statuses = s.statuses := by
  rcases target with _ | target
  · simp [clear]
  · cases target <;> simp [clear]

@[simp] theorem statuses_awaitExit (s : Shell) : s.awaitExit.statuses = s.statuses := by
  simp [awaitExit]

/-! ### Showing changes nothing -/

@[simp] theorem debugger_print (s : Shell) (text : String) :
    (s.print text).debugger = s.debugger := rfl

@[simp] theorem debugger_drain (s : Shell) :
    s.drain.debugger = s.debugger.takeOutput.1 := by
  unfold drain
  simp only
  split <;> rfl

theorem debugger_foldl_put (spans : List Span) (s : Shell) :
    (spans.foldl put s).debugger = s.debugger := by
  induction spans generalizing s with
  | nil => rfl
  | cons span spans ih => exact ih (s.put span)

@[simp] theorem debugger_showWindow (s : Shell) : s.showWindow.debugger = s.debugger :=
  debugger_foldl_put _ s

@[simp] theorem debugger_showNext (s : Shell) : s.showNext.debugger = s.debugger := by
  unfold showNext
  split <;> rfl

@[simp] theorem debugger_report (s : Shell) (outcome : Outcome) :
    (s.report outcome).debugger = s.debugger := by
  cases outcome <;> rfl

@[simp] theorem status_report (s : Shell) (outcome other : Outcome) :
    (s.report outcome).status other = s.status other := by
  cases other <;> simp [status]

theorem statuses_report (s : Shell) (outcome : Outcome) :
    (s.report outcome).statuses = s.statuses ++ [s.status outcome] := by
  cases outcome <;> simp [report, statuses_say, Span.status?, status]

/-! ### Commands -/

/-- A command has shown no report, or a single one, and the session is where that outcome leads. -/
def Reports (phase : Outcome → Phase) (s after : Shell) : Prop :=
  after.statuses = s.statuses ∨
    ∃ outcome, after.statuses = s.statuses ++ [after.status outcome] ∧
      after.debugger.phase = phase outcome

theorem Reports.silent {phase : Outcome → Phase} {s after : Shell}
    (same : after.statuses = s.statuses) : Reports phase s after :=
  .inl same

theorem Reports.report {phase : Outcome → Phase} {s shown : Shell} {outcome : Outcome}
    (same : shown.statuses = s.statuses) (there : shown.debugger.phase = phase outcome) :
    Reports phase s (shown.report outcome) :=
  .inr ⟨outcome, by simp [statuses_report, same], by simpa using there⟩

/-- What is shown before without a report does not count. -/
theorem Reports.after_silent {phase : Outcome → Phase} {s shown after : Shell}
    (h : Reports phase shown after) (same : shown.statuses = s.statuses) :
    Reports phase s after := by
  rwa [Reports, same] at h

/-- A step is taken without a report. -/
theorem statuses_stepOnce (s : Shell) : s.stepOnce.1.statuses = s.statuses := by
  simp [stepOnce]

theorem phase_stepOnce (s : Shell) : s.stepOnce.1.debugger.phase = s.stepOnce.2.phase := by
  simp only [stepOnce, debugger_drain]
  exact s.debugger.phase_step

theorem reports_step (s : Shell) (times : Nat) : Reports Outcome.phase s (s.step times) := by
  induction times generalizing s with
  | zero => exact .silent (by simp [step])
  | succ times ih =>
    have statuses := s.statuses_stepOnce
    have phase := s.phase_stepOnce
    rw [step]
    split
    · rename_i stepped once
      rw [once] at statuses
      exact (ih stepped).after_silent statuses
    · rename_i stepped outcome _ once
      rw [once] at statuses phase
      exact .report statuses phase

/-- Where a session is after detailed steps that ended with an outcome. They report the interrupt
without a call of the session, which is as the last step has left it. -/
def detailedPhase : Outcome → Phase
  | .paused .interrupted => .paused .stepped
  | outcome => outcome.phase

theorem detailedPhase_of_ne {outcome : Outcome} (other : outcome ≠ .paused .interrupted) :
    detailedPhase outcome = outcome.phase := by
  unfold detailedPhase
  split
  · exact absurd rfl other
  · rfl

/-- What is shown before a detailed step. -/
def announced (s : Shell) : Shell :=
  let named := s.showNext
  named.print ("Memory pointer at: " ++ toString named.debugger.pointer ++ "\n")

@[simp] theorem statuses_announced (s : Shell) : s.announced.statuses = s.statuses := by
  simp [announced]

@[simp] theorem debugger_announced (s : Shell) : s.announced.debugger = s.debugger := by
  simp [announced]

@[simp] theorem statuses_calm (s : Shell) : s.calm.statuses = s.statuses := rfl

theorem detailed_succ (s : Shell) (times : Nat) :
    s.detailed (times + 1) =
      if s.debugger.signal.raised then s.calm.report (.paused .interrupted)
      else
        match s.calm.announced.stepOnce with
        | (stepped, .paused .stepped) => stepped.showWindow.detailed times
        | (stepped, outcome) => stepped.showWindow.report outcome := by
  rw [detailed]
  rfl

/-- Detailed steps look for the interrupt before each step, so that only a step before it can have
raised the flag. -/
theorem reports_detailed (times : Nat) {s : Shell}
    (raised : s.debugger.signal.raised = true → s.debugger.phase = .paused .stepped) :
    Reports detailedPhase s (s.detailed times) := by
  induction times generalizing s with
  | zero => exact .silent rfl
  | succ times ih =>
    have statuses : s.calm.announced.stepOnce.1.statuses = s.statuses := by
      simp [statuses_stepOnce]
    have phase := s.calm.announced.phase_stepOnce
    -- The flag is lowered when the step is taken.
    have other : s.calm.announced.stepOnce.2 ≠ .paused .interrupted :=
      Debugger.step_ne_interrupted (by simp [calm, Debugger.takeInterrupt, Signal.lower])
    rw [detailed_succ]
    split
    · exact .report rfl (raised ‹_›)
    · split
      · rename_i stepped once
        rw [once] at statuses phase
        exact (ih fun _ => by simpa [Outcome.phase] using phase).after_silent
          (by simpa using statuses)
      · rename_i stepped outcome _ once
        rw [once] at statuses phase other
        exact .report (by simpa using statuses)
          (by simpa [detailedPhase_of_ne other] using phase)

/-! ### Command lines -/

/-- Where a session is after a command that has reported an outcome. -/
def phaseAfter : Command → Outcome → Phase
  | .detailed _ => detailedPhase
  | _ => Outcome.phase

/-- A command that is done when it has been begun. -/
theorem reports_dispatch {command : Command} {after : Shell} {flow : Flow}
    (lowered : s.debugger.signal.raised = false)
    (h : s.dispatch command = (after, .done flow)) : Reports (phaseAfter command) s after := by
  cases command with
  | run => cases h
  | resume | untilExit =>
    simp only [dispatch, whenRunning] at h
    split at h
    · cases h
    · cases h
      exact .silent (by simp)
  | step times =>
    cases h
    exact s.reports_step times
  | detailed times =>
    cases h
    exact reports_detailed _ (by simp [lowered])
  | stop index =>
    cases index <;> cases h
    · exact .silent s.statuses_showStopPoint
    · exact .silent (s.statuses_stopAt _)
  | quit =>
    cases h
    exact .silent rfl
  | tape | pointer | breakAt | deleteStop | deleteBreakpoint | deleteWatch | watch | peek | info
  | next | reset | code | clear | help =>
    cases h
    exact .silent (by simp)

/-- A command that runs the program has shown no report when it is begun. -/
theorem running_of_dispatch {command : Command} {after : Shell}
    (h : s.dispatch command = (after, .running)) :
    after.statuses = s.statuses ∧ phaseAfter command = Outcome.phase := by
  cases command with
  | run =>
    cases h
    exact ⟨rfl, rfl⟩
  | resume | untilExit =>
    simp only [dispatch, whenRunning] at h
    split at h
    · cases h
      exact ⟨by simp, rfl⟩
    · cases h
  | stop index => cases index <;> cases h
  | _ => cases h

/-- A program that halts is reported. -/
theorem reports_proceed {fuel : Nat} {halted : Shell} (h : s.proceed fuel = (halted, true)) :
    Reports Outcome.phase s halted := by
  simp only [proceed] at h
  rcases ran : s.debugger.advance fuel with ⟨e, _ | outcome⟩
  · rw [ran] at h
    cases h
  · rw [ran] at h
    cases h
    refine .report (by simp) ?_
    rw [debugger_drain]
    show e.phase = outcome.phase
    exact Debugger.phase_advance ran

/-- A command line that comes to an end. -/
theorem reports_execute {fuel : Nat} {line : String} {command : Command} {after : Shell}
    {flow : Flow} (parsed : Command.parse line = .ok (some command))
    (h : s.execute fuel line = (after, some flow)) : Reports (phaseAfter command) s after := by
  have begun : s.begin line = s.calm.dispatch command := by
    simp only [begin, parsed]
    rfl
  rw [execute, begun] at h
  rcases dispatched : s.calm.dispatch command with ⟨started, flow | _⟩
  · rw [dispatched] at h
    cases h
    exact (reports_dispatch rfl dispatched).after_silent s.statuses_calm
  · rw [dispatched] at h
    obtain ⟨same, phase⟩ := running_of_dispatch dispatched
    rcases ran : started.proceed fuel with ⟨halted, _ | _⟩
    · simp [ran] at h
    · simp only [ran, Prod.mk.injEq] at h
      obtain ⟨rfl, -⟩ := h
      rw [phase]
      exact (reports_proceed ran).after_silent (same.trans s.statuses_calm)

end Shell

/-- Every line that comes to an end reports one outcome at most, and the session is where that
outcome leads; only that it stays stepped when a detailed step reports the interrupt. -/
theorem status_tells_phase {s after : Shell} {fuel : Nat} {line : String} {flow : Flow}
    (h : s.execute fuel line = (after, some flow)) :
    after.statuses = s.statuses ∨
      ∃ command outcome, Command.parse line = .ok (some command) ∧
        after.statuses = s.statuses ++ [after.status outcome] ∧
        after.debugger.phase = Shell.phaseAfter command outcome := by
  cases parsed : Command.parse line with
  | error fault =>
    rw [Shell.execute, Shell.begin, parsed] at h
    cases h
    exact .inl (by simp)
  | ok asked =>
    cases asked with
    | none =>
      rw [Shell.execute, Shell.begin, parsed] at h
      cases h
      exact .inl rfl
    | some command =>
      rcases Shell.reports_execute parsed h with silent | ⟨outcome, shown, there⟩
      · exact .inl silent
      · exact .inr ⟨command, outcome, rfl, shown, there⟩

/-- A run that is interrupted is reported as it is. -/
theorem interrupted_run_tells_phase :
    let p : Program := ⟨#[⟨.input, 1⟩, ⟨.increment, 1⟩], some #[some 0], 1, #[]⟩
    let s : Shell := { debugger := .ofProgram p [97] { duringRead := (· == 1) } }
    let after := (s.execute 2 "run").1
    Program.ofSource true ",+" = .ok p ∧ s.execute 2 "run" = (after, some .goOn) ∧
      after.statuses = [(.stopEvent, "Interrupted")] ∧
      ∃ command outcome, Command.parse "run" = .ok (some command) ∧
        after.statuses = s.statuses ++ [after.status outcome] ∧
        after.debugger.phase = Shell.phaseAfter command outcome := by
  intro p s after
  have accepted : Program.ofSource true ",+" = .ok p := by cbv
  have ended : s.execute 2 "run" = (after, some .goOn) :=
    Prod.ext rfl (by decide +kernel)
  have shown : after.statuses = [(.stopEvent, "Interrupted")] := by decide +kernel
  rcases status_tells_phase ended with silent | told
  · rw [shown] at silent
    cases silent
  · exact ⟨accepted, ended, shown, told⟩

/-- The interrupt is raised while a detailed step reads a byte. The next one reports that, and the
session stays stepped; two plain steps report the same and leave it interrupted. -/
theorem detailed_interrupt_stays_stepped :
    let p : Program := ⟨#[⟨.input, 1⟩, ⟨.increment, 1⟩], some #[some 0], 1, #[]⟩
    let s : Shell := { debugger := .ofProgram p [97] { duringRead := (· == 1) } }
    let after := (s.execute 0 "d 2").1
    let plain := (s.execute 0 "s 2").1
    Program.ofSource true ",+" = .ok p ∧ (s.execute 0 "d 2").2 = some .goOn ∧
      after.statuses = [(.stopEvent, "Interrupted")] ∧
      after.debugger.phase = .paused .stepped ∧
      plain.statuses = [(.stopEvent, "Interrupted")] ∧
      plain.debugger.phase = .paused .interrupted ∧
      ¬ Shell.Reports Outcome.phase s after := by
  intro p s after plain
  have accepted : Program.ofSource true ",+" = .ok p := by cbv
  have ended : (s.execute 0 "d 2").2 = some .goOn := by decide +kernel
  have shown : after.statuses = [(.stopEvent, "Interrupted")] := by decide +kernel
  have phase : after.debugger.phase = .paused .stepped := by decide +kernel
  refine ⟨accepted, ended, shown, phase, by decide +kernel, by decide +kernel, ?_⟩
  rintro (silent | ⟨outcome, status, there⟩)
  · rw [shown] at silent
    cases silent
  · -- The report is of another pause than the one that the session is in.
    obtain rfl : outcome = .paused .stepped := by
      rw [phase] at there
      cases outcome with
      | finished => cases there
      | paused reason => exact congrArg Outcome.paused (Phase.paused.inj there).symm
    exact absurd status (by decide +kernel)

end Brainfuck
