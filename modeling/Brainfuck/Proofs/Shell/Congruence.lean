import Brainfuck.Proofs.Shell.Status

/-!
# Shells that no command tells apart

A command looks at nothing but the debugger and the window, and it only adds to what has been shown.
So a relation between shells of one debugger that outlasts what is shown outlasts every command.
`Alike` is such a relation: what has been shown may be cut up differently.
-/

namespace Brainfuck.Shell

/-! ### Commands by their parts -/

theorem step_succ (s : Shell) (times : Nat) :
    s.step (times + 1) =
      if s.stepOnce.2 = .paused .stepped then s.stepOnce.1.step times
      else s.stepOnce.1.report s.stepOnce.2 := by
  rw [step]
  rcases s.stepOnce with ⟨stepped, outcome⟩
  split
  · simp_all
  · simp_all

theorem detailed_if (s : Shell) (times : Nat) :
    s.detailed (times + 1) =
      if s.debugger.signal.raised then s.calm.report (.paused .interrupted)
      else if s.calm.announced.stepOnce.2 = .paused .stepped then
        s.calm.announced.stepOnce.1.showWindow.detailed times
      else s.calm.announced.stepOnce.1.showWindow.report s.calm.announced.stepOnce.2 := by
  rw [detailed_succ]
  rcases s.calm.announced.stepOnce with ⟨stepped, outcome⟩
  split
  · rfl
  · split
    · simp_all
    · simp_all

/-- A command that is done when it has been begun. -/
theorem execute_of_done {s after : Shell} {line : String} {flow : Flow}
    (begins : s.begin line = (after, .done flow)) (fuel : Nat) :
    s.execute fuel line = (after, some flow) := by
  rw [execute, begins]

/-- A command that runs the program is answered when the run has come to an outcome. -/
theorem execute_of_running {s begun : Shell} {line : String}
    (begins : s.begin line = (begun, .running)) (fuel : Nat) :
    s.execute fuel line =
      ((begun.proceed fuel).1, if (begun.proceed fuel).2 then some .goOn else none) := by
  rw [execute, begins]
  simp only
  rcases begun.proceed fuel with ⟨after, _ | _⟩ <;> rfl

/-- A command that has been answered was done when it had been begun, or its run has come to an
outcome. -/
theorem begin_of_execute {s after : Shell} {line : String} {fuel : Nat} {flow : Flow}
    (executed : s.execute fuel line = (after, some flow)) :
    s.begin line = (after, .done flow) ∨
      flow = .goOn ∧ ∃ begun, s.begin line = (begun, .running) ∧
        begun.proceed fuel = (after, true) := by
  rcases begins : s.begin line with ⟨begun, done | _⟩
  · rw [execute_of_done begins] at executed
    cases executed
    exact .inl rfl
  · rw [execute_of_running begins] at executed
    rcases ran : begun.proceed fuel with ⟨halted, _ | _⟩
    · simp [ran] at executed
    · rw [ran] at executed
      cases executed
      exact .inr ⟨rfl, begun, rfl, ran⟩

/-! ### Relations that commands keep -/

theorem foldl_put_of_put {R : Shell → Shell → Prop}
    (put : ∀ {s s' : Shell}, R s s' → ∀ span, R (s.put span) (s'.put span)) {s s' : Shell}
    (h : R s s') (spans : List Span) : R (spans.foldl Shell.put s) (spans.foldl Shell.put s') := by
  induction spans generalizing s s' with
  | nil => exact h
  | cons span spans ih => exact ih (put h span)

/-- A relation between shells that have the same debugger, kept when another debugger takes its
place and when the same is shown. -/
structure Congruence (R : Shell → Shell → Prop) : Prop where
  debugger : ∀ {s s' : Shell}, R s s' → s.debugger = s'.debugger
  replaced : ∀ {s s' : Shell}, R s s' → ∀ d, R { s with debugger := d } { s' with debugger := d }
  put : ∀ {s s' : Shell}, R s s' → ∀ span, R (s.put span) (s'.put span)
  showWindow : ∀ {s s' : Shell}, R s s' → R s.showWindow s'.showWindow

namespace Congruence

variable {R : Shell → Shell → Prop} {s s' : Shell} (c : Congruence R) (h : R s s')
include c h

/-! ### What is shown -/

theorem print (text : String) : R (s.print text) (s'.print text) :=
  c.put h _

theorem note (message : String) : R (s.note message) (s'.note message) :=
  c.print h _

theorem say (tone : Tone) (message : String) : R (s.say tone message) (s'.say tone message) :=
  c.print (c.put h _) _

theorem drain : R s.drain s'.drain := by
  rw [Shell.drain, Shell.drain, c.debugger h]
  simp only
  split
  · exact c.replaced h _
  · exact c.put (c.replaced h _) _

theorem report (outcome : Outcome) : R (s.report outcome) (s'.report outcome) := by
  have apart := c.print h "\n\n"
  cases outcome with
  | finished => exact c.say apart _ _
  | paused reason =>
    rw [Shell.report, Shell.report, c.debugger apart]
    exact c.say apart _ _

theorem refuse (fault : Debugger.Fault) : R (s.refuse fault) (s'.refuse fault) := by
  unfold Shell.refuse
  split <;> exact c.say h _ _

theorem showCells (offset : Int) (length : Nat) :
    R (s.showCells offset length) (s'.showCells offset length) := by
  rw [Shell.showCells, Shell.showCells, c.debugger h]
  exact c.print (foldl_put_of_put c.put h _) _

theorem showNext : R s.showNext s'.showNext := by
  rw [Shell.showNext, Shell.showNext, c.debugger h]
  split
  · exact c.note h _
  · exact h

theorem showStopPoint : R s.showStopPoint s'.showStopPoint := by
  rw [Shell.showStopPoint, Shell.showStopPoint, c.debugger h]
  split <;> exact c.note h _

theorem showTable (heading : String) (rows : List String) (otherwise : String) :
    R (s.showTable heading rows otherwise) (s'.showTable heading rows otherwise) := by
  unfold Shell.showTable
  split
  · exact c.note h _
  · exact c.print h _

theorem showBreakpoints : R s.showBreakpoints s'.showBreakpoints := by
  rw [Shell.showBreakpoints, Shell.showBreakpoints, c.debugger h]
  exact c.showTable h _ _ _

theorem showWatches : R s.showWatches s'.showWatches := by
  rw [Shell.showWatches, Shell.showWatches, c.debugger h]
  exact c.showTable h _ _ _

theorem info (target : Option Target) : R (s.info target) (s'.info target) := by
  rcases target with _ | _ | _ | _
  · exact c.showWatches (c.showBreakpoints (c.showStopPoint h))
  · exact c.showStopPoint h
  · exact c.showBreakpoints h
  · exact c.showWatches h

/-! ### Points -/

theorem settle {α : Type} (request : Debugger.Request α) {goOn : Shell → α → Shell}
    (goesOn : ∀ {t t' : Shell}, R t t' → ∀ value, R (goOn t value) (goOn t' value)) :
    R (s.settle request goOn) (s'.settle request goOn) := by
  rw [Shell.settle, Shell.settle, c.debugger h]
  rcases request s'.debugger with ⟨after, fault | value⟩
  · exact c.refuse (c.replaced h after) fault
  · exact goesOn (c.replaced h after) value

theorem stopAt (index : Nat) : R (s.stopAt index) (s'.stopAt index) :=
  c.settle h _ fun asked _ => c.note asked _

theorem breakAt (line : Nat) : R (s.breakAt line) (s'.breakAt line) := by
  refine c.settle h _ fun asked added => ?_
  split
  · exact c.say asked _ _
  · exact c.note asked _

theorem watch (address : Int) : R (s.watch address) (s'.watch address) :=
  c.settle h _ fun asked _ => c.note asked _

theorem deleteBreakpoint (ordinal : Nat) :
    R (s.deleteBreakpoint ordinal) (s'.deleteBreakpoint ordinal) :=
  c.settle h _ fun asked _ => c.note asked _

theorem deleteWatch (ordinal : Nat) : R (s.deleteWatch ordinal) (s'.deleteWatch ordinal) :=
  c.settle h _ fun asked _ => c.note asked _

theorem deleteStopPoint : R s.deleteStopPoint s'.deleteStopPoint := by
  rw [Shell.deleteStopPoint, Shell.deleteStopPoint, c.debugger h]
  exact c.note (c.replaced h _) _

theorem clear (target : Option Target) : R (s.clear target) (s'.clear target) := by
  rcases target with _ | _ | _ | _ <;>
  · simp only [Shell.clear, c.debugger h]
    exact c.note (c.replaced h _) _

theorem awaitExit : R s.awaitExit s'.awaitExit := by
  rw [Shell.awaitExit, Shell.awaitExit, c.debugger h]
  exact c.note (c.replaced h _) _

/-! ### Steps -/

theorem calm : R s.calm s'.calm := by
  rw [Shell.calm, Shell.calm, c.debugger h]
  exact c.replaced h _

theorem announced : R s.announced s'.announced := by
  have named := c.showNext h
  simp only [Shell.announced, c.debugger named]
  exact c.print named _

theorem stepOnce : R s.stepOnce.1 s'.stepOnce.1 ∧ s.stepOnce.2 = s'.stepOnce.2 := by
  rw [Shell.stepOnce, Shell.stepOnce, c.debugger h]
  exact ⟨c.drain (c.replaced h _), rfl⟩

theorem step (times : Nat) : R (s.step times) (s'.step times) := by
  induction times generalizing s s' with
  | zero => exact c.print h _
  | succ times ih =>
    obtain ⟨stepped, same⟩ := c.stepOnce h
    rw [step_succ, step_succ, same]
    split
    · exact ih stepped
    · exact c.report stepped _

theorem detailed (times : Nat) : R (s.detailed times) (s'.detailed times) := by
  induction times generalizing s s' with
  | zero => exact h
  | succ times ih =>
    obtain ⟨stepped, same⟩ := c.stepOnce (c.announced (c.calm h))
    rw [detailed_if, detailed_if, c.debugger h, same]
    split
    · exact c.report (c.calm h) _
    · split
      · exact ih (c.showWindow stepped)
      · exact c.report (c.showWindow stepped) _

/-! ### Command lines -/

theorem whenRunning {begin : Shell → Shell} (begins : R (begin s) (begin s')) :
    R (s.whenRunning begin).1 (s'.whenRunning begin).1 ∧
      (s.whenRunning begin).2 = (s'.whenRunning begin).2 := by
  rw [Shell.whenRunning, Shell.whenRunning, c.debugger h]
  split
  · exact ⟨begins, rfl⟩
  · exact ⟨c.say h _ _, rfl⟩

theorem dispatch (command : Command) :
    R (s.dispatch command).1 (s'.dispatch command).1 ∧
      (s.dispatch command).2 = (s'.dispatch command).2 := by
  have debugger := c.debugger h
  cases command with
  | run =>
    simp only [Shell.dispatch, debugger]
    exact ⟨c.replaced h _, trivial⟩
  | resume => exact c.whenRunning h h
  | untilExit => exact c.whenRunning h (c.awaitExit h)
  | step times => exact ⟨c.step h times, rfl⟩
  | detailed times => exact ⟨c.detailed h _, rfl⟩
  | stop index =>
    cases index with
    | none => exact ⟨c.showStopPoint h, rfl⟩
    | some index => exact ⟨c.stopAt h index, rfl⟩
  | tape =>
    simp only [Shell.dispatch, debugger]
    exact ⟨c.showWindow (c.print h _), trivial⟩
  | pointer =>
    simp only [Shell.dispatch, debugger]
    exact ⟨c.note h _, trivial⟩
  | breakAt line => exact ⟨c.breakAt h line, rfl⟩
  | deleteStop => exact ⟨c.deleteStopPoint h, rfl⟩
  | deleteBreakpoint ordinal => exact ⟨c.deleteBreakpoint h ordinal, rfl⟩
  | deleteWatch ordinal => exact ⟨c.deleteWatch h ordinal, rfl⟩
  | watch address => exact ⟨c.watch h address, rfl⟩
  | peek offset length => exact ⟨c.showCells h offset length, rfl⟩
  | info target => exact ⟨c.info h target, rfl⟩
  | next => exact ⟨c.showNext h, rfl⟩
  | reset =>
    simp only [Shell.dispatch, debugger]
    exact ⟨c.note (c.replaced h _) _, trivial⟩
  | code =>
    simp only [Shell.dispatch, debugger]
    exact ⟨c.print h _, trivial⟩
  | clear target => exact ⟨c.clear h target, rfl⟩
  | help => exact ⟨c.print h _, rfl⟩
  | quit => exact ⟨h, rfl⟩

theorem begin (line : String) :
    R (s.begin line).1 (s'.begin line).1 ∧ (s.begin line).2 = (s'.begin line).2 := by
  have calm := c.calm h
  unfold Shell.begin
  cases Command.parse line with
  | error fault => exact ⟨c.say calm _ _, rfl⟩
  | ok asked =>
    cases asked with
    | none => exact ⟨calm, rfl⟩
    | some command => exact c.dispatch calm command

theorem proceed (fuel : Nat) :
    R (s.proceed fuel).1 (s'.proceed fuel).1 ∧ (s.proceed fuel).2 = (s'.proceed fuel).2 := by
  rw [Shell.proceed, Shell.proceed, c.debugger h]
  rcases s'.debugger.advance fuel with ⟨d, _ | outcome⟩
  · exact ⟨c.drain (c.replaced h d), rfl⟩
  · exact ⟨c.report (c.drain (c.replaced h d)) outcome, rfl⟩

/-- A command line does the same to both shells. -/
theorem execute (fuel : Nat) (line : String) :
    R (s.execute fuel line).1 (s'.execute fuel line).1 ∧
      (s.execute fuel line).2 = (s'.execute fuel line).2 := by
  obtain ⟨begun, same⟩ := c.begin h line
  rcases begins : s.begin line with ⟨after, reply⟩
  rcases begins' : s'.begin line with ⟨after', reply'⟩
  rw [begins, begins'] at begun same
  obtain rfl : reply = reply' := same
  cases reply with
  | done flow =>
    rw [execute_of_done begins, execute_of_done begins']
    exact ⟨begun, rfl⟩
  | running =>
    obtain ⟨after, halted⟩ := c.proceed begun fuel
    rw [execute_of_running begins, execute_of_running begins', halted]
    exact ⟨after, rfl⟩

end Congruence

end Brainfuck.Shell
