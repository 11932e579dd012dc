import Brainfuck.Proofs.Debugger.Input
import Brainfuck.Proofs.Debugger.Preceded
import Brainfuck.Proofs.Shell.Congruence

/-!
# Commands are moves of a session

The shell takes the output away from its debugger as it shows it. Put together again (`whole`) the
debugger of a shell is one of a session of its own, and every command is a number of moves in it:
calls, and turns of the call that is under way. So what holds in every session holds in every shell.
-/

namespace Brainfuck

namespace Debugger

/-- Moves lead from one moment to another, whatever has happened before. -/
def Moment.Leads (m n : Moment) : Prop :=
  ∃ moves, (m.play moves).debugger = n.debugger ∧ (m.play moves).underway = n.underway

namespace Moment.Leads

variable {m n k : Moment}

theorem refl (m : Moment) : m.Leads m :=
  ⟨[], rfl, rfl⟩

theorem of_play (moves : List Move) : m.Leads (m.play moves) :=
  ⟨moves, rfl, rfl⟩

/-- The history is put in front of what happens later. -/
theorem trans (first : m.Leads n) (second : n.Leads k) : m.Leads k := by
  obtain ⟨moves, debugger, underway⟩ := first
  obtain ⟨later, debugger', underway'⟩ := second
  have reached : m.play moves =
      (Moment.mk n.debugger n.underway []).preceded #[] (m.play moves).history := by
    rw [preceded, ← debugger, ← underway]
    simp [Debugger.preceded, Machine.preceded]
  have start : n = (Moment.mk n.debugger n.underway []).preceded #[] n.history := by
    simp [preceded, Debugger.preceded, Machine.preceded]
  rw [start, play_preceded] at debugger' underway'
  refine ⟨moves ++ later, ?_, ?_⟩ <;> rw [play_append, reached, play_preceded]
  · exact debugger'
  · exact underway'

end Moment.Leads

theorem Moment.Leads.reads {m n : Moment} (h : m.Leads n) :
    ∃ count, m.debugger.Reads n.debugger count := by
  obtain ⟨moves, debugger, -⟩ := h
  obtain ⟨count, -, reads⟩ := reads_play m moves
  exact ⟨count, debugger ▸ reads⟩

end Debugger

/-- What is under way when a command has been begun. -/
def Reply.underway : Reply → Option Debugger.Pace
  | .done _ => none
  | .running => some .running

/-- What a stretch shows of the program's output. -/
def Span.written : Span → Array UInt8
  | .output bytes => bytes
  | .plain _ | .toned _ _ => #[]

namespace Shell

/-- What the program has written as far as it has been shown. -/
def written (s : Shell) : Array UInt8 :=
  s.transcript.programOutput.toArray

/-- The debugger with everything that its program has written, be it shown or not. -/
def whole (s : Shell) : Debugger :=
  s.debugger.preceded s.written

/-- Where a shell is in the session of its debugger. -/
def moment (s : Shell) (underway : Option Debugger.Pace) : Debugger.Moment :=
  { debugger := s.whole, underway }

variable {s t : Shell}

/-! ### What is shown without output -/

theorem whole_debugger (s : Shell) (d : Debugger) :
    ({ s with debugger := d } : Shell).whole = d.preceded s.written := rfl

theorem written_put (s : Shell) (span : Span) :
    (s.put span).written = s.written ++ span.written := by
  cases span <;> simp [written, put, Transcript.programOutput, Span.written]

/-- The shell's own text is no output. -/
theorem whole_put (s : Shell) {span : Span} (text : span.written = #[]) :
    (s.put span).whole = s.whole := by
  rw [whole, written_put, text, Array.append_empty]
  rfl

@[simp] theorem whole_print (s : Shell) (text : String) : (s.print text).whole = s.whole :=
  s.whole_put rfl

@[simp] theorem whole_note (s : Shell) (message : String) : (s.note message).whole = s.whole :=
  s.whole_print _

@[simp] theorem whole_say (s : Shell) (tone : Tone) (message : String) :
    (s.say tone message).whole = s.whole :=
  (whole_print _ _).trans (s.whole_put rfl)

theorem written_drain (s : Shell) : s.drain.written = s.written ++ s.debugger.machine.output := by
  by_cases nothing : s.debugger.machine.output = #[]
  · simp [drain, Debugger.takeOutput, nothing, written]
  · simp [drain, Debugger.takeOutput, nothing, written_put, Span.written]
    rfl

/-- Output is still there when it has been shown. -/
@[simp] theorem whole_drain (s : Shell) : s.drain.whole = s.whole := by
  simp [whole, written_drain, Debugger.takeOutput, Debugger.preceded, Machine.preceded]

@[simp] theorem whole_report (s : Shell) (outcome : Outcome) :
    (s.report outcome).whole = s.whole := by
  cases outcome <;> simp [report]

@[simp] theorem whole_refuse (s : Shell) (fault : Debugger.Fault) :
    (s.refuse fault).whole = s.whole := by
  unfold refuse
  split <;> simp

theorem whole_foldl_put {spans : List Span} (texts : ∀ span ∈ spans, span.written = #[])
    (s : Shell) : (spans.foldl put s).whole = s.whole := by
  induction spans generalizing s with
  | nil => rfl
  | cons span spans ih =>
    obtain ⟨text, others⟩ := List.forall_mem_cons.mp texts
    exact (ih others _).trans (s.whole_put text)

theorem written_of_mem_rowSpans {offset : Int} {row : List UInt8} {span : Span}
    (mem : span ∈ rowSpans offset row) : span.written = #[] := by
  obtain ⟨⟨byte, index⟩, -, mem⟩ := List.mem_flatMap.mp mem
  simp only [cellSpans] at mem
  split at mem
  · rcases List.mem_pair.mp mem with rfl | rfl <;> rfl
  · rw [List.mem_singleton.mp mem]
    rfl

@[simp] theorem whole_showCells (s : Shell) (offset : Int) (length : Nat) :
    (s.showCells offset length).whole = s.whole :=
  (whole_print _ _).trans (whole_foldl_put (fun _ => written_of_mem_rowSpans) s)

@[simp] theorem whole_showWindow (s : Shell) : s.showWindow.whole = s.whole :=
  s.whole_showCells _ _

@[simp] theorem whole_showNext (s : Shell) : s.showNext.whole = s.whole := by
  unfold showNext
  split <;> simp

@[simp] theorem whole_announced (s : Shell) : s.announced.whole = s.whole := by
  simp [announced]

@[simp] theorem whole_showStopPoint (s : Shell) : s.showStopPoint.whole = s.whole := by
  unfold showStopPoint
  split <;> simp

@[simp] theorem whole_showTable (s : Shell) (heading : String) (rows : List String)
    (otherwise : String) : (s.showTable heading rows otherwise).whole = s.whole := by
  unfold showTable
  split <;> simp

@[simp] theorem whole_info (s : Shell) (target : Option Target) :
    (s.info target).whole = s.whole := by
  rcases target with _ | _ | _ | _ <;> simp [info, showBreakpoints, showWatches]

/-! ### What is done to the debugger -/

open Debugger (Pace Adjustment)
open Debugger.Moment (Leads)

variable {on : Option Pace}

/-- What is shown between moves does not count. -/
theorem leads_of_whole (same : t.whole = s.whole) : (s.moment on).Leads (t.moment on) := by
  rw [moment, moment, same]
  exact .refl _

/-- A request is put to the debugger. -/
theorem leads_of_adjust (a : Adjustment) (asked : t.whole = s.whole.adjust a) :
    (s.moment none).Leads (t.moment none) := by
  rw [moment, moment, asked]
  exact .of_play [.call (.adjust a)]

/-- A request that may be refused is put to the debugger, and something is shown about it. -/
theorem leads_settle {α : Type} {request : Debugger.Request α} {goOn : Shell → α → Shell}
    (a : Adjustment) (asked : s.debugger.adjust a = (request s.debugger).1)
    (told : ∀ (t : Shell) value, (goOn t value).whole = t.whole) :
    (s.moment none).Leads ((s.settle request goOn).moment none) := by
  have adjusted : s.whole.adjust a = (s.debugger.adjust a).preceded s.written :=
    s.debugger.adjust_preceded s.written a
  refine leads_of_adjust a ?_
  rw [adjusted, asked]
  unfold settle
  rcases request s.debugger with ⟨after, fault | value⟩
  · exact whole_refuse _ fault
  · exact told _ value

theorem leads_stopAt (s : Shell) (index : Nat) :
    (s.moment none).Leads ((s.stopAt index).moment none) :=
  leads_settle (.setStopPoint index) rfl fun _ _ => whole_note _ _

theorem leads_breakAt (s : Shell) (line : Nat) :
    (s.moment none).Leads ((s.breakAt line).moment none) := by
  refine leads_settle (.addBreakpoint line) rfl fun _ _ => ?_
  split
  · exact whole_say _ _ _
  · exact whole_note _ _

theorem leads_watch (s : Shell) (address : Int) :
    (s.moment none).Leads ((s.watch address).moment none) :=
  leads_settle (.addWatch address) rfl fun _ _ => whole_note _ _

theorem leads_deleteBreakpoint (s : Shell) (ordinal : Nat) :
    (s.moment none).Leads ((s.deleteBreakpoint ordinal).moment none) :=
  leads_settle (.removeBreakpoint ordinal) rfl fun _ _ => whole_note _ _

theorem leads_deleteWatch (s : Shell) (ordinal : Nat) :
    (s.moment none).Leads ((s.deleteWatch ordinal).moment none) :=
  leads_settle (.removeWatch ordinal) rfl fun _ _ => whole_note _ _

theorem leads_deleteStopPoint (s : Shell) :
    (s.moment none).Leads (s.deleteStopPoint.moment none) :=
  leads_of_adjust .clearStopPoint (whole_note _ _)

theorem leads_clear (s : Shell) (target : Option Target) :
    (s.moment none).Leads ((s.clear target).moment none) := by
  rcases target with _ | _ | _ | _
  · -- Three requests, one after the other, and one message for all of them.
    have all : (s.clear none).whole =
        ((s.whole.adjust .clearStopPoint).adjust .clearBreakpoints).adjust .clearWatches :=
      whole_note _ _
    rw [moment, moment, all]
    exact .of_play [.call (.adjust .clearStopPoint), .call (.adjust .clearBreakpoints),
      .call (.adjust .clearWatches)]
  · exact leads_of_adjust .clearStopPoint (whole_note _ _)
  · exact leads_of_adjust .clearBreakpoints (whole_note _ _)
  · exact leads_of_adjust .clearWatches (whole_note _ _)

/-! ### Steps -/

/-- A step does what it does without what was written before. -/
theorem whole_stepOnce (s : Shell) :
    s.stepOnce.1.whole = s.whole.step.1 ∧ s.stepOnce.2 = s.whole.step.2 := by
  have same : s.whole.step = Prod.map (·.preceded s.written) id s.debugger.step :=
    s.debugger.step_preceded s.written
  rw [same, stepOnce, whole_drain]
  exact ⟨rfl, rfl⟩

theorem leads_stepOnce (s : Shell) : (s.moment none).Leads (s.stepOnce.1.moment none) := by
  obtain ⟨debugger, underway, -⟩ := Debugger.Moment.play_step s.whole []
  exact ⟨_, debugger.trans s.whole_stepOnce.1.symm, underway⟩

theorem leads_step (s : Shell) (times : Nat) :
    (s.moment none).Leads ((s.step times).moment none) := by
  induction times generalizing s with
  | zero => exact leads_of_whole (s.whole_print _)
  | succ times ih =>
    rw [step_succ]
    refine s.leads_stepOnce.trans ?_
    split
    · exact ih _
    · exact leads_of_whole (whole_report _ _)

theorem leads_calm (s : Shell) : (s.moment none).Leads (s.calm.moment none) :=
  leads_of_adjust .takeInterrupt rfl

theorem leads_detailed (s : Shell) (times : Nat) :
    (s.moment none).Leads ((s.detailed times).moment none) := by
  induction times generalizing s with
  | zero => exact .refl _
  | succ times ih =>
    rw [detailed_if]
    refine s.leads_calm.trans ?_
    split
    · exact leads_of_whole (whole_report _ _)
    · refine (leads_of_whole s.calm.whole_announced).trans (leads_stepOnce _ |>.trans ?_)
      split
      · exact (leads_of_whole (whole_showWindow _)).trans (ih _)
      · exact leads_of_whole ((whole_report _ _).trans (whole_showWindow _))

/-! ### Command lines -/

theorem leads_of_running (running : s.debugger.running = true) :
    (s.moment none).Leads (s.moment (some .running)) := by
  refine ⟨[.call .resume], ?_, rfl⟩
  have started : s.whole.started = s.whole := by
    rw [Debugger.started]
    cases phase : s.whole.phase with
    | idle =>
      have idle : s.debugger.phase = .idle := phase
      simp [Debugger.running, idle] at running
    | paused reason => rfl
  simpa [moment, Debugger.Moment.next, Debugger.Moment.begin] using started

theorem leads_whenRunning {begin : Shell → Shell}
    (begins : (s.moment none).Leads ((begin s).moment none))
    (same : (begin s).debugger.running = s.debugger.running) :
    (s.moment none).Leads ((s.whenRunning begin).1.moment (s.whenRunning begin).2.underway) := by
  rw [whenRunning]
  split
  · exact begins.trans (leads_of_running (same.trans ‹_›))
  · exact leads_of_whole (whole_say _ _ _)

theorem leads_reset (told : t.whole = s.whole.reset) : (s.moment none).Leads (t.moment none) := by
  rw [moment, moment, told]
  exact .of_play [.call .reset]

/-- What a command does at once. -/
theorem leads_dispatch (s : Shell) (command : Command) :
    (s.moment none).Leads ((s.dispatch command).1.moment (s.dispatch command).2.underway) := by
  cases command with
  | run => exact .of_play [.call .run]
  | resume => exact leads_whenRunning (.refl _) rfl
  | untilExit => exact leads_whenRunning (leads_of_adjust .awaitExit (whole_note _ _)) rfl
  | step times => exact s.leads_step times
  | detailed times => exact s.leads_detailed _
  | stop index =>
    cases index with
    | none => exact leads_of_whole s.whole_showStopPoint
    | some index => exact s.leads_stopAt index
  | breakAt line => exact s.leads_breakAt line
  | deleteStop => exact s.leads_deleteStopPoint
  | deleteBreakpoint ordinal => exact s.leads_deleteBreakpoint ordinal
  | deleteWatch ordinal => exact s.leads_deleteWatch ordinal
  | watch address => exact s.leads_watch address
  | reset => exact leads_reset (whole_note _ _)
  | clear target => exact s.leads_clear target
  | tape | pointer | peek | info | next | code | help | quit =>
    exact leads_of_whole (by simp [dispatch])

theorem leads_begin (s : Shell) (line : String) :
    (s.moment none).Leads ((s.begin line).1.moment (s.begin line).2.underway) := by
  refine s.leads_calm.trans ?_
  unfold begin
  cases Command.parse line with
  | error fault => exact leads_of_whole (s.calm.whole_say _ _)
  | ok asked =>
    cases asked with
    | none => exact .refl _
    | some command => exact s.calm.leads_dispatch command

/-- A run that has come to an outcome is over. -/
theorem leads_proceed (s : Shell) (fuel : Nat) :
    (s.moment (some .running)).Leads
      ((s.proceed fuel).1.moment (if (s.proceed fuel).2 then none else some .running)) := by
  have same : s.whole.advance fuel = Prod.map (·.preceded s.written) id (s.debugger.advance fuel) :=
    s.debugger.advance_preceded s.written fuel
  obtain ⟨debugger, underway, -⟩ := Debugger.Moment.play_proceed same []
  refine ⟨List.replicate fuel .proceed, ?_, ?_⟩
  · refine debugger.trans ?_
    rw [proceed]
    rcases s.debugger.advance fuel with ⟨d, _ | outcome⟩ <;> simp [moment, whole_debugger]
  · refine underway.trans ?_
    rw [proceed]
    rcases s.debugger.advance fuel with ⟨d, _ | outcome⟩ <;> rfl

/-- Every command line is a number of moves, and at its end no call is under way if it has been
answered. -/
theorem leads_execute (s : Shell) (fuel : Nat) (line : String) :
    (s.moment none).Leads ((s.execute fuel line).1.moment
      (if (s.execute fuel line).2.isSome then none else some .running)) := by
  have begun := s.leads_begin line
  rcases begins : s.begin line with ⟨after, flow | _⟩
  · rw [begins] at begun
    rw [execute_of_done begins]
    exact begun
  · rw [begins] at begun
    rw [execute_of_running begins]
    refine begun.trans ?_
    cases halted : (after.proceed fuel).2 <;>
      simpa [halted, Reply.underway] using after.leads_proceed fuel

end Shell

end Brainfuck
