import Brainfuck.Proofs.Debugger.Answers
import Brainfuck.Proofs.Shell.History
import Brainfuck.Proofs.Shell.Steps

/-!
# Command lines that leave the session as it is

A line that asks for nothing, is not understood or is refused, and a command that shows something
only, do nothing to the session. The debugger is left as it was but for the interrupt flag, which
every line lowers.
-/

namespace Brainfuck

open Debugger (Adjustment)

/-- What a command asks of the points, if it can be refused. -/
def Command.request? : Command → Option Adjustment
  | .stop (some index) => some (.setStopPoint index)
  | .breakAt line => some (.addBreakpoint line)
  | .deleteBreakpoint ordinal => some (.removeBreakpoint ordinal)
  | .deleteWatch ordinal => some (.removeWatch ordinal)
  | .watch address => some (.addWatch address)
  | _ => none

/-- Whether a command shows something and does nothing else. -/
def Command.looks : Command → Bool
  | .tape | .pointer | .peek _ _ | .info _ | .next | .code | .help | .quit | .stop none => true
  | _ => false

/-- Whether a command takes up a run that is on its way. -/
def Command.resumes : Command → Bool
  | .resume | .untilExit => true
  | _ => false

/-- Whether more commands are wanted after a command that only shows something. -/
def Command.flow : Command → Flow
  | .quit => .quit
  | _ => .goOn

namespace Debugger

variable {d : Debugger} {fault : Fault} {a : Adjustment}

/-- Whether a request is refused does not depend on the interrupt flag. -/
theorem Refuses.takeInterrupt (refused : d.Refuses fault a) :
    d.takeInterrupt.1.Refuses fault a := by
  have answered {α : Type} {request : Request α} (inward : request.Inward)
      (refused : (request d).2 = .error fault) : (request d.takeInterrupt.1).2 = .error fault :=
    (inward.answer_eq d d.machine.output d.signal.lower).trans refused
  cases a with
  | addBreakpoint line => exact answered (Request.inward_addBreakpoint line) refused
  | removeBreakpoint ordinal => exact answered (Request.inward_removeBreakpoint ordinal) refused
  | addWatch address => exact answered (Request.inward_addWatch address) refused
  | removeWatch ordinal => exact answered (Request.inward_removeWatch ordinal) refused
  | setStopPoint index => exact answered (Request.inward_setStopPoint index) refused
  | clearBreakpoints | clearWatches | clearStopPoint | awaitExit | cancelAwait | takeInterrupt
  | peek => cases refused

end Debugger

namespace Shell

open Text (Clean clean_ofList clean_int)

variable {s : Shell} {line : String} {command : Command}

/-- A line that asks for nothing, is not understood or is refused, or only shows something. -/
inductive LeavesAlone (s : Shell) (line : String) : Prop
  | blank (parsed : Command.parse line = .ok none)
  | rejected {fault : Command.Fault} (parsed : Command.parse line = .error fault)
  | refused {command : Command} {a : Adjustment} {fault : Debugger.Fault}
      (parsed : Command.parse line = .ok (some command)) (asks : command.request? = some a)
      (refused : s.debugger.Refuses fault a)
  /-- There is no run to take up. -/
  | resting {command : Command} (parsed : Command.parse line = .ok (some command))
      (resumes : command.resumes = true) (resting : s.debugger.running = false)
  | looking {command : Command} (parsed : Command.parse line = .ok (some command))
      (looks : command.looks = true)

/-! ### Commands -/

/-- An atomic request that is refused is reported, and has left the session as it was. -/
theorem settle_of_refused {α : Type} {request : Debugger.Request α} {fault : Debugger.Fault}
    (atomic : request.Atomic) (refused : (request s.debugger).2 = .error fault)
    (goOn : Shell → α → Shell) : s.settle request goOn = s.refuse fault := by
  have answered : request s.debugger = (s.debugger, .error fault) :=
    Prod.ext (atomic s.debugger fault refused) refused
  rw [settle, answered]

/-- A request that is refused is reported, and nothing else is done. -/
theorem dispatch_of_refuses {a : Adjustment} {fault : Debugger.Fault}
    (asks : command.request? = some a) (refused : s.debugger.Refuses fault a) :
    s.dispatch command = (s.refuse fault, .done .goOn) := by
  have done {after : Shell} (settled : after = s.refuse fault) :
      (after, Reply.done .goOn) = (s.refuse fault, .done .goOn) := by
    rw [settled]
  cases command with
  | stop index =>
    cases index with
    | none => cases asks
    | some index =>
      obtain rfl := Option.some.inj asks
      exact done (settle_of_refused (Debugger.Request.atomic_setStopPoint index) refused _)
  | breakAt line =>
    obtain rfl := Option.some.inj asks
    exact done (settle_of_refused (Debugger.Request.atomic_addBreakpoint line) refused _)
  | deleteBreakpoint ordinal =>
    obtain rfl := Option.some.inj asks
    exact done (settle_of_refused (Debugger.Request.atomic_removeBreakpoint ordinal) refused _)
  | deleteWatch ordinal =>
    obtain rfl := Option.some.inj asks
    exact done (settle_of_refused (Debugger.Request.atomic_removeWatch ordinal) refused _)
  | watch address =>
    obtain rfl := Option.some.inj asks
    exact done (settle_of_refused (Debugger.Request.atomic_addWatch address) refused _)
  | _ => cases asks

theorem dispatch_of_resting (resumes : command.resumes = true)
    (resting : s.debugger.running = false) :
    s.dispatch command =
      (s.say .warning "Code is not running. Use 'run' command to start.", .done .goOn) := by
  have still (begin : Shell → Shell) : s.whenRunning begin =
      (s.say .warning "Code is not running. Use 'run' command to start.", .done .goOn) := by
    rw [whenRunning, if_neg (by simp [resting])]
  cases command with
  | resume => exact still id
  | untilExit => exact still awaitExit
  | _ => cases resumes

/-- A command that looks only shows something. -/
theorem dispatch_of_looks (looks : command.looks = true) :
    s.Tells (s.dispatch command).1 ∧ (s.dispatch command).2 = .done command.flow := by
  have here : Clean ("Current memory pointer: " ++ toString s.debugger.pointer) :=
    .append (clean_ofList rfl) (clean_int _)
  have newline : Clean "\n" := clean_ofList rfl
  cases command with
  | tape =>
    have shown : s.Tells (s.print
        ("Current memory pointer: " ++ toString s.debugger.pointer ++ "\n")) :=
      .print .nothing (.append here newline)
    exact ⟨shown.showWindow, rfl⟩
  | pointer => exact ⟨.note .nothing here, rfl⟩
  | peek offset length => exact ⟨.showCells .nothing _ _, rfl⟩
  | info target => exact ⟨.info .nothing _, rfl⟩
  | next => exact ⟨.showNext .nothing, rfl⟩
  | code => exact ⟨.print .nothing (.append (Program.clean_listing _) newline), rfl⟩
  | help => exact ⟨.print .nothing (.append Command.clean_helpText newline), rfl⟩
  | quit => exact ⟨.nothing, rfl⟩
  | stop index =>
    cases index with
    | none => exact ⟨.showStopPoint .nothing, rfl⟩
    | some index => cases looks
  | _ => cases looks

/-! ### Lines -/

theorem written_say (s : Shell) (tone : Tone) (message : String) :
    (s.say tone message).written = s.written := by
  rw [say, print, written_put, written_put]
  simp [Span.written]

theorem begin_of_parse (parsed : Command.parse line = .ok (some command)) :
    s.begin line = s.calm.dispatch command := by
  rw [begin, parsed]
  rfl

/-- A line that leaves the session alone is done at once. -/
theorem LeavesAlone.begin (h : s.LeavesAlone line) :
    ∃ after flow, s.begin line = (after, .done flow) ∧ SameSession after s.calm ∧
      (flow = .quit ↔ Command.parse line = .ok (some .quit)) := by
  cases h with
  | blank parsed =>
    have begun : s.begin line = (s.calm, .done .goOn) := by
      rw [Shell.begin, parsed]
      rfl
    exact ⟨s.calm, .goOn, begun, ⟨rfl, rfl⟩, by simp [parsed]⟩
  | @rejected fault parsed =>
    have begun : s.begin line = (s.calm.say .error fault.message, .done .goOn) := by
      rw [Shell.begin, parsed]
      rfl
    exact ⟨_, .goOn, begun, ⟨rfl, written_say _ _ _⟩, by simp [parsed]⟩
  | @refused command a fault parsed asks refused =>
    have begun := (begin_of_parse parsed).trans (dispatch_of_refuses asks refused.takeInterrupt)
    have other : command ≠ .quit := by
      intro quit
      rw [quit] at asks
      cases asks
    exact ⟨_, .goOn, begun, (Tells.refuse .nothing fault).sameSession, by simp [parsed, other]⟩
  | @resting command parsed resumes resting =>
    have begun := (begin_of_parse parsed).trans (dispatch_of_resting (s := s.calm) resumes resting)
    have other : command ≠ .quit := by
      intro quit
      rw [quit] at resumes
      cases resumes
    exact ⟨_, .goOn, begun, ⟨rfl, written_say _ _ _⟩, by simp [parsed, other]⟩
  | @looking command parsed looks =>
    obtain ⟨shown, done⟩ := dispatch_of_looks (s := s.calm) looks
    have begun : s.begin line = ((s.calm.dispatch command).1, .done command.flow) :=
      (begin_of_parse parsed).trans (Prod.ext rfl done)
    have asked : command.flow = .quit ↔ command = .quit := by
      cases command <;> simp [Command.flow]
    exact ⟨_, command.flow, begun, shown.sameSession, by simp [parsed, asked]⟩

end Shell

/-- A line that asks for nothing, is not understood or is refused, and a command that shows
something only, are answered at once and leave the session alone: the debugger is the same but for
the flag, which is lowered, the program has written nothing more, and whatever happens to the shell
later comes to the same as if only the flag had been lowered. -/
theorem failing_and_looking_lines_leave_session {s : Shell} {line : String}
    (h : s.LeavesAlone line) (fuel : Nat) :
    ∃ after flow, s.execute fuel line = (after, some flow) ∧
      after.debugger = { s.debugger with signal := s.debugger.signal.lower } ∧
      after.written = s.written ∧
      (flow = .quit ↔ Command.parse line = .ok (some .quit)) ∧
      ∀ events, after.history events = s.calm.history events := by
  obtain ⟨after, flow, begun, same, quits⟩ := h.begin
  exact ⟨after, flow, Shell.execute_of_done begun fuel, same.debugger, same.written, quits,
    same.history_eq⟩

/-- A breakpoint behind the last line is refused in the middle of a run, with the interrupt raised
at the prompt. -/
theorem refused_breakpoint_leaves_session :
    let p : Program := ⟨#[⟨.input, 1⟩, ⟨.output, 1⟩], some #[some 0], 1, #[]⟩
    let start : Shell := { debugger := .ofProgram p [97] {} }
    let s : Shell := start.happenAll [.line 0 "s", .interrupt]
    Program.ofSource true ",." = .ok p ∧ Command.parse "b 2" = .ok (some (.breakAt 2)) ∧
      s.debugger.Refuses (.lineOutOfRange 2 1) (.addBreakpoint 2) ∧
      s.debugger.phase = .paused .stepped ∧ s.debugger.signal.raised = true ∧
      ∃ after, s.execute 0 "b 2" = (after, some .goOn) ∧
        after.debugger = { s.debugger with signal := s.debugger.signal.lower } ∧
        after.written = s.written := by
  intro p start s
  have accepted : Program.ofSource true ",." = .ok p := by cbv
  have parsed : Command.parse "b 2" = .ok (some (.breakAt 2)) := by decide +kernel
  have refused : s.debugger.Refuses (.lineOutOfRange 2 1) (.addBreakpoint 2) := rfl
  have stepped : s.debugger.phase = .paused .stepped := by decide +kernel
  have raised : s.debugger.signal.raised = true := by decide +kernel
  obtain ⟨after, flow, executed, debugger, written, quits, -⟩ :=
    failing_and_looking_lines_leave_session (.refused parsed rfl refused) 0
  have goesOn : flow = .goOn := by
    cases flow with
    | goOn => rfl
    | quit => simp [parsed] at quits
  exact ⟨accepted, parsed, refused, stepped, raised, after, goesOn ▸ executed, debugger, written⟩

end Brainfuck
