import Brainfuck.Debugger.Basic

/-! Breakpoints, watchpoints, the stop point and the awaited loop. What can be refused is a request:
it leaves a session behind in any case, and that this is the old one when it is refused has to be
seen from its branches. -/
namespace Brainfuck.Debugger

/-- What is asked of a session and can be refused. It comes to the session it leaves behind, and to
its answer or the reason why it is refused. -/
abbrev Request (α : Type) :=
  Debugger → Debugger × Except Fault α

namespace Request

variable {α : Type}

/-- A request that leaves the session as it was when it is refused. -/
def Atomic (request : Request α) : Prop :=
  ∀ d fault, (request d).2 = .error fault → (request d).1 = d

/-- The session and the answer that a request comes to if it is granted. -/
def granted (request : Request α) (d : Debugger) : Except Fault (Debugger × α) :=
  (request d).2.map fun answer => ((request d).1, answer)

theorem granted_eq_ok_iff {request : Request α} {d e : Debugger} {answer : α} :
    request.granted d = .ok (e, answer) ↔ request d = (e, .ok answer) := by
  unfold granted
  rcases request d with ⟨after, fault | answer'⟩
  · simp [Except.map]
  · simp [Except.map]

theorem granted_eq_error_iff {request : Request α} {d : Debugger} {fault : Fault} :
    request.granted d = .error fault ↔ (request d).2 = .error fault := by
  unfold granted
  rcases request d with ⟨after, fault' | answer⟩
  · simp [Except.map]
  · simp [Except.map]

/-! ### Breakpoints -/

/-- Sets a breakpoint on a line, counted from 1. It halts at the first instruction from there on,
and is inert if there is none. -/
def addBreakpoint (line : Nat) : Request Breakpoint := fun d =>
  if !d.program.hasLines then (d, .error .linesUnknown)
  else if line = 0 || d.program.lineCount < line then
    (d, .error (.lineOutOfRange line d.program.lineCount))
  else if d.breakpoints.any (·.line == line) then (d, .error (.alreadyBreakpoint line))
  else
    let added : Breakpoint := ⟨line, d.program.lineBegin? line⟩
    let marked := match added.index with
      | some index => d.marked.setIfInBounds index true
      | none => d.marked
    ({ d with
      breakpoints := insertByKey (fun b => (b.line : Int)) added d.breakpoints
      marked }, .ok added)

theorem atomic_addBreakpoint (line : Nat) : (addBreakpoint line).Atomic := by
  intro d fault refused
  unfold addBreakpoint at refused ⊢
  split
  · rfl
  · split
    · rfl
    · split
      · rfl
      · -- Nothing is left to refuse it for.
        simp_all

/-- Removes a breakpoint by its place in the list, counted from 1. Another one may halt at the same
instruction still. -/
def removeBreakpoint (ordinal : Nat) : Request Breakpoint := fun d =>
  match takeOrdinal? d.breakpoints ordinal with
  | none => (d, .error (.ordinalOutOfRange .breakpoint ordinal d.breakpoints.length))
  | some (removed, others) =>
    let marked := match removed.index with
      | some index =>
        if others.any (·.index == some index) then d.marked
        else d.marked.setIfInBounds index false
      | none => d.marked
    ({ d with breakpoints := others, marked }, .ok removed)

theorem atomic_removeBreakpoint (ordinal : Nat) : (removeBreakpoint ordinal).Atomic := by
  intro d fault refused
  unfold removeBreakpoint at refused ⊢
  split
  · rfl
  · simp_all

/-! ### Watchpoints -/

/-- Watches an address. If the pointer is there and nothing was reported in this dwell, the next
change is. -/
def addWatch (address : Int) : Request Unit := fun d =>
  if d.watches.contains address then (d, .error (.alreadyWatched address))
  else
    ({ d with
      watches := insertByKey id address d.watches
      -- A pause that was made in this dwell is not made again for a new watch.
      dwell := if address = d.pointer && d.dwell = .unwatched then .armed else d.dwell }, .ok ())

theorem atomic_addWatch (address : Int) : (addWatch address).Atomic := by
  intro d fault refused
  unfold addWatch at refused ⊢
  split
  · rfl
  · simp_all

/-- Removes a watchpoint by its place in the list, counted from 1, and tells its address. -/
def removeWatch (ordinal : Nat) : Request Int := fun d =>
  match takeOrdinal? d.watches ordinal with
  | none => (d, .error (.ordinalOutOfRange .watchpoint ordinal d.watches.length))
  | some (address, others) =>
    ({ d with
      watches := others
      dwell := if address = d.pointer && d.dwell = .armed then .unwatched else d.dwell },
      .ok address)

theorem atomic_removeWatch (ordinal : Nat) : (removeWatch ordinal).Atomic := by
  intro d fault refused
  unfold removeWatch at refused ⊢
  split
  · rfl
  · simp_all

/-! ### The stop point -/

/-- Sets the stop point and tells which one it replaces. -/
def setStopPoint (index : Nat) : Request (Option Nat) := fun d =>
  if index < d.program.size then ({ d with stopPoint := some index }, .ok d.stopPoint)
  else (d, .error (.indexOutOfRange index d.program.size))

theorem atomic_setStopPoint (index : Nat) : (setStopPoint index).Atomic := by
  intro d fault refused
  unfold setStopPoint at refused ⊢
  split
  · simp_all
  · rfl

end Request

/-! ### Requests that have to be granted

For callers that go on with a session only if they have been given what they asked for. -/

def addBreakpoint (d : Debugger) (line : Nat) : Except Fault (Debugger × Breakpoint) :=
  (Request.addBreakpoint line).granted d

def removeBreakpoint (d : Debugger) (ordinal : Nat) : Except Fault (Debugger × Breakpoint) :=
  (Request.removeBreakpoint ordinal).granted d

def addWatch (d : Debugger) (address : Int) : Except Fault Debugger :=
  ((Request.addWatch address).granted d).map Prod.fst

def removeWatch (d : Debugger) (ordinal : Nat) : Except Fault (Debugger × Int) :=
  (Request.removeWatch ordinal).granted d

def setStopPoint (d : Debugger) (index : Nat) : Except Fault (Debugger × Option Nat) :=
  (Request.setStopPoint index).granted d

/-! ### Calls that cannot be refused -/

def clearBreakpoints (d : Debugger) : Debugger :=
  { d with breakpoints := [], marked := d.marked.map fun _ => false }

def clearWatches (d : Debugger) : Debugger :=
  { d with watches := [], dwell := if d.dwell = .armed then .unwatched else d.dwell }

/-- Removes the stop point and tells whether there was one. -/
def clearStopPoint (d : Debugger) : Debugger × Bool :=
  ({ d with stopPoint := none }, d.stopPoint.isSome)

/-- Waits for the end of a loop, and tells whether that is new. -/
def awaitExit (d : Debugger) : Debugger × Bool :=
  ({ d with awaitsExit := true }, !d.awaitsExit)

/-- Waits no longer, and tells whether that is new. -/
def cancelAwait (d : Debugger) : Debugger × Bool :=
  ({ d with awaitsExit := false }, d.awaitsExit)

end Brainfuck.Debugger
