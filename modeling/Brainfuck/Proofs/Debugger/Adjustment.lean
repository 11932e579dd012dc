import Brainfuck.Debugger.Points
import Mathlib.Data.List.Perm.Basic

/-!
# Calls that execute nothing

Requests about breakpoints, watches, the stop point and the awaited loop, the question for an
interrupt, and looks at the tape, under one type. Each request that can be refused has its lemma:
either it leaves the session as it was, or it is known what it has changed. What has been written
and whether the interrupt is raised do not count for any of them (`Request.Inward`).
-/

namespace Brainfuck.Debugger

/-- A call that executes nothing. -/
inductive Adjustment
  | addBreakpoint (line : Nat)
  | removeBreakpoint (ordinal : Nat)
  | clearBreakpoints
  | addWatch (address : Int)
  | removeWatch (ordinal : Nat)
  | clearWatches
  | setStopPoint (index : Nat)
  | clearStopPoint
  | awaitExit
  | cancelAwait
  | takeInterrupt
  | peek (offset : Int) (length : Nat)
  deriving DecidableEq

/-- The session after a call that executes nothing. -/
def adjust (d : Debugger) : Adjustment → Debugger
  | .addBreakpoint line => (Request.addBreakpoint line d).1
  | .removeBreakpoint ordinal => (Request.removeBreakpoint ordinal d).1
  | .clearBreakpoints => d.clearBreakpoints
  | .addWatch address => (Request.addWatch address d).1
  | .removeWatch ordinal => (Request.removeWatch ordinal d).1
  | .clearWatches => d.clearWatches
  | .setStopPoint index => (Request.setStopPoint index d).1
  | .clearStopPoint => d.clearStopPoint.1
  | .awaitExit => d.awaitExit.1
  | .cancelAwait => d.cancelAwait.1
  | .takeInterrupt => d.takeInterrupt.1
  | .peek _ _ => d

/-! ### What a request comes to -/

variable (d : Debugger)

/-- The marks once a breakpoint has been added. -/
def markedFor (added : Breakpoint) : Array Bool :=
  match added.index with
  | some index => d.marked.setIfInBounds index true
  | none => d.marked

/-- The marks once a breakpoint has been removed and others are left. -/
def markedWithout (removed : Breakpoint) (others : List Breakpoint) : Array Bool :=
  match removed.index with
  | some index =>
    if others.any (·.index == some index) then d.marked else d.marked.setIfInBounds index false
  | none => d.marked

theorem size_markedFor (added : Breakpoint) : (d.markedFor added).size = d.marked.size := by
  unfold markedFor
  split <;> simp

theorem size_markedWithout (removed : Breakpoint) (others : List Breakpoint) :
    (d.markedWithout removed others).size = d.marked.size := by
  unfold markedWithout
  split
  · split <;> simp
  · rfl

/-- A breakpoint is added to a program with a table of lines if the line is there and has none. -/
theorem addBreakpoint_eq_ok_iff {line : Nat} {added : Debugger × Breakpoint} :
    d.addBreakpoint line = .ok added ↔
      d.program.hasLines = true ∧ (1 ≤ line ∧ line ≤ d.program.lineCount) ∧
        (∀ b ∈ d.breakpoints, b.line ≠ line) ∧
        added = (let b : Breakpoint := ⟨line, d.program.lineBegin? line⟩
          ({ d with
            breakpoints := insertByKey (fun b => (b.line : Int)) b d.breakpoints
            marked := d.markedFor b }, b)) := by
  obtain ⟨e, added⟩ := added
  rw [addBreakpoint, Request.granted_eq_ok_iff]
  unfold Request.addBreakpoint
  split
  · simp_all
  · rename_i lines
    split
    · rename_i outside
      simp only [Bool.or_eq_true, decide_eq_true_eq] at outside
      simp only [Prod.mk.injEq, reduceCtorEq, and_false, false_iff]
      omega
    · rename_i inside
      simp only [Bool.or_eq_true, decide_eq_true_eq] at inside
      split
      · rename_i there
        simp only [List.any_eq_true, beq_iff_eq] at there
        obtain ⟨b, mem, same⟩ := there
        simp only [Prod.mk.injEq, reduceCtorEq, and_false, false_iff]
        exact fun h => h.2.2.1 b mem same
      · rename_i fresh
        simp only [List.any_eq_true, beq_iff_eq, not_exists, not_and] at fresh
        have range : 1 ≤ line ∧ line ≤ d.program.lineCount := by omega
        have lines : d.program.hasLines = true := by simpa using lines
        simp only [lines, range, Prod.mk.injEq, Except.ok.injEq, true_and]
        rw [and_iff_right fresh, eq_comm, eq_comm (a := added)]
        rfl

theorem adjust_addBreakpoint (line : Nat) :
    d.adjust (.addBreakpoint line) = d ∨
    ∃ added : Breakpoint, added = ⟨line, d.program.lineBegin? line⟩ ∧
      (∀ b ∈ d.breakpoints, b.line ≠ added.line) ∧
      d.adjust (.addBreakpoint line) =
        { d with
          breakpoints := insertByKey (fun b => (b.line : Int)) added d.breakpoints
          marked := d.markedFor added } := by
  rw [adjust]
  rcases h : Request.addBreakpoint line d with ⟨e, fault | added⟩
  · have same := Request.atomic_addBreakpoint line d fault (congrArg Prod.snd h)
    rw [h] at same
    exact .inl same
  · have granted : d.addBreakpoint line = .ok (e, added) := Request.granted_eq_ok_iff.mpr h
    obtain ⟨-, -, fresh, changed⟩ := d.addBreakpoint_eq_ok_iff.mp granted
    obtain ⟨rfl, rfl⟩ := Prod.mk.inj changed
    exact .inr ⟨⟨line, d.program.lineBegin? line⟩, rfl, fresh, rfl⟩

theorem adjust_removeBreakpoint (ordinal : Nat) :
    d.adjust (.removeBreakpoint ordinal) = d ∨
    ∃ removed others, takeOrdinal? d.breakpoints ordinal = some (removed, others) ∧
      d.adjust (.removeBreakpoint ordinal) =
        { d with breakpoints := others, marked := d.markedWithout removed others } := by
  simp only [adjust, Request.removeBreakpoint]
  cases taken : takeOrdinal? d.breakpoints ordinal with
  | none => exact .inl rfl
  | some pair => exact .inr ⟨pair.1, pair.2, rfl, rfl⟩

theorem adjust_addWatch (address : Int) :
    d.adjust (.addWatch address) = d ∨
    address ∉ d.watches ∧ d.adjust (.addWatch address) =
      { d with
        watches := insertByKey id address d.watches
        dwell := if address = d.pointer && d.dwell = .unwatched then .armed else d.dwell } := by
  simp only [adjust, Request.addWatch]
  split
  · exact .inl rfl
  · rename_i fresh
    exact .inr ⟨by simpa using fresh, rfl⟩

theorem adjust_removeWatch (ordinal : Nat) :
    d.adjust (.removeWatch ordinal) = d ∨
    ∃ address others, takeOrdinal? d.watches ordinal = some (address, others) ∧
      d.adjust (.removeWatch ordinal) =
        { d with
          watches := others
          dwell := if address = d.pointer && d.dwell = .armed then .unwatched else d.dwell } := by
  simp only [adjust, Request.removeWatch]
  cases taken : takeOrdinal? d.watches ordinal with
  | none => exact .inl rfl
  | some pair => exact .inr ⟨pair.1, pair.2, rfl, rfl⟩

theorem adjust_setStopPoint (index : Nat) :
    d.adjust (.setStopPoint index) = d ∨
    index < d.program.size ∧
      d.adjust (.setStopPoint index) = { d with stopPoint := some index } := by
  simp only [adjust, Request.setStopPoint]
  split
  · exact .inr ⟨‹_›, rfl⟩
  · exact .inl rfl

/-! ### What a request looks at -/

/-- The session amid other surroundings: other bytes have been written, and the interrupt is
another. -/
def amid (output : Array UInt8) (signal : Signal) : Debugger :=
  { d with machine := { d.machine with output }, signal }

namespace Request

variable {α : Type} {request : Request α}

/-- A request for which the surroundings do not count, and that changes nothing there. -/
def Inward (request : Request α) : Prop :=
  ∀ d output signal,
    request (d.amid output signal) = Prod.map (·.amid output signal) id (request d)

theorem Inward.answer_eq (inward : request.Inward) (output : Array UInt8) (signal : Signal) :
    (request (d.amid output signal)).2 = (request d).2 := by
  rw [inward]
  rfl

/-- What has been written is still there when a request has been answered. -/
theorem Inward.output_eq (inward : request.Inward) :
    (request d).1.machine.output = d.machine.output := by
  have same : request d = Prod.map (·.amid d.machine.output d.signal) id (request d) :=
    inward d d.machine.output d.signal
  rw [same]
  rfl

/-- Nor has the interrupt been touched. -/
theorem Inward.signal_eq (inward : request.Inward) : (request d).1.signal = d.signal := by
  have same : request d = Prod.map (·.amid d.machine.output d.signal) id (request d) :=
    inward d d.machine.output d.signal
  rw [same]
  rfl

theorem inward_addBreakpoint (line : Nat) : (addBreakpoint line).Inward := by
  intro d output signal
  simp only [addBreakpoint, apply_ite (Prod.map (amid · output signal) id)]
  rfl

theorem inward_removeBreakpoint (ordinal : Nat) : (removeBreakpoint ordinal).Inward := by
  intro d output signal
  have same : (d.amid output signal).breakpoints = d.breakpoints := rfl
  rw [removeBreakpoint, removeBreakpoint, same]
  cases takeOrdinal? d.breakpoints ordinal <;> rfl

theorem inward_addWatch (address : Int) : (addWatch address).Inward := by
  intro d output signal
  simp only [addWatch, apply_ite (Prod.map (amid · output signal) id)]
  rfl

theorem inward_removeWatch (ordinal : Nat) : (removeWatch ordinal).Inward := by
  intro d output signal
  have same : (d.amid output signal).watches = d.watches := rfl
  rw [removeWatch, removeWatch, same]
  cases takeOrdinal? d.watches ordinal <;> rfl

theorem inward_setStopPoint (index : Nat) : (setStopPoint index).Inward := by
  intro d output signal
  simp only [setStopPoint, apply_ite (Prod.map (amid · output signal) id)]
  rfl

end Request

/-! ### Items that are taken -/

/-- The item that was taken and the others are the items there were. -/
theorem mem_of_takeOrdinal? {α : Type} {items others : List α} {ordinal : Nat} {item : α}
    (h : takeOrdinal? items ordinal = some (item, others)) (x : α) :
    x ∈ items ↔ x = item ∨ x ∈ others := by
  cases ordinal with
  | zero => cases h
  | succ index =>
    obtain ⟨taken, found, rest⟩ := Option.map_eq_some_iff.mp h
    obtain ⟨rfl, rfl⟩ := Prod.mk.inj rest
    obtain ⟨inside, rfl⟩ := List.getElem?_eq_some_iff.mp found
    rw [← List.mem_cons]
    exact (List.getElem_cons_eraseIdx_perm inside).mem_iff.symm

/-- An item that stands once is gone when it has been taken. -/
theorem not_mem_of_takeOrdinal? {α : Type} {items others : List α} {ordinal : Nat} {item : α}
    (h : takeOrdinal? items ordinal = some (item, others)) (once : items.Nodup) :
    item ∉ others := by
  cases ordinal with
  | zero => cases h
  | succ index =>
    obtain ⟨taken, found, rest⟩ := Option.map_eq_some_iff.mp h
    obtain ⟨rfl, rfl⟩ := Prod.mk.inj rest
    obtain ⟨inside, rfl⟩ := List.getElem?_eq_some_iff.mp found
    have perm := List.getElem_cons_eraseIdx_perm inside
    exact (List.nodup_cons.mp (perm.nodup_iff.mpr once)).1

/-- The others stand in the order they stood in. -/
theorem sublist_of_takeOrdinal? {α : Type} {items others : List α} {ordinal : Nat} {item : α}
    (h : takeOrdinal? items ordinal = some (item, others)) : others.Sublist items := by
  cases ordinal with
  | zero => cases h
  | succ index =>
    obtain ⟨taken, -, rest⟩ := Option.map_eq_some_iff.mp h
    obtain ⟨-, rfl⟩ := Prod.mk.inj rest
    exact List.eraseIdx_sublist ..

/-! ### What stays -/

/-- What no call of this kind touches. -/
theorem adjust_frame (a : Adjustment) :
    (d.adjust a).program = d.program ∧ (d.adjust a).machine = d.machine ∧
      (d.adjust a).phase = d.phase ∧ (d.adjust a).reported = d.reported := by
  cases a with
  | addBreakpoint line =>
    rcases d.adjust_addBreakpoint line with h | ⟨_, _, _, h⟩ <;> rw [h] <;>
      exact ⟨rfl, rfl, rfl, rfl⟩
  | removeBreakpoint ordinal =>
    rcases d.adjust_removeBreakpoint ordinal with h | ⟨_, _, _, h⟩ <;> rw [h] <;>
      exact ⟨rfl, rfl, rfl, rfl⟩
  | addWatch address =>
    rcases d.adjust_addWatch address with h | ⟨_, h⟩ <;> rw [h] <;> exact ⟨rfl, rfl, rfl, rfl⟩
  | removeWatch ordinal =>
    rcases d.adjust_removeWatch ordinal with h | ⟨_, _, _, h⟩ <;> rw [h] <;>
      exact ⟨rfl, rfl, rfl, rfl⟩
  | setStopPoint index =>
    rcases d.adjust_setStopPoint index with h | ⟨_, h⟩ <;> rw [h] <;> exact ⟨rfl, rfl, rfl, rfl⟩
  | clearBreakpoints | clearWatches | clearStopPoint | awaitExit | cancelAwait | takeInterrupt
  | peek => exact ⟨rfl, rfl, rfl, rfl⟩

/-- The requests about watches. -/
def Adjustment.concernsWatches : Adjustment → Bool
  | .addWatch _ | .removeWatch _ | .clearWatches => true
  | _ => false

/-- The requests about breakpoints. -/
def Adjustment.concernsBreakpoints : Adjustment → Bool
  | .addBreakpoint _ | .removeBreakpoint _ | .clearBreakpoints => true
  | _ => false

theorem watches_adjust {a : Adjustment} (other : a.concernsWatches = false) :
    (d.adjust a).watches = d.watches ∧ (d.adjust a).dwell = d.dwell := by
  cases a with
  | addWatch | removeWatch | clearWatches => cases other
  | addBreakpoint line =>
    rcases d.adjust_addBreakpoint line with h | ⟨_, _, _, h⟩ <;> rw [h] <;> exact ⟨rfl, rfl⟩
  | removeBreakpoint ordinal =>
    rcases d.adjust_removeBreakpoint ordinal with h | ⟨_, _, _, h⟩ <;> rw [h] <;> exact ⟨rfl, rfl⟩
  | setStopPoint index =>
    rcases d.adjust_setStopPoint index with h | ⟨_, h⟩ <;> rw [h] <;> exact ⟨rfl, rfl⟩
  | clearBreakpoints | clearStopPoint | awaitExit | cancelAwait | takeInterrupt | peek =>
    exact ⟨rfl, rfl⟩

/-- A pause that has been made for a watch in this dwell stays made, and is not made by a
request. -/
theorem consumed_adjust (a : Adjustment) :
    (d.adjust a).dwell = .consumed ↔ d.dwell = .consumed := by
  by_cases other : a.concernsWatches = false
  · rw [(d.watches_adjust other).2]
  · cases a with
    | addWatch address =>
      rcases d.adjust_addWatch address with h | ⟨-, h⟩ <;> rw [h]
      cases d.dwell <;> by_cases here : address = d.pointer <;> simp [here]
    | removeWatch ordinal =>
      rcases d.adjust_removeWatch ordinal with h | ⟨address, _, -, h⟩ <;> rw [h]
      cases d.dwell <;> by_cases here : address = d.pointer <;> simp [here]
    | clearWatches => cases h : d.dwell <;> simp [adjust, clearWatches, h]
    | _ => exact absurd rfl other

theorem breakpoints_adjust {a : Adjustment} (other : a.concernsBreakpoints = false) :
    (d.adjust a).breakpoints = d.breakpoints ∧ (d.adjust a).marked = d.marked := by
  cases a with
  | addBreakpoint | removeBreakpoint | clearBreakpoints => cases other
  | addWatch address =>
    rcases d.adjust_addWatch address with h | ⟨_, h⟩ <;> rw [h] <;> exact ⟨rfl, rfl⟩
  | removeWatch ordinal =>
    rcases d.adjust_removeWatch ordinal with h | ⟨_, _, _, h⟩ <;> rw [h] <;> exact ⟨rfl, rfl⟩
  | setStopPoint index =>
    rcases d.adjust_setStopPoint index with h | ⟨_, h⟩ <;> rw [h] <;> exact ⟨rfl, rfl⟩
  | clearWatches | clearStopPoint | awaitExit | cancelAwait | takeInterrupt | peek =>
    exact ⟨rfl, rfl⟩

/-- The stop point and the awaited loop are changed by the requests about them, and by no other. -/
theorem asked_adjust (d : Debugger) (a : Adjustment) :
    (d.adjust a).stopPoint =
        (match a with
        | .setStopPoint index => if index < d.program.size then some index else d.stopPoint
        | .clearStopPoint => none
        | _ => d.stopPoint) ∧
      (d.adjust a).awaitsExit =
        match a with
        | .awaitExit => true
        | .cancelAwait => false
        | _ => d.awaitsExit := by
  cases a with
  | addBreakpoint line =>
    rcases d.adjust_addBreakpoint line with h | ⟨_, _, _, h⟩ <;> rw [h] <;> exact ⟨rfl, rfl⟩
  | removeBreakpoint ordinal =>
    rcases d.adjust_removeBreakpoint ordinal with h | ⟨_, _, _, h⟩ <;> rw [h] <;> exact ⟨rfl, rfl⟩
  | addWatch address =>
    rcases d.adjust_addWatch address with h | ⟨_, h⟩ <;> rw [h] <;> exact ⟨rfl, rfl⟩
  | removeWatch ordinal =>
    rcases d.adjust_removeWatch ordinal with h | ⟨_, _, _, h⟩ <;> rw [h] <;> exact ⟨rfl, rfl⟩
  | setStopPoint index =>
    by_cases inside : index < d.program.size <;>
      simp [adjust, Request.setStopPoint, inside]
  | clearBreakpoints | clearWatches | clearStopPoint | awaitExit | cancelAwait | takeInterrupt
  | peek => exact ⟨rfl, rfl⟩

theorem stopPoint_adjust (d : Debugger) (a : Adjustment) :
    (d.adjust a).stopPoint =
      match a with
      | .setStopPoint index => if index < d.program.size then some index else d.stopPoint
      | .clearStopPoint => none
      | _ => d.stopPoint :=
  (d.asked_adjust a).1

theorem awaitsExit_adjust (d : Debugger) (a : Adjustment) :
    (d.adjust a).awaitsExit =
      match a with
      | .awaitExit => true
      | .cancelAwait => false
      | _ => d.awaitsExit :=
  (d.asked_adjust a).2

end Brainfuck.Debugger
