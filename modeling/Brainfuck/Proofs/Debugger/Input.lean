import Brainfuck.Proofs.Debugger.Moment

/-!
# The input of a session

A session counts the bytes that its program has read. Whatever it is asked for, each byte that is
gone from the input was taken by a `,` of its own, the first one first.
-/

namespace Brainfuck.Debugger

/-- Whether a byte of the input is read. -/
def Event.isRead : Event → Bool
  | .executed _ .input => true
  | _ => false

/-- How many bytes have been read. -/
def readings (history : List Event) : Nat :=
  history.countP Event.isRead

/-- A session that has gone on and has read some bytes meanwhile: it counts them, and it is the
first ones of its input that are gone. -/
structure Reads (d e : Debugger) (count : Nat) : Prop where
  counted : e.signal.reads = d.signal.reads + count
  taken : e.machine.input = d.machine.input.drop count

variable {d e f : Debugger}

theorem Reads.none (signal : e.signal.reads = d.signal.reads)
    (input : e.machine.input = d.machine.input) : d.Reads e 0 :=
  ⟨signal, input⟩

theorem Reads.trans {first second : Nat} (h : d.Reads e first) (h' : e.Reads f second) :
    d.Reads f (first + second) where
  counted := by rw [h'.counted, h.counted, Nat.add_assoc]
  taken := by rw [h'.taken, h.taken, List.drop_drop]

theorem reads_adjust (d : Debugger) (a : Adjustment) : d.Reads (d.adjust a) 0 := by
  refine .none ?_ (congrArg Machine.input (d.adjust_frame a).2.1)
  cases a with
  | addBreakpoint line =>
    rcases d.adjust_addBreakpoint line with h | ⟨_, _, _, h⟩ <;> rw [h]
  | removeBreakpoint ordinal =>
    rcases d.adjust_removeBreakpoint ordinal with h | ⟨_, _, _, h⟩ <;> rw [h]
  | addWatch address => rcases d.adjust_addWatch address with h | ⟨_, h⟩ <;> rw [h]
  | removeWatch ordinal =>
    rcases d.adjust_removeWatch ordinal with h | ⟨_, _, _, h⟩ <;> rw [h]
  | setStopPoint index => rcases d.adjust_setStopPoint index with h | ⟨_, h⟩ <;> rw [h]
  | clearBreakpoints | clearWatches | clearStopPoint | awaitExit | cancelAwait | takeInterrupt
  | peek => rfl

/-- A `,` takes the next byte, if there is one, and no other instruction takes any. -/
theorem reads_executed (d : Debugger) (i : Instruction) :
    d.Reads (d.executed i) (readings [.executed d.machine.pc i.operator]) := by
  obtain ⟨operator, operand⟩ := i
  cases operator with
  | input =>
    refine ⟨rfl, ?_⟩
    simp only [executed, carryOut, Machine.execute]
    cases d.machine.input <;> rfl
  | increment | decrement | shiftLeft | shiftRight | loopStart | loopEnd | output =>
    exact .none rfl rfl

theorem readings_append (first second : List Event) :
    readings (first ++ second) = readings first + readings second :=
  List.countP_append

theorem reads_proceed (d : Debugger) (pace : Pace) :
    d.Reads (d.proceed pace).1 (readings (d.events pace)) := by
  rw [proceed_eq]
  cases deed : d.deed pace with
  | finish =>
    rw [events_of_finish deed]
    exact .none rfl rfl
  | hold reason =>
    rw [events_of_hold deed]
    cases reason <;> exact .none rfl rfl
  | execute i =>
    have same : readings (d.events pace) = readings [.executed d.machine.pc i.operator] := by
      rcases events_of_execute deed with ⟨-, events⟩ | ⟨_, -, -, events⟩ <;> rw [events]
      rfl
    obtain ⟨_, _, changed⟩ := d.fulfil_execute_eq pace i
    obtain ⟨counted, taken⟩ := d.reads_executed i
    rw [same, changed]
    exact ⟨counted, taken⟩

theorem reads_begin (m : Moment) (call : Call) :
    m.debugger.Reads (m.begin call).debugger 0 ∧
      readings (m.begin call).history = readings m.history := by
  have started : m.debugger.Reads m.started.debugger 0 ∧
      readings m.started.history = readings m.history := by
    unfold Moment.started
    split <;> exact ⟨.none rfl rfl, rfl⟩
  cases call with
  | run | reset => exact ⟨.none rfl rfl, rfl⟩
  | resume | step => exact started
  | adjust a => exact ⟨m.debugger.reads_adjust a, rfl⟩

/-- Every byte that is gone from the input was read by a `,` of its own. -/
theorem reads_play (m : Moment) (moves : List Move) :
    ∃ count, readings (m.play moves).history = readings m.history + count ∧
      m.debugger.Reads (m.play moves).debugger count := by
  refine Moment.play_induction (P := fun n => ∃ count,
    readings n.history = readings m.history + count ∧ m.debugger.Reads n.debugger count) moves
    ⟨0, rfl, .none rfl rfl⟩ ?_ ?_ ?_
  · rintro n call - - ⟨count, counted, reads⟩
    obtain ⟨begins, same⟩ := reads_begin n call
    exact ⟨count, same.trans counted, reads.trans begins⟩
  · rintro n pace - ⟨count, counted, reads⟩
    refine ⟨count + readings (n.debugger.events pace), ?_, reads.trans (n.debugger.reads_proceed _)⟩
    rw [Moment.proceed, readings_append, counted]
    omega
  · rintro n ⟨count, counted, reads⟩
    exact ⟨count, counted, reads.counted, reads.taken⟩

end Brainfuck.Debugger
