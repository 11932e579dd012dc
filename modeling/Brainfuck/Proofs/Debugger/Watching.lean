import Brainfuck.Proofs.Debugger.Moment

/-!
# Watched cells

A dwell lasts from a reset or a move of the pointer to the next one. The debugger does not look at
its watches before every change of a cell: it remembers one of four things about the cell under the
pointer, and requests about watches correct that where they must. `Watched` says what the four
mean, and `watch_pause_iff` that a pause is made exactly before the first change in a dwell that
finds the cell watched.
-/

namespace Brainfuck.Debugger

/-- A dwell begins with a reset and with a move of the pointer. -/
def Event.startsDwell : Event → Bool
  | .reset => true
  | .executed _ operator => operator = .shiftLeft || operator = .shiftRight
  | .halted _ => false

/-- A watch pause has been made in the current dwell. -/
def WatchReported (history : List Event) : Prop :=
  ∃ address, .halted (.paused (.watch address)) ∈ since Event.startsDwell history

/-- What is remembered of the cell under the pointer is right. -/
structure Watched (d : Debugger) (history : List Event) : Prop where
  rising : d.watches.Pairwise (· < ·)
  consumed : d.dwell = .consumed ↔ WatchReported history
  armed : d.dwell = .armed → d.pointer ∈ d.watches
  unwatched : d.dwell = .unwatched → d.pointer ∉ d.watches

variable {d : Debugger} {history : List Event}

theorem watchReported_halted {outcome : Outcome} :
    WatchReported (.halted outcome :: history) ↔
      (∃ address, outcome = .paused (.watch address)) ∨ WatchReported history := by
  simp [WatchReported, since_cons, Event.startsDwell, exists_or, eq_comm]

theorem watchReported_executed {index : Nat} {operator : Operator} :
    WatchReported (.executed index operator :: history) ↔
      (operator ≠ .shiftLeft ∧ operator ≠ .shiftRight) ∧ WatchReported history := by
  by_cases moves : operator = .shiftLeft ∨ operator = .shiftRight
  · rcases moves with rfl | rfl <;> simp [WatchReported, since_cons, Event.startsDwell]
  · obtain ⟨left, right⟩ := not_or.mp moves
    simp [WatchReported, since_cons, Event.startsDwell, left, right]

/-- A pause is made before a change if and only if the cell is watched and no pause has been made
in this dwell. -/
theorem Watched.guards_iff (w : Watched d history) (i : Instruction) :
    d.guards i = true ↔
      i.operator.changesCell = true ∧ d.pointer ∈ d.watches ∧ ¬ WatchReported history := by
  rw [← w.consumed]
  unfold guards look
  cases dwell : d.dwell with
  | unchecked =>
    cases watches : d.watches with
    | nil => simp
    | cons first rest => by_cases h : d.pointer ∈ first :: rest <;> simp [h]
  | unwatched => simp [dwell, w.unwatched dwell]
  | armed =>
    have mem := w.armed dwell
    simp [dwell, mem, List.ne_nil_of_mem mem]
  | consumed => simp [dwell]

/-! ### What keeps it right -/

/-- A session in which the same is remembered of the same cell. -/
theorem Watched.same {e : Debugger} (w : Watched d history) (machine : e.machine = d.machine)
    (watches : e.watches = d.watches) (dwell : e.dwell = d.dwell) : Watched e history := by
  have pointer : e.pointer = d.pointer := by rw [pointer, machine, Debugger.pointer]
  refine ⟨watches ▸ w.rising, dwell ▸ w.consumed, ?_, ?_⟩
  · rw [dwell, pointer, watches]
    exact w.armed
  · rw [dwell, pointer, watches]
    exact w.unwatched

theorem Watched.look (w : Watched d history) : Watched d.look history := by
  unfold Debugger.look
  split
  · rename_i unchecked
    obtain ⟨dwell, -⟩ : d.dwell = .unchecked ∧ _ := by simpa using unchecked
    have unreported : ¬ WatchReported history := by simp [← w.consumed, dwell]
    by_cases mem : d.pointer ∈ d.watches
    · exact ⟨w.rising, by simp [mem, unreported], fun _ => mem, by simp [mem]⟩
    · exact ⟨w.rising, by simp [mem, unreported], by simp [mem], fun _ => mem⟩
  · exact w

theorem Watched.reset (w : Watched d history) : Watched d.reset (.reset :: history) where
  rising := w.rising
  consumed := by simp [WatchReported, since_cons, Event.startsDwell, Debugger.reset]
  armed := by simp [Debugger.reset]
  unwatched := by simp [Debugger.reset]

theorem Watched.addWatch (w : Watched d history) (address : Int) :
    Watched (d.adjust (.addWatch address)) history := by
  rcases d.adjust_addWatch address with same | ⟨fresh, changed⟩
  · rw [same]
    exact w
  · rw [changed]
    have mem (x : Int) : x ∈ insertByKey id address d.watches ↔ x = address ∨ x ∈ d.watches :=
      mem_insertByKey
    refine ⟨pairwise_insertByKey w.rising fun other h e => fresh (e ▸ h), ?_, ?_, ?_⟩
    · rw [← w.consumed]
      cases d.dwell <;> by_cases here : address = d.pointer <;> simp [here]
    · intro armed
      show d.pointer ∈ insertByKey id address d.watches
      by_cases here : address = d.pointer
      · exact (mem _).mpr (.inl here.symm)
      · exact (mem _).mpr (.inr (w.armed (by simpa [here] using armed)))
    · intro unwatched
      show d.pointer ∉ insertByKey id address d.watches
      -- Watching the cell under the pointer arms it, so the new watch is elsewhere.
      have apart : address ≠ d.pointer := by
        intro here
        cases dwell : d.dwell <;> simp [here, dwell] at unwatched
      rw [mem, not_or]
      exact ⟨apart.symm, w.unwatched (by simpa [apart] using unwatched)⟩

theorem Watched.removeWatch (w : Watched d history) (ordinal : Nat) :
    Watched (d.adjust (.removeWatch ordinal)) history := by
  rcases d.adjust_removeWatch ordinal with same | ⟨address, others, taken, changed⟩
  · rw [same]
    exact w
  · rw [changed]
    have mem := mem_of_takeOrdinal? taken
    have gone : address ∉ others := not_mem_of_takeOrdinal? taken (w.rising.imp Int.ne_of_lt)
    refine ⟨w.rising.sublist (sublist_of_takeOrdinal? taken), ?_, ?_, ?_⟩
    · rw [← w.consumed]
      cases d.dwell <;> by_cases here : address = d.pointer <;> simp [here]
    · intro armed
      -- A cell that is watched no longer is not armed either.
      have apart : address ≠ d.pointer := by
        intro here
        cases dwell : d.dwell <;> simp [here, dwell] at armed
      have old := (mem _).mp (w.armed (by simpa [apart] using armed))
      exact old.resolve_left apart.symm
    · intro unwatched
      show d.pointer ∉ others
      by_cases here : address = d.pointer
      · exact here ▸ gone
      · have old := w.unwatched (by simpa [here] using unwatched)
        exact fun h => old ((mem _).mpr (.inr h))

theorem Watched.clearWatches (w : Watched d history) :
    Watched (d.adjust .clearWatches) history := by
  refine ⟨List.Pairwise.nil, ?_, ?_, fun _ => List.not_mem_nil⟩
  · rw [← w.consumed]
    cases dwell : d.dwell <;> simp [adjust, Debugger.clearWatches, dwell]
  · intro armed
    cases dwell : d.dwell <;> simp [adjust, Debugger.clearWatches, dwell] at armed

theorem Watched.adjust (w : Watched d history) (a : Adjustment) :
    Watched (d.adjust a) history := by
  by_cases other : a.concernsWatches = false
  · obtain ⟨watches, dwell⟩ := d.watches_adjust other
    exact w.same (d.adjust_frame a).2.1 watches dwell
  · cases a with
    | addWatch address => exact w.addWatch address
    | removeWatch ordinal => exact w.removeWatch ordinal
    | clearWatches => exact w.clearWatches
    | _ => exact absurd rfl other

/-- The pointer is moved by its two operators only. -/
theorem pointer_execute {i : Instruction} (left : i.operator ≠ .shiftLeft)
    (right : i.operator ≠ .shiftRight) (m : Machine) :
    (m.execute i).tape.pointer = m.tape.pointer := by
  unfold Machine.execute
  split <;> first | contradiction | rfl | (split <;> rfl)

/-- An instruction begins a dwell or leaves the cell under the pointer as known as it was. -/
theorem Watched.executed (w : Watched d history) (i : Instruction) :
    Watched (d.executed i) (.executed d.machine.pc i.operator :: history) := by
  by_cases moves : i.operator = .shiftLeft ∨ i.operator = .shiftRight
  · -- A new dwell: nothing is known of the cell, and nothing has been reported.
    have forgotten : (d.executed i).dwell = .unchecked := by
      rcases moves with h | h <;> simp [Debugger.executed, dwellAfter, h, Dwell.after]
    have unreported : ¬ WatchReported (.executed d.machine.pc i.operator :: history) := by
      rw [watchReported_executed]
      rintro ⟨⟨left, right⟩, -⟩
      exact moves.elim left right
    exact ⟨w.rising, by simp [forgotten, unreported], by simp [forgotten], by simp [forgotten]⟩
  · obtain ⟨left, right⟩ := not_or.mp moves
    have same : (d.executed i).pointer = d.pointer := pointer_execute left right d.machine
    have reported : WatchReported (.executed d.machine.pc i.operator :: history) ↔
        WatchReported history :=
      watchReported_executed.trans (and_iff_right ⟨left, right⟩)
    -- What is known now was known before the instruction, of the session or of a look at it.
    obtain ⟨e, we, watches, pointer, dwell⟩ : ∃ e, Watched e history ∧ e.watches = d.watches ∧
        e.pointer = d.pointer ∧ (d.executed i).dwell = e.dwell := by
      by_cases changes : i.operator.changesCell = true
      · refine ⟨d.look, w.look, d.look_watches, d.look_pointer, ?_⟩
        simp [Debugger.executed, dwellAfter, changes, Dwell.after_of_ne left right]
      · refine ⟨d, w, rfl, rfl, ?_⟩
        simp [Debugger.executed, dwellAfter, changes, Dwell.after_of_ne left right]
    refine ⟨w.rising, ?_, ?_, ?_⟩
    · rw [dwell, reported]
      exact we.consumed
    · intro armed
      show (d.executed i).pointer ∈ d.watches
      rw [same, ← pointer, ← watches]
      exact we.armed (dwell ▸ armed)
    · intro unwatched
      show (d.executed i).pointer ∉ d.watches
      rw [same, ← pointer, ← watches]
      exact we.unwatched (dwell ▸ unwatched)

/-- What a call returns with after an instruction is no watch pause. -/
theorem EndsInstruction.ne_watch {outcome : Outcome} (h : EndsInstruction outcome) (address : Int) :
    outcome ≠ .paused (.watch address) := by
  rcases h with rfl | rfl | rfl <;> simp

/-- A report that is no watch pause leaves everything as it is known. -/
theorem Watched.halted (w : Watched d history) {outcome : Outcome}
    (other : ∀ address, outcome ≠ .paused (.watch address)) :
    Watched d (.halted outcome :: history) := by
  have same : WatchReported (.halted outcome :: history) ↔ WatchReported history := by
    simp [watchReported_halted, other]
  exact ⟨w.rising, w.consumed.trans same.symm, w.armed, w.unwatched⟩

theorem Watched.proceed (w : Watched d history) (pace : Pace) :
    Watched (d.proceed pace).1 (d.events pace ++ history) := by
  rw [proceed_eq]
  cases deed : d.deed pace with
  | finish =>
    rw [events_of_finish deed]
    exact (w.halted (by simp)).same rfl rfl rfl
  | hold reason =>
    rw [events_of_hold deed]
    by_cases watch : ∃ address, reason = .watch address
    · obtain ⟨address, rfl⟩ := watch
      have reported : WatchReported (.halted (.paused (.watch address)) :: history) :=
        watchReported_halted.mpr (.inl ⟨address, rfl⟩)
      exact ⟨w.rising, iff_of_true rfl reported, by simp [fulfil, held], by simp [fulfil, held]⟩
    · have w' : Watched d (.halted (.paused reason) :: history) :=
        w.halted fun address e => watch ⟨address, by simpa using e⟩
      cases reason with
      | watch address => exact absurd ⟨address, rfl⟩ watch
      | interrupted | breakpoint | stopPoint | loopExit | stepped =>
        exact w'.same rfl rfl rfl
  | execute i =>
    have w' : Watched (d.executed i) (d.events pace ++ history) := by
      rcases events_of_execute deed with ⟨-, e⟩ | ⟨outcome, -, ends, e⟩
      · rw [e]
        exact w.executed i
      · rw [e]
        exact (w.executed i).halted ends.ne_watch
    obtain ⟨phase, awaitsExit, h⟩ := d.fulfil_execute_eq pace i
    rw [h]
    exact w'.same rfl rfl rfl

/-- In every session it is right at every moment. -/
theorem watched_session (program : Program) (input : List UInt8) (schedule : Schedule)
    (moves : List Move) :
    let m := (ofProgram program input schedule).session moves
    Watched m.debugger m.history := by
  refine Moment.play_induction (P := fun m => Watched m.debugger m.history) moves ?_ ?_ ?_ ?_
  · exact ⟨List.Pairwise.nil, by simp [ofProgram, WatchReported, since], by simp [ofProgram],
      by simp [ofProgram]⟩
  · intro m call _ _ w
    have started : Watched m.started.debugger m.started.history := by
      unfold Moment.started
      split
      · exact w.reset
      · exact w
    cases call with
    | run => exact w.reset
    | resume => exact started
    | step => exact started
    | reset => exact w.reset
    | adjust a => exact w.adjust a
  · intro m pace _ w
    exact w.proceed pace
  · intro m w
    exact w.same rfl rfl rfl

/-- A turn pauses for a watched address if and only if it is about to execute an instruction that
changes the cell there, the address is watched at that moment, and no watch pause has been made in
this dwell. Then the pause is noted, and nothing else has changed. -/
theorem watch_pause_iff (program : Program) (input : List UInt8) (schedule : Schedule)
    (moves : List Move) (pace : Pace) (address : Int) :
    let m := (ofProgram program input schedule).session moves
    let d := m.debugger
    ((d.proceed pace).2 = some (.paused (.watch address)) ↔
      ∃ i, d.Ready pace i ∧
        (i.operator = .increment ∨ i.operator = .decrement ∨ i.operator = .input) ∧
        d.pointer = address ∧ address ∈ d.watches ∧
        ∀ reported, .halted (.paused (.watch reported)) ∉ since Event.startsDwell m.history) ∧
    ((d.proceed pace).2 = some (.paused (.watch address)) →
      (d.proceed pace).1 = { d with
        reported := some { d.visit with watch := true }
        dwell := .consumed
        phase := .paused (.watch address) }) := by
  intro m d
  have w : Watched d m.history := watched_session program input schedule moves
  rw [outcome_eq_hold_iff (by simp)]
  refine ⟨deed_eq_watch_iff.trans (exists_congr fun i => and_congr_right fun _ => ?_), ?_⟩
  · rw [w.guards_iff, Operator.changesCell_eq, WatchReported, not_exists]
    simp only [Bool.or_eq_true, decide_eq_true_eq, or_assoc]
    constructor
    · rintro ⟨⟨changes, mem, unreported⟩, rfl⟩
      exact ⟨changes, rfl, mem, unreported⟩
    · rintro ⟨changes, rfl, mem, unreported⟩
      exact ⟨⟨changes, mem, unreported⟩, rfl⟩
  · intro deed
    rw [proceed_eq, deed]
    rfl

/-- A watch that is taken away and set again is not reported a second time in one dwell. -/
example :
    let moves : List Move := [.call (.adjust (.addWatch 0)), .call .run, .proceed,
      .call (.adjust (.removeWatch 1)), .call (.adjust (.addWatch 0)), .call .resume, .proceed]
    ((ofProgram .countdown [] {}).session moves).history =
      [.executed 0 .increment, .halted (.paused (.watch 0)), .reset] := by
  decide +kernel

end Brainfuck.Debugger
