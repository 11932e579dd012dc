import Brainfuck.Proofs.Debugger.Breaking
import Brainfuck.Proofs.Debugger.Unhindered

/-!
# Breakpoints that are reported

A run and the calls to go on after it, with nothing but breakpoints to halt them: what they report
is the trace of uninterrupted execution, as far as it has breakpoints. `Going` takes such a run
apart into turns, and `Reporting` is what each turn keeps. The main statement
`breakpoint_reported_once_per_visit` adds what holds in every session.
-/

namespace Brainfuck.Debugger

/-- What a run and calls to go on after it have returned, each with some fuel, and the session
after the last of them. -/
inductive Resumed (d : Debugger) : List Outcome → Debugger → Prop
  | run {fuel : Nat} {e : Debugger} {outcome : Outcome} (returned : d.run fuel = (e, some outcome)) :
      Resumed d [outcome] e
  | resume {outcomes : List Outcome} {fuel : Nat} {e after : Debugger} {outcome : Outcome}
      (before : Resumed d outcomes e) (returned : e.resume fuel = (after, some outcome)) :
      Resumed d (outcomes ++ [outcome]) after

/-- A session on its way through such calls: what they have returned so far, and the session
between two turns. -/
inductive Going (d : Debugger) : List Outcome → Debugger → Prop
  | run : Going d [] d.reset
  | turn {outcomes : List Outcome} {e after : Debugger} (before : Going d outcomes e)
      (on : e.turn = (after, none)) : Going d outcomes after
  | resume {outcomes : List Outcome} {e after : Debugger} {outcome : Outcome}
      (before : Going d outcomes e) (returned : e.turn = (after, some outcome)) :
      Going d (outcomes ++ [outcome]) after.started

/-- The report of a breakpoint. -/
def reportAt (index : Nat) : Outcome :=
  .paused (.breakpoint index)

/-- The indices that uninterrupted execution passes, as far as there are breakpoints. -/
def passes (d : Debugger) (n : Nat) : List Nat :=
  (Machine.trace d.program n d.machine.restart).filter fun index => d.HasBreakpoint index

variable {d e after : Debugger} {outcomes : List Outcome} {outcome : Outcome}

/-! ### Calls in turns -/

theorem advance_one (h : e.turn = (after, some outcome)) : e.advance 1 = (after, some outcome) := by
  rw [advance, h]

theorem Going.resumed {fuel : Nat} (g : Going d outcomes e)
    (h : e.advance fuel = (after, some outcome)) : Resumed d (outcomes ++ [outcome]) after := by
  induction g generalizing fuel after outcome with
  | run => exact .run h
  | @turn _ e _ _ on ih =>
    have longer : e.advance (fuel + 1) = (after, some outcome) := by
      rw [advance, on]
      exact h
    exact ih longer
  | resume _ returned ih => exact .resume (ih (advance_one returned)) h

theorem Going.exists_turn {fuel : Nat} (g : Going d outcomes e)
    (h : e.advance fuel = (after, some outcome)) :
    ∃ last, Going d outcomes last ∧ last.turn = (after, some outcome) := by
  induction fuel generalizing e with
  | zero => cases h
  | succ fuel ih =>
    rw [advance] at h
    rcases on : e.turn with ⟨next, _ | reached⟩
    · rw [on] at h
      exact ih (g.turn on) h
    · rw [on] at h
      exact ⟨e, g, on.trans h⟩

/-- The last of the calls has returned from a turn. -/
theorem Resumed.going (r : Resumed d outcomes after) :
    ∃ before last reached, outcomes = before ++ [reached] ∧ Going d before last ∧
      last.turn = (after, some reached) := by
  induction r with
  | run returned =>
    obtain ⟨last, g, turn⟩ := Going.run.exists_turn returned
    exact ⟨[], last, _, rfl, g, turn⟩
  | @resume _ _ _ _ reached _ returned ih =>
    obtain ⟨before, last, outcome, rfl, g, turn⟩ := ih
    obtain ⟨last', g', turn'⟩ := (g.resume turn).exists_turn returned
    exact ⟨before ++ [outcome], last', reached, rfl, g', turn'⟩

/-- If something has been returned, the call that returned it last is there. -/
theorem Going.exists_resumed (g : Going d outcomes e) (some : outcomes ≠ []) :
    ∃ after, Resumed d outcomes after := by
  induction g with
  | run => exact absurd rfl some
  | turn _ _ ih => exact ih some
  | resume before returned => exact ⟨_, before.resumed (advance_one returned)⟩

/-! ### What is reported on the way -/

/-- What has been returned is what uninterrupted execution passes, and then the next instruction
if its breakpoint has been reported. -/
structure Reporting (d : Debugger) (outcomes : List Outcome) (e : Debugger) : Prop where
  unhindered : e.Unhindered
  program : e.program = d.program
  marked : e.marked = d.marked
  passed : ∃ n, after? (Machine.step? d.program) n d.machine.restart = some e.machine ∧
    outcomes = (d.passes n ++ if e.visit.breakpoint then [e.machine.pc] else []).map reportAt
  inside : e.visit.breakpoint = true → e.machine.pc < d.program.size ∧ d.HasBreakpoint e.machine.pc

theorem passes_succ {n : Nat} {m next : Machine}
    (reached : after? (Machine.step? d.program) n d.machine.restart = some m)
    (step : m.step? d.program = some next) :
    d.passes (n + 1) = d.passes n ++ if d.HasBreakpoint m.pc then [m.pc] else [] := by
  rw [passes, Machine.trace_succ reached step, List.filter_append]
  by_cases has : d.HasBreakpoint m.pc <;> simp [passes, has]

theorem finished_notMem_reports (indices : List Nat) :
    Outcome.finished ∉ indices.map reportAt := by
  simp [reportAt]

/-- A breakpoint halts where there is one that has not been reported yet. -/
theorem Reporting.breaks_iff (r : Reporting d outcomes e) (marked : d.Marked) {i : Instruction}
    (here : d.program.get? e.machine.pc = some i) :
    e.breaks = true ↔ d.HasBreakpoint e.machine.pc ∧ e.visit.breakpoint = false := by
  rw [breaks, Bool.and_eq_true, Bool.not_eq_true', r.marked, marked.marks _ (lt_size_of_get? here)]

theorem Reporting.run (unhindered : d.reset.Unhindered) : Reporting d [] d.reset where
  unhindered := unhindered
  program := rfl
  marked := rfl
  passed := ⟨0, rfl, rfl⟩
  inside := by simp [visit, Debugger.reset]

theorem Reporting.executed (r : Reporting d outcomes e) (marked : d.Marked) {i : Instruction}
    (here : d.program.get? e.machine.pc = some i) (unbroken : e.breaks = false) :
    Reporting d outcomes (e.executed i) := by
  obtain ⟨n, reached, rfl⟩ := r.passed
  have step : e.machine.step? d.program = some (e.machine.execute i) := Machine.step?_of_get? here
  have fresh : (e.executed i).visit.breakpoint = false := rfl
  -- The breakpoint has been reported here, or there is none.
  have same : e.visit.breakpoint = true ↔ d.HasBreakpoint e.machine.pc := by
    refine ⟨fun reported => (r.inside reported).2, fun has => ?_⟩
    by_contra unreported
    rw [(r.breaks_iff marked here).mpr ⟨has, by simpa using unreported⟩] at unbroken
    cases unbroken
  refine ⟨r.unhindered.executed i, r.program, r.marked, ⟨n + 1, ?_, ?_⟩, ?_⟩
  · rw [after?_succ reached, step]
    rfl
  · rw [passes_succ reached step, fresh]
    simp [same]
  · rw [fresh]
    exact fun h => by cases h

theorem Reporting.held (r : Reporting d outcomes e) (marked : d.Marked) {i : Instruction}
    (here : d.program.get? e.machine.pc = some i) (breaks : e.breaks = true) :
    Reporting d (outcomes ++ [reportAt e.machine.pc]) (e.held (.breakpoint e.machine.pc)) := by
  obtain ⟨n, reached, rfl⟩ := r.passed
  obtain ⟨has, unreported⟩ := (r.breaks_iff marked here).mp breaks
  refine ⟨r.unhindered.held _, r.program, r.marked, ⟨n, reached, ?_⟩, fun _ => ?_⟩
  · rw [visit_held, unreported]
    simp
    rfl
  · exact ⟨lt_size_of_get? here, has⟩

/-- A turn reports a breakpoint, executes an instruction or finishes. -/
theorem Reporting.turn_cases (r : Reporting d outcomes e) :
    (d.program.get? e.machine.pc = none ∧ e.turn = (e.finish.1, some .finished)) ∨
    ∃ i, d.program.get? e.machine.pc = some i ∧
      ((e.breaks = true ∧
          e.turn = (e.held (.breakpoint e.machine.pc), some (reportAt e.machine.pc))) ∨
        (e.breaks = false ∧ e.turn = (e.executed i, none))) := by
  cases here : d.program.get? e.machine.pc with
  | none => exact .inl ⟨rfl, turn_of_ended (r.program ▸ here)⟩
  | some i =>
    refine .inr ⟨i, rfl, ?_⟩
    rw [r.unhindered.turn_eq (r.program ▸ here)]
    cases e.breaks with
    | true => exact .inl ⟨rfl, rfl⟩
    | false => exact .inr ⟨rfl, rfl⟩

theorem Going.reporting (marked : d.Marked) (unhindered : d.reset.Unhindered)
    (g : Going d outcomes e) (unfinished : .finished ∉ outcomes) : Reporting d outcomes e := by
  induction g with
  | run => exact Reporting.run unhindered
  | turn _ on ih =>
    have r := ih unfinished
    rcases r.turn_cases with ⟨-, finished⟩ | ⟨i, here, ⟨-, report⟩ | ⟨unbroken, executes⟩⟩
    · cases on.symm.trans finished
    · cases on.symm.trans report
    · cases on.symm.trans executes
      exact r.executed marked here unbroken
  | resume _ returned ih =>
    obtain ⟨before, last⟩ := not_or.mp (mt List.mem_append.mpr unfinished)
    have r := ih before
    rcases r.turn_cases with ⟨-, finished⟩ | ⟨i, here, ⟨breaks, report⟩ | ⟨-, executes⟩⟩
    · cases returned.symm.trans finished
      exact absurd List.mem_cons_self last
    · cases returned.symm.trans report
      exact r.held marked here breaks
    · cases returned.symm.trans executes

/-- Uninterrupted execution is caught up with at every instruction. -/
theorem exists_going (marked : d.Marked) (unhindered : d.reset.Unhindered) {n : Nat} {m : Machine}
    (reached : after? (Machine.step? d.program) n d.machine.restart = some m) :
    ∃ e, Going d ((d.passes n).map reportAt) e ∧ e.machine = m ∧ e.visit.breakpoint = false := by
  induction n generalizing m with
  | zero => exact ⟨d.reset, .run, Option.some.inj reached, rfl⟩
  | succ n ih =>
    obtain ⟨earlier, before, last⟩ := after?_of_le reached n.le_succ
    obtain ⟨e, g, rfl, unreported⟩ := ih before
    have r := g.reporting marked unhindered (finished_notMem_reports _)
    have step : e.machine.step? d.program = some m := by
      rw [← after?_succ before, reached]
    rw [passes_succ before step]
    obtain ⟨i, here, rfl⟩ := Option.map_eq_some_iff.mp step
    by_cases has : d.HasBreakpoint e.machine.pc
    · -- One turn reports the breakpoint, and the next call begins with the instruction.
      have breaks : e.breaks = true := (r.breaks_iff marked here).mpr ⟨has, unreported⟩
      have report := r.unhindered.turn_eq (r.program ▸ here)
      rw [if_pos breaks] at report
      have g' := g.resume report
      have r' := r.held marked here breaks
      have remembered : (e.held (.breakpoint e.machine.pc)).breaks = false := by
        rw [Debugger.breaks, visit_held]
        simp
      have executes := r'.unhindered.turn_eq (r.program ▸ here)
      rw [if_neg (by simp [remembered])] at executes
      refine ⟨(e.held (.breakpoint e.machine.pc)).executed i, ?_, rfl, rfl⟩
      simpa [has, reportAt] using g'.turn executes
    · have unbroken : e.breaks = false := by
        by_contra breaks
        exact has ((r.breaks_iff marked here).mp (by simpa using breaks)).1
      have executes := r.unhindered.turn_eq (r.program ▸ here)
      rw [if_neg (by simp [unbroken])] at executes
      exact ⟨e.executed i, by simpa [has] using g.turn executes, rfl, rfl⟩

/-- What has been returned before the end is what uninterrupted execution passes. -/
theorem Reporting.exists_passes (r : Reporting d outcomes e) :
    ∃ n, outcomes = (d.passes n).map reportAt := by
  obtain ⟨n, reached, rfl⟩ := r.passed
  cases reported : e.visit.breakpoint with
  | false => exact ⟨n, by simp⟩
  | true =>
    obtain ⟨inside, has⟩ := r.inside reported
    have here : d.program.get? e.machine.pc = some _ := Array.getElem?_eq_getElem inside
    exact ⟨n + 1, by simp [passes_succ reached (Machine.step?_of_get? here), has]⟩

/-- The breakpoints that a run and calls to go on report are those that uninterrupted execution
passes: as many as wanted, and no others. -/
theorem resumed_iff (marked : d.Marked) (unhindered : d.reset.Unhindered)
    (unfinished : .finished ∉ outcomes) :
    (∃ e, Resumed d outcomes e) ↔ outcomes ≠ [] ∧ ∃ n, outcomes = (d.passes n).map reportAt := by
  constructor
  · rintro ⟨e, r⟩
    obtain ⟨before, last, reached, rfl, g, turn⟩ := r.going
    exact ⟨by simp, ((g.resume turn).reporting marked unhindered unfinished).exists_passes⟩
  · rintro ⟨some, n, rfl⟩
    obtain ⟨k, m, reached, same⟩ :=
      Machine.exists_after?_trace (p := d.program) n d.machine.restart
    obtain ⟨e, g, -, -⟩ := exists_going marked unhindered reached
    rw [passes, same] at g
    exact g.exists_resumed some

/-- They finish if and only if uninterrupted execution ends, and have then reported all that it
passes. -/
theorem resumed_finished_iff (marked : d.Marked) (unhindered : d.reset.Unhindered)
    (unfinished : .finished ∉ outcomes) :
    (∃ e, Resumed d (outcomes ++ [.finished]) e) ↔
      ∃ n m, after? (Machine.step? d.program) n d.machine.restart = some m ∧
        m.step? d.program = none ∧ outcomes = (d.passes n).map reportAt := by
  constructor
  · rintro ⟨e, r⟩
    obtain ⟨before, last, reached, same, g, turn⟩ := r.going
    obtain ⟨rfl, same⟩ := List.append_inj' same rfl
    obtain rfl : Outcome.finished = reached := by simpa using same
    have r := g.reporting marked unhindered unfinished
    rcases r.turn_cases with ⟨ended, -⟩ | ⟨i, here, ⟨-, report⟩ | ⟨-, executes⟩⟩
    · obtain ⟨n, reached, passed⟩ := r.passed
      have unreported : last.visit.breakpoint = false := by
        by_contra reported
        have inside := (r.inside (by simpa using reported)).1
        have outside : d.program.size ≤ last.machine.pc := Array.getElem?_eq_none_iff.mp ended
        omega
      refine ⟨n, last.machine, reached, Machine.step?_eq_none_iff.mpr ended, ?_⟩
      simpa [unreported] using passed
    · cases turn.symm.trans report
    · cases turn.symm.trans executes
  · rintro ⟨n, m, reached, ended, rfl⟩
    obtain ⟨e, g, rfl, -⟩ := exists_going marked unhindered reached
    have r := g.reporting marked unhindered (finished_notMem_reports _)
    have last : e.turn = (e.finish.1, some .finished) :=
      turn_of_ended (r.program ▸ Machine.step?_eq_none_iff.mp ended)
    exact ⟨_, g.resumed (advance_one last)⟩

/-- In every session: a run executes no instruction with a breakpoint that has not been reported in
the current visit; a breakpoint is reported at its instruction only, and once in a visit. So with
nothing but breakpoints, a run and the calls to go on after it report the trace of uninterrupted
execution, as far as it has breakpoints. -/
theorem breakpoint_reported_once_per_visit (program : Program) (input : List UInt8)
    (schedule : Schedule) (moves : List Move) :
    let m := (ofProgram program input schedule).session moves
    let d := m.debugger
    (∀ index operator, .executed index operator ∈ d.events .running → d.HasBreakpoint index →
      .halted (.paused (.breakpoint index)) ∈ since Event.startsVisit m.history) ∧
    (∀ pace index, (d.proceed pace).2 = some (.paused (.breakpoint index)) →
      index = d.machine.pc ∧ (d.proceed pace).1.machine = d.machine ∧ d.HasBreakpoint index ∧
      ∀ earlier, .halted (.paused (.breakpoint earlier)) ∉ since Event.startsVisit m.history) ∧
    (d.reset.Unhindered → ∀ outcomes, .finished ∉ outcomes →
      ((∃ e, Resumed d outcomes e) ↔
        outcomes ≠ [] ∧ ∃ n, outcomes = (d.passes n).map reportAt) ∧
      ((∃ e, Resumed d (outcomes ++ [.finished]) e) ↔
        ∃ n last, after? (Machine.step? d.program) n d.machine.restart = some last ∧
          last.step? d.program = none ∧ outcomes = (d.passes n).map reportAt)) := by
  intro m d
  obtain ⟨marked, visited⟩ := marked_visited_session program input schedule moves
  refine ⟨?_, ?_, ?_⟩
  · intro index operator mem has
    cases deed : d.deed .running with
    | finish => simp [events_of_finish deed] at mem
    | hold reason => simp [events_of_hold deed] at mem
    | execute i =>
      obtain ⟨rfl, -⟩ : index = d.machine.pc ∧ operator = i.operator := by
        rcases events_of_execute deed with ⟨-, e⟩ | ⟨_, -, -, e⟩ <;> simpa [e] using mem
      exact breakReported_of_executes marked visited deed has
  · intro pace index pause
    obtain ⟨place, has, first, same⟩ := of_breakpoint_pause marked visited pause
    exact ⟨place, same, has, first⟩
  · intro unhindered outcomes unfinished
    exact ⟨resumed_iff marked unhindered unfinished,
      resumed_finished_iff marked unhindered unfinished⟩

/-- A breakpoint in a loop that is gone through twice is reported twice, and then the program
finishes. -/
theorem breakpoint_in_loop_reported_twice :
    let moves : List Move := [.call (.adjust (.addBreakpoint 2))]
    ((ofProgram .countdown [] {}).session moves).debugger.reset.Unhindered ∧
      .finished ∉ [reportAt 2, reportAt 2] ∧
      ∃ e, Resumed ((ofProgram .countdown [] {}).session moves).debugger
        ([reportAt 2, reportAt 2] ++ [.finished]) e := by
  intro moves
  have unhindered : ((ofProgram .countdown [] {}).session moves).debugger.reset.Unhindered :=
    ⟨rfl, rfl, rfl, rfl, fun _ => ⟨rfl, rfl⟩⟩
  have unfinished : .finished ∉ [reportAt 2, reportAt 2] := by decide
  have ended : ((after? (Machine.step? .countdown) 7 {}).any
        fun m => (m.step? .countdown).isNone) = true ∧
      [reportAt 2, reportAt 2] =
        (passes ((ofProgram .countdown [] {}).session moves).debugger 7).map reportAt := by
    decide +kernel
  obtain ⟨last, reached, nothing⟩ := (Option.any_eq_true _ _).mp ended.1
  have reports := (breakpoint_reported_once_per_visit .countdown [] {} moves).2.2 unhindered
    [reportAt 2, reportAt 2] unfinished
  exact ⟨unhindered, unfinished,
    reports.2.mpr ⟨7, last, reached, Option.isNone_iff_eq_none.mp nothing, ended.2⟩⟩

end Brainfuck.Debugger
