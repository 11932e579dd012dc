import Brainfuck.Proofs.Debugger.WellFormed
import Brainfuck.Proofs.Shell.Moves

/-!
# Shells between two command lines

A shell over an analysed program is in order between two of its command lines, since these are moves
of a session. And as long as it is idle its tape is a fresh one, or else its program has come to its
end and the tape is what that has left.
-/

namespace Brainfuck

namespace Debugger

variable {d : Debugger} {m n : Moment} {pace : Pace}

/-- Whether a session is in order does not depend on what has happened before. -/
theorem WellFormed.of_same (h : WellFormed m) (debugger : n.debugger = m.debugger)
    (underway : n.underway = m.underway) : WellFormed n where
  inOrder := debugger ▸ h.inOrder
  atRest := fun returned => debugger ▸ h.atRest (underway ▸ returned)
  stepping := fun on => debugger ▸ h.stepping (underway ▸ on)

theorem play_eq_live (m : Moment) (moves : List Move) :
    m.play moves = m.live (moves.map .move) := by
  rw [Moment.play, Moment.live, List.foldl_map]
  rfl

theorem Moment.Leads.wellFormed (h : m.Leads n) (wellFormed : WellFormed m)
    (range : m.debugger.program.InRange) :
    WellFormed n ∧ n.debugger.program = m.debugger.program := by
  obtain ⟨moves, debugger, underway⟩ := h
  obtain ⟨reached, program⟩ := wellFormed.live range (moves.map .move)
  rw [← play_eq_live] at reached program
  exact ⟨reached.of_same debugger.symm underway.symm, debugger ▸ program⟩

/-- An idle session has a fresh tape, or is at the end of its program. -/
def Rested (d : Debugger) : Prop :=
  d.phase = .idle → d.machine.tape = {} ∨ d.program.size ≤ d.machine.pc

/-- A call that returns leaves the session paused, or at the end of its program. -/
theorem rested_proceed {outcome : Outcome} (returned : (d.proceed pace).2 = some outcome) :
    (d.proceed pace).1.Rested := by
  intro idle
  cases outcome with
  | paused reason =>
    rw [phase_of_paused returned] at idle
    cases idle
  | finished =>
    have ended := Machine.step?_eq_none_iff.mp (ended_of_finished returned)
    rw [program_proceed]
    exact .inr (Array.getElem?_eq_none_iff.mp ended)

theorem rested_adjust (h : d.Rested) (a : Adjustment) : (d.adjust a).Rested := by
  obtain ⟨program, machine, phase, -⟩ := d.adjust_frame a
  rw [Rested, program, machine, phase]
  exact h

/-- Between two calls every session is rested. -/
theorem Moment.Leads.rested (h : m.Leads n) (rested : m.underway = none → m.debugger.Rested)
    (returned : n.underway = none) : n.debugger.Rested := by
  obtain ⟨moves, debugger, underway⟩ := h
  rw [← underway] at returned
  rw [← debugger]
  refine Moment.play_induction (P := fun k => k.underway = none → k.debugger.Rested) moves rested
    ?_ ?_ ?_ returned
  · intro k call _ atRest before after
    cases call with
    | run | resume | step => cases after
    | reset => exact fun _ => .inl rfl
    | adjust a => exact rested_adjust (before atRest) a
  · intro k pace _ _ after
    cases outcome : (k.debugger.proceed pace).2 with
    | none => simp [Moment.proceed, outcome] at after
    | some outcome => exact rested_proceed ‹_›
  · exact fun k before returned => before returned

end Debugger

/-- The shells over a program as they are between two command lines. -/
inductive Reached (p : Program) : Shell → Prop
  | start (input : List UInt8) (schedule : Schedule) (window : Window) :
      Reached p { debugger := .ofProgram p input schedule, window }
  | line {s after : Shell} {fuel : Nat} {text : String} {flow : Flow} (before : Reached p s)
      (executed : s.execute fuel text = (after, some flow)) : Reached p after
  /-- Other input is at hand, another interrupt is heeded, or what has been shown is taken away. -/
  | outside {s : Shell} (before : Reached p s) (input : List UInt8) (signal : Signal)
      (transcript : Transcript) :
      Reached p { s with
        debugger := s.debugger.surrounded input s.debugger.machine.output signal
        transcript }

namespace Reached

variable {p : Program} {s : Shell}

/-- A shell that has been reached is in order. -/
theorem inOrder (h : Reached p s) (range : p.InRange) :
    s.debugger.program = p ∧ Debugger.WellFormed (s.moment none) ∧ s.debugger.Rested := by
  induction h with
  | start input schedule window =>
    refine ⟨rfl, (Debugger.wellFormed_ofProgram p input schedule).outside input #[] _, ?_⟩
    exact fun _ => .inl rfl
  | @line s after fuel text flow before executed ih =>
    obtain ⟨program, wellFormed, rested⟩ := ih
    have leads := s.leads_execute fuel text
    rw [executed] at leads
    obtain ⟨reached, same⟩ := leads.wellFormed wellFormed (program ▸ range)
    exact ⟨same.trans program, reached, leads.rested (fun _ => rested) rfl⟩
  | @outside s before input signal transcript ih =>
    obtain ⟨program, wellFormed, rested⟩ := ih
    exact ⟨program, (wellFormed.outside input _ signal).of_same rfl rfl, rested⟩

end Reached

end Brainfuck
