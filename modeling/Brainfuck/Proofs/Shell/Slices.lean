import Brainfuck.Proofs.Shell.Moves

/-!
# Runs in slices

A run that is broken off and taken up again shows its output in more stretches than one that is not.
Shells that differ in that only are `Alike`: what is written out of them is the same, with colors or
without, and no command tells them apart.
-/

namespace Brainfuck.Shell

/-- Shells that differ at most in how the same bytes have been cut up. -/
structure Alike (s s' : Shell) : Prop where
  debugger : s.debugger = s'.debugger
  window : s.window = s'.window
  bytes : ∀ palette, s.transcript.bytes palette = s'.transcript.bytes palette
  written : s.written = s'.written

variable {s s' s'' : Shell}

theorem Alike.refl (s : Shell) : s.Alike s :=
  ⟨rfl, rfl, fun _ => rfl, rfl⟩

theorem Alike.symm (h : s.Alike s') : s'.Alike s :=
  ⟨h.debugger.symm, h.window.symm, fun palette => (h.bytes palette).symm, h.written.symm⟩

theorem Alike.trans (h : s.Alike s') (h' : s'.Alike s'') : s.Alike s'' where
  debugger := h.debugger.trans h'.debugger
  window := h.window.trans h'.window
  bytes := fun palette => (h.bytes palette).trans (h'.bytes palette)
  written := h.written.trans h'.written

theorem bytes_put (s : Shell) (span : Span) (palette : Option Palette) :
    (s.put span).transcript.bytes palette = s.transcript.bytes palette ++ span.bytes palette := by
  simp [put, Transcript.bytes]

theorem Alike.put (h : s.Alike s') (span : Span) : (s.put span).Alike (s'.put span) where
  debugger := h.debugger
  window := h.window
  bytes := fun palette => by rw [bytes_put, bytes_put, h.bytes palette]
  written := by rw [written_put, written_put, h.written]

/-- No command tells alike shells apart. -/
theorem congruence_alike : Congruence Alike where
  debugger := Alike.debugger
  replaced := fun h _ => ⟨rfl, h.window, h.bytes, h.written⟩
  put := Alike.put
  showWindow := by
    intro s s' h
    rw [showWindow, showWindow, showCells, showCells, h.window, h.debugger]
    exact (foldl_put_of_put Alike.put h _).put _

/-! ### Slices -/

theorem bytes_drain (s : Shell) (palette : Option Palette) :
    s.drain.transcript.bytes palette =
      s.transcript.bytes palette ++ s.debugger.machine.output.toList := by
  by_cases nothing : s.debugger.machine.output = #[]
  · simp [drain, Debugger.takeOutput, nothing]
  · simp [drain, Debugger.takeOutput, nothing, bytes_put, Span.bytes]

@[simp] theorem window_drain (s : Shell) : s.drain.window = s.window := by
  unfold drain
  simp only
  split <;> rfl

/-- Output that is shown in the meantime is out of the way when the rest of it is shown. -/
theorem drain_alike (s : Shell) (d : Debugger) :
    ({ s.drain with debugger := d } : Shell).drain.Alike
      ({ s with debugger := d.preceded s.debugger.machine.output } : Shell).drain := by
  constructor
  case debugger => simp [Debugger.takeOutput, Debugger.preceded, Machine.preceded]
  case window => simp
  case bytes =>
    intro palette
    simp only [bytes_drain]
    simp [Debugger.preceded, Machine.preceded]
  case written =>
    rw [written_drain, written_drain]
    have shown : ({ s.drain with debugger := d } : Shell).written =
        s.written ++ s.debugger.machine.output := s.written_drain
    rw [shown]
    simp [Debugger.preceded, Machine.preceded, written]

/-- A run that was broken off goes on where it stopped. -/
theorem proceed_add {fuel : Nat} (broken : (s.proceed fuel).2 = false) (more : Nat) :
    ((s.proceed fuel).1.proceed more).1.Alike (s.proceed (fuel + more)).1 ∧
      ((s.proceed fuel).1.proceed more).2 = (s.proceed (fuel + more)).2 := by
  rcases first : s.debugger.advance fuel with ⟨d, _ | outcome⟩
  · -- What the first slice has written stands before what the second one writes.
    have again : d = d.takeOutput.1.preceded d.machine.output := by
      simp [Debugger.takeOutput, Debugger.preceded, Machine.preceded]
    have whole : s.debugger.advance (fuel + more) =
        Prod.map (·.preceded d.machine.output) id (d.takeOutput.1.advance more) := by
      rw [Debugger.advance_add first, ← Debugger.advance_preceded, ← again]
    have start : (s.proceed fuel).1 = ({ s with debugger := d } : Shell).drain := by
      simp [proceed, first]
    rw [start, proceed, proceed, whole, debugger_drain]
    rcases d.takeOutput.1.advance more with ⟨e, _ | outcome⟩
    · exact ⟨drain_alike _ e, rfl⟩
    · exact ⟨congruence_alike.report (drain_alike _ e) outcome, rfl⟩
  · simp [proceed, first] at broken

/-- Fuel that is left over does not change what a run has come to. -/
theorem proceed_add_of_halted {fuel : Nat} (halted : (s.proceed fuel).2 = true) (more : Nat) :
    s.proceed (fuel + more) = s.proceed fuel := by
  rcases ran : s.debugger.advance fuel with ⟨d, _ | outcome⟩
  · simp [proceed, ran] at halted
  · rw [proceed, proceed, Debugger.advance_add_of_outcome ran, ran]

end Brainfuck.Shell
