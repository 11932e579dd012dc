import Brainfuck.Proofs.Shell.Telling

/-!
# What a session comes to

A shell meets command lines, interrupts and other input, and a run of its program may be looked at
before it is over. What there is to know of the session after each of these is its history. Shells
with the same debugger and the same output have the same history, whatever else they show.
-/

namespace Brainfuck.Shell

/-- What happens to a shell. A run that has not come to an outcome yet can be taken up again, so
that an interrupt can come between any two of its turns. -/
inductive Event
  | line (fuel : Nat) (text : String)
  | proceed (fuel : Nat)
  | interrupt
  /-- Other input is at hand from now on. -/
  | input (bytes : List UInt8)

/-- The shell after an event, and the answer if a command has been answered. -/
def happen (s : Shell) : Event → Shell × Option Flow
  | .line fuel text => s.execute fuel text
  | .proceed fuel => ((s.proceed fuel).1, if (s.proceed fuel).2 then some .goOn else none)
  | .interrupt => ({ s with debugger := s.debugger.interrupt }, none)
  | .input bytes => ({ s with debugger := s.debugger.withInput bytes }, none)

/-- Some events, one after the other. -/
def happenAll (s : Shell) (events : List Event) : Shell :=
  events.foldl (fun s event => (s.happen event).1) s

/-- What there is to know of a session at some time. -/
structure Sight where
  debugger : Debugger
  answer : Option Flow
  written : Array UInt8

/-- What there is to know after each of some events. -/
def history (s : Shell) : List Event → List Sight
  | [] => []
  | event :: later =>
    let (after, answer) := s.happen event
    ⟨after.debugger, answer, after.written⟩ :: after.history later

variable {s s' : Shell}

/-- No event tells related shells apart. -/
theorem Congruence.happen {R : Shell → Shell → Prop} (c : Congruence R) (h : R s s')
    (event : Event) :
    R (s.happen event).1 (s'.happen event).1 ∧ (s.happen event).2 = (s'.happen event).2 := by
  cases event with
  | line fuel text => exact c.execute h fuel text
  | proceed fuel =>
    obtain ⟨after, halted⟩ := c.proceed h fuel
    exact ⟨after, by simp only [Shell.happen, halted]⟩
  | interrupt | input =>
    simp only [Shell.happen, c.debugger h]
    exact ⟨c.replaced h _, trivial⟩

/-- Shells with the same debugger whose programs have written the same. -/
structure SameSession (s s' : Shell) : Prop where
  debugger : s.debugger = s'.debugger
  written : s.written = s'.written

theorem SameSession.put (h : SameSession s s') (span : Span) :
    SameSession (s.put span) (s'.put span) where
  debugger := h.debugger
  written := by rw [written_put, written_put, h.written]

/-- Showing something changes no session. -/
theorem Tells.sameSession (h : s.Tells s') : SameSession s' s :=
  ⟨h.debugger, h.written⟩

theorem congruence_sameSession : Congruence SameSession where
  debugger := SameSession.debugger
  replaced := fun h _ => ⟨rfl, h.written⟩
  put := SameSession.put
  showWindow := by
    intro s s' h
    -- The windows may differ, and then other cells are shown.
    have shown := (Tells.nothing (s := s)).showWindow.sameSession
    have shown' := (Tells.nothing (s := s')).showWindow.sameSession
    exact ⟨(shown.debugger.trans h.debugger).trans shown'.debugger.symm,
      (shown.written.trans h.written).trans shown'.written.symm⟩

/-- The same session comes to the same. -/
theorem SameSession.history_eq (h : SameSession s s') (events : List Event) :
    s.history events = s'.history events := by
  induction events generalizing s s' with
  | nil => rfl
  | cons event later ih =>
    obtain ⟨after, answer⟩ := congruence_sameSession.happen h event
    simp only [history, after.debugger, after.written, answer, ih after]

end Brainfuck.Shell
