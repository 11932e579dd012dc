/-!
# Counted steps

What is said of every system whose states have at most one next state: where it is after a counted
number of steps, in which state it ends, and when one system ends because another one does although
the two are not in step.
-/

namespace Brainfuck

variable {State : Type} {step? : State → Option State} {start s t : State}

/-- The state after a number of steps; none if there are not so many. -/
def after? (step? : State → Option State) : Nat → State → Option State
  | 0, s => some s
  | n + 1, s => (step? s).bind (after? step? n)

theorem after?_add (a b : Nat) (s : State) :
    after? step? (a + b) s = (after? step? a s).bind (after? step? b) := by
  induction a generalizing s with
  | zero => simp [after?]
  | succ a ih =>
    rw [Nat.succ_add]
    cases h : step? s with
    | none => simp [after?, h]
    | some next => simp [after?, h, ih]

/-- Some steps, and some more from there. -/
theorem after?_trans {a b : Nat} (first : after? step? a start = some s)
    (second : after? step? b s = some t) : after? step? (a + b) start = some t := by
  rw [after?_add, first]
  exact second

/-- One more step at the end. -/
theorem after?_succ {n : Nat} (h : after? step? n start = some s) :
    after? step? (n + 1) start = step? s := by
  rw [after?_add, h]
  cases hs : step? s <;> simp [after?, hs]

/-- Whoever gets far gets less far as well. -/
theorem after?_of_le {k n : Nat} (h : after? step? n start = some s) (le : k ≤ n) :
    ∃ earlier, after? step? k start = some earlier ∧ after? step? (n - k) earlier = some s := by
  rw [show n = k + (n - k) by omega, after?_add] at h
  exact Option.bind_eq_some_iff.mp h

/-! ### Ends -/

/-- The state in which a system ends. -/
def Ends (step? : State → Option State) (start last : State) : Prop :=
  ∃ n, after? step? n start = some last ∧ step? last = none

/-- A system that has ended takes no more steps. -/
theorem le_of_after? {k n : Nat} (h : after? step? n start = some s) (ended : step? s = none)
    (hk : after? step? k start = some t) : k ≤ n := by
  rcases Nat.lt_or_ge n k with lt | ge
  · obtain ⟨earlier, he, rest⟩ := after?_of_le hk (Nat.le_of_lt lt)
    obtain rfl : s = earlier := Option.some.inj (h.symm.trans he)
    obtain ⟨j, hj⟩ : ∃ j, k - n = j + 1 := ⟨k - n - 1, by omega⟩
    rw [hj, after?, ended] at rest
    cases rest
  · exact ge

/-- A system ends in one state at most. -/
theorem Ends.unique (hs : Ends step? start s) (ht : Ends step? start t) : s = t := by
  obtain ⟨n, reachedS, endedS⟩ := hs
  obtain ⟨k, reachedT, endedT⟩ := ht
  have same : n = k := Nat.le_antisymm (le_of_after? reachedT endedT reachedS)
    (le_of_after? reachedS endedS reachedT)
  subst same
  exact Option.some.inj (reachedS.symm.trans reachedT)

theorem Ends.of_after? {n : Nat} (h : after? step? n start = some s) (ends : Ends step? s t) :
    Ends step? start t := by
  obtain ⟨k, reached, ended⟩ := ends
  exact ⟨n + k, after?_trans h reached, ended⟩

/-! ### One system for another -/

variable {Fine : Type} {fine? : Fine → Option Fine}

/-- Each step of a coarse system is one or more steps of a fine one, and where the coarse one ends
the fine one goes on to an end that agrees with it. -/
structure Refines (step? : State → Option State) (fine? : Fine → Option Fine)
    (related agree : State → Fine → Prop) : Prop where
  advances : ∀ s f t, related s f → step? s = some t →
    ∃ n g, after? fine? (n + 1) f = some g ∧ related t g
  finishes : ∀ s f, related s f → step? s = none → ∃ g, Ends fine? f g ∧ agree s g

variable {related agree : State → Fine → Prop} {f g : Fine}

theorem Refines.reaches (r : Refines step? fine? related agree) (h : related s f) {n : Nat}
    (reached : after? step? n s = some t) :
    ∃ k g, after? fine? k f = some g ∧ related t g := by
  induction n generalizing s f with
  | zero =>
    obtain rfl : s = t := Option.some.inj reached
    exact ⟨0, f, rfl, h⟩
  | succ n ih =>
    obtain ⟨next, first, rest⟩ := Option.bind_eq_some_iff.mp reached
    obtain ⟨j, f', advanced, h'⟩ := r.advances s f next h first
    obtain ⟨k, g, later, related⟩ := ih h' rest
    exact ⟨j + 1 + k, g, after?_trans advanced later, related⟩

theorem Refines.ends (r : Refines step? fine? related agree) (h : related s f)
    (ends : Ends step? s t) : ∃ g, Ends fine? f g ∧ agree t g := by
  obtain ⟨n, reached, ended⟩ := ends
  obtain ⟨k, f', there, h'⟩ := r.reaches h reached
  obtain ⟨g, ends, same⟩ := r.finishes t f' h' ended
  exact ⟨g, ends.of_after? there, same⟩

/-- The induction is on the steps of the fine system: each coarse step uses some of them up. -/
theorem Refines.ends_of_fine (r : Refines step? fine? related agree) (h : related s f)
    (ends : Ends fine? f g) : ∃ t, Ends step? s t ∧ agree t g := by
  obtain ⟨n, reached, ended⟩ := ends
  induction n using Nat.strongRecOn generalizing s f with
  | _ n ih =>
    cases hs : step? s with
    | none =>
      obtain ⟨g', ends', same⟩ := r.finishes s f h hs
      obtain rfl : g' = g := ends'.unique ⟨n, reached, ended⟩
      exact ⟨s, ⟨0, rfl, hs⟩, same⟩
    | some next =>
      -- The fine system ends behind the steps that this coarse step takes.
      obtain ⟨k, f', advanced, h'⟩ := r.advances s f next h hs
      have le : k + 1 ≤ n := le_of_after? reached ended advanced
      obtain ⟨between, there, rest⟩ := after?_of_le reached le
      obtain rfl : f' = between := Option.some.inj (advanced.symm.trans there)
      obtain ⟨t, ⟨j, later, last⟩, same⟩ := ih (n - (k + 1)) (by omega) h' rest
      exact ⟨t, ⟨j + 1, by simp [after?, hs, later], last⟩, same⟩

end Brainfuck
