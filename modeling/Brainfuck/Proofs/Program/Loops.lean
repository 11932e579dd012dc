import Brainfuck.Proofs.Program.Brackets

/-!
# Loops among instructions

Instructions that are laid out over a text have its brackets, and every bracket among them belongs to
a `Loop`: its two brackets lead behind each other, and what stands between them is laid out for
itself. So two loops lie side by side or one in the other.
-/

namespace Brainfuck

open Plain

variable {first place : Nat} {is : List Instruction} {texts : List (List Char)} {i : Instruction}
  {text : List Char}

/-! ### The brackets of instructions and of their text -/

theorem silent_of_quiet (quiet : ∀ c ∈ text, Quiet c) : onlyBrackets text = [] := by
  refine List.filter_eq_nil_iff.mpr fun c mem => ?_
  obtain ⟨opening, closing, -, -⟩ := quiet c mem
  simp [isBracket, opening, closing]

theorem silent_append {more : List Char} (silent : onlyBrackets text = [])
    (silent' : onlyBrackets more = []) : onlyBrackets (text ++ more) = [] := by
  rw [onlyBrackets_append, silent, silent', List.nil_append]

/-- What is spelled in one piece has no bracket, and neither is it one. -/
theorem Spells.silent (s : Spells i text) :
    onlyBrackets text = [] ∧ onlyBrackets (code [i]) = [] := by
  cases s with
  | counted kind _ _ quiet =>
    exact ⟨silent_of_quiet quiet, silent_of_quiet (by simpa [code] using quiet_of_isCounted kind)⟩
  | input idle => exact ⟨silent_append (silent_of_quiet idle.quiet) rfl, rfl⟩
  | output idle => exact ⟨silent_append (silent_of_quiet idle.quiet) rfl, rfl⟩

/-- Instructions have the brackets of their text. -/
theorem Closed.onlyBrackets_code (h : Closed first is texts) :
    onlyBrackets (code is) = onlyBrackets texts.flatten := by
  induction h with
  | nil => rfl
  | plain before spells ih =>
    simp [ih, spells.silent]
  | @loop _ start finish is js texts inner p q before body opening closing _ _ ih ih' =>
    have flat : (texts ++ (p ++ ['[']) :: (inner ++ [q ++ [']']])).flatten =
        texts.flatten ++ (p ++ '[' :: (inner.flatten ++ (q ++ [']']))) := by simp
    rw [code_loop, flat]
    simp only [onlyBrackets_append, onlyBrackets_cons (c := '[') rfl, ih, ih',
      silent_of_quiet opening.quiet, silent_of_quiet closing.quiet, List.nil_append]
    rfl

/-- Every bracket among them has its partner. -/
theorem Closed.balanced (h : Closed first is texts) : Balanced (code is) := by
  induction h with
  | nil => exact balanced_of_silent rfl
  | plain before spells ih =>
    rw [code_append]
    exact ih.append (balanced_of_silent spells.silent.2)
  | loop before body _ _ _ _ ih ih' =>
    rw [code_loop]
    exact ih.append ih'.loop

/-! ### Loops -/

/-- A loop among instructions the first of which has a given index: what stands before its two
brackets, between them and behind them. -/
structure Loop (first : Nat) (is : List Instruction) where
  before : List Instruction
  body : List Instruction
  later : List Instruction
  texts : List (List Char)
  split : is = before ++ ⟨.loopStart, first + before.length + 1 + body.length + 1⟩ ::
    (body ++ ⟨.loopEnd, first + before.length + 1⟩ :: later)
  closed : Closed (first + before.length + 1) body texts

namespace Loop

/-- The place of the bracket that opens a loop. -/
def opening (l : Loop first is) : Nat :=
  l.before.length

/-- The place of the bracket that closes it. -/
def closing (l : Loop first is) : Nat :=
  l.before.length + 1 + l.body.length

/-- A loop stays where it is when instructions are added behind it. -/
def append (l : Loop first is) (more : List Instruction) : Loop first (is ++ more) :=
  { l with later := l.later ++ more, split := by simp [l.split] }

/-- A loop goes with its instructions when others are added before it. -/
def prepend {start : Nat} (l : Loop start is) (pre : List Instruction)
    (starts : start = first + pre.length) : Loop first (pre ++ is) where
  before := pre ++ l.before
  body := l.body
  later := l.later
  texts := l.texts
  split := by
    subst starts
    simp [l.split, Nat.add_assoc]
  closed := by
    subst starts
    simpa [Nat.add_assoc] using l.closed

theorem code_eq (l : Loop first is) :
    code is = code l.before ++ '[' :: (code l.body ++ ']' :: code l.later) :=
  (congrArg code l.split).trans (code_loop ..)

theorem getElem?_opening (l : Loop first is) :
    is[l.opening]? = some ⟨.loopStart, first + l.closing + 1⟩ := by
  obtain ⟨before, body, later, texts, rfl, -⟩ := l
  simp only [opening, closing]
  rw [List.getElem?_append_right (Nat.le_refl _), Nat.sub_self, List.getElem?_cons_zero]
  simp [Nat.add_assoc]

theorem getElem?_closing (l : Loop first is) :
    is[l.closing]? = some ⟨.loopEnd, first + l.opening + 1⟩ := by
  obtain ⟨before, body, later, texts, rfl, -⟩ := l
  simp only [opening, closing]
  rw [List.getElem?_append_right (by omega),
    show before.length + 1 + body.length - before.length = body.length + 1 by omega,
    List.getElem?_cons_succ, List.getElem?_append_right (Nat.le_refl _), Nat.sub_self,
    List.getElem?_cons_zero]

end Loop

/-- Every bracket belongs to a loop. -/
theorem Closed.exists_loop (h : Closed first is texts) (found : is[place]? = some i)
    (bracket : isBracket i.operator.symbol = true) :
    ∃ l : Loop first is, place = l.opening ∨ place = l.closing := by
  induction h generalizing place with
  | nil => simp at found
  | @plain first is texts j text before spells ih =>
    rcases Nat.lt_or_ge place is.length with lt | ge
    · rw [List.getElem?_append_left lt] at found
      obtain ⟨l, here⟩ := ih found
      exact ⟨l.append [j], here⟩
    · rw [List.getElem?_append_right ge] at found
      obtain rfl : i = j := List.mem_singleton.mp (List.mem_of_getElem? found)
      have silent : onlyBrackets [i.operator.symbol] = [] := spells.silent.2
      rw [onlyBrackets_cons bracket] at silent
      cases silent
  | @loop first start finish is js texts inner p q before body _ _ starts finishes ih ih' =>
    subst starts
    subst finishes
    let whole : Loop first (is ++ ⟨.loopStart, first + is.length + 1 + js.length + 1⟩ ::
        (js ++ [⟨.loopEnd, first + is.length + 1⟩])) :=
      { before := is, body := js, later := [], texts := inner, split := rfl, closed := body }
    rcases Nat.lt_trichotomy place is.length with lt | rfl | gt
    · rw [List.getElem?_append_left lt] at found
      obtain ⟨l, here⟩ := ih found
      exact ⟨l.append _, here⟩
    · exact ⟨whole, .inl rfl⟩
    · obtain ⟨k, rfl⟩ : ∃ k, place = is.length + 1 + k := ⟨place - is.length - 1, by omega⟩
      rw [List.getElem?_append_right (by omega), show is.length + 1 + k - is.length = k + 1 by omega,
        List.getElem?_cons_succ] at found
      rcases Nat.lt_or_ge k js.length with lt | ge
      · rw [List.getElem?_append_left lt] at found
        obtain ⟨l, here⟩ := ih' found
        have inside (opens closes : Instruction) :
            is ++ opens :: (js ++ [closes]) = (is ++ [opens] ++ js) ++ [closes] := by simp
        rw [inside]
        refine ⟨(l.prepend _ (by simp [Nat.add_assoc])).append _, ?_⟩
        simp only [Loop.opening, Loop.closing, Loop.append, Loop.prepend, List.length_append,
          List.length_singleton] at here ⊢
        omega
      · have last : k - js.length < 1 := (List.getElem?_eq_some_iff.mp
          ((List.getElem?_append_right ge).symm.trans found)).1
        exact ⟨whole, .inr (by show is.length + 1 + k = is.length + 1 + js.length; omega)⟩

namespace Loop

theorem opening_lt_closing (l : Loop first is) : l.opening < l.closing := by
  simp only [opening, closing]
  omega

/-- What stands between the brackets of a loop is its body. -/
theorem getElem?_body (l : Loop first is) {k : Nat} (inside : l.opening + 1 + k < l.closing) :
    is[l.opening + 1 + k]? = l.body[k]? := by
  simp only [opening, closing] at inside ⊢
  refine (congrArg (·[l.before.length + 1 + k]?) l.split).trans ?_
  rw [List.getElem?_append_right (by omega),
    show l.before.length + 1 + k - l.before.length = k + 1 by omega, List.getElem?_cons_succ,
    List.getElem?_append_left (by omega)]

/-- Loops lie side by side, or one in the other. -/
theorem nested (l l' : Loop first is) (later : l.opening < l'.opening) :
    l.closing < l'.opening ∨ l'.closing < l.closing := by
  rcases Nat.lt_trichotomy l.closing l'.opening with behind | same | inside
  · exact .inl behind
  · have both := l.getElem?_closing
    rw [same, l'.getElem?_opening] at both
    cases both
  · obtain ⟨k, here⟩ : ∃ k, l'.opening = l.opening + 1 + k :=
      ⟨l'.opening - l.opening - 1, by omega⟩
    have found := l'.getElem?_opening
    rw [here, l.getElem?_body (here ▸ inside)] at found
    -- A loop of the body begins at the same place, so it is the same one.
    obtain ⟨l'', place⟩ := l.closed.exists_loop found rfl
    rcases place with rfl | rfl
    · have same := l''.getElem?_opening.symm.trans found
      obtain ⟨within, -⟩ := List.getElem?_eq_some_iff.mp l''.getElem?_closing
      simp only [Option.some.injEq, Instruction.mk.injEq, true_and] at same
      simp only [opening, closing] at same within ⊢
      omega
    · have both := l''.getElem?_closing.symm.trans found
      cases both

end Loop

end Brainfuck
