import Brainfuck.Proofs.Program.Layout

/-!
# Brackets

Two texts have the same brackets when they agree once all else is left out. Then what can be said of
a bracket by counting brackets of its kind, or by balance, can be said of the other text's as well.
Here `code` turns the instructions of a program into such a text.
-/

namespace Brainfuck

def isBracket (c : Char) : Bool :=
  c = '[' || c = ']'

/-- The brackets of a text, in their order. -/
def onlyBrackets (text : List Char) : List Char :=
  text.filter isBracket

/-- Every bracket has its partner: there are as many of both kinds, and up to any place there are
not more that close than there are that open. -/
structure Balanced (text : List Char) : Prop where
  even : text.count '[' = text.count ']'
  above : ∀ start, start <+: text → start.count ']' ≤ start.count '['

/-- The operators of instructions, as a text. -/
def code (is : List Instruction) : List Char :=
  is.map fun i => i.operator.symbol

variable {text other before before' later later' : List Char} {c : Char}

@[simp] theorem onlyBrackets_append (before later : List Char) :
    onlyBrackets (before ++ later) = onlyBrackets before ++ onlyBrackets later :=
  List.filter_append before later

theorem onlyBrackets_cons (bracket : isBracket c = true) (later : List Char) :
    onlyBrackets (c :: later) = c :: onlyBrackets later :=
  List.filter_cons_of_pos bracket

theorem count_onlyBrackets (bracket : isBracket c = true) (text : List Char) :
    (onlyBrackets text).count c = text.count c :=
  List.count_filter bracket

/-- Texts with the same brackets have as many of each kind. -/
theorem count_eq_of_onlyBrackets (bracket : isBracket c = true)
    (same : onlyBrackets text = onlyBrackets other) : text.count c = other.count c := by
  rw [← count_onlyBrackets bracket, same, count_onlyBrackets bracket]

/-- Texts with the same brackets can be split at the same bracket. -/
theorem split_of_onlyBrackets (same : onlyBrackets text = onlyBrackets other)
    (bracket : isBracket c = true) (split : text = before ++ c :: later) :
    ∃ before' later', other = before' ++ c :: later' ∧
      onlyBrackets before' = onlyBrackets before ∧ onlyBrackets later' = onlyBrackets later := by
  rw [split, onlyBrackets_append, onlyBrackets_cons bracket] at same
  obtain ⟨start, rest, rfl, start', rest'⟩ := List.filter_eq_append_iff.mp same.symm
  obtain ⟨idle, later', rfl, none, -, later''⟩ := List.filter_eq_cons_iff.mp rest'
  refine ⟨start ++ idle, later', by simp, ?_, later''⟩
  have silent : onlyBrackets idle = [] := List.filter_eq_nil_iff.mpr none
  rw [onlyBrackets_append, silent, List.append_nil]
  exact start'

/-- A character is found by how many of its kind stand before it. -/
theorem split_unique (same : before ++ c :: later = before' ++ c :: later')
    (count : before.count c = before'.count c) : before = before' ∧ later = later' := by
  have whole : before = before' := by
    rcases List.append_eq_append_iff.mp same with ⟨more, rfl, rest⟩ | ⟨more, rfl, rest⟩
    · cases more with
      | nil => simp
      | cons d more =>
        obtain ⟨rfl, -⟩ := List.cons_eq_cons.mp rest
        simp at count
    · cases more with
      | nil => simp
      | cons d more =>
        obtain ⟨rfl, -⟩ := List.cons_eq_cons.mp rest
        simp at count
  subst whole
  exact ⟨rfl, by simpa using same⟩

/-! ### Balance -/

theorem Balanced.onlyBrackets (h : Balanced text) : Balanced (onlyBrackets text) where
  even := by
    rw [count_onlyBrackets rfl, count_onlyBrackets rfl]
    exact h.even
  above := by
    rintro start ⟨rest, split⟩
    obtain ⟨start', rest', rfl, rfl, -⟩ := List.filter_eq_append_iff.mp split.symm
    have below := h.above start' (List.prefix_append start' rest')
    rw [← count_onlyBrackets (c := ']') rfl, ← count_onlyBrackets (c := '[') rfl] at below
    exact below

theorem balanced_of_onlyBrackets (h : Balanced (onlyBrackets text)) : Balanced text where
  even := by
    rw [← count_onlyBrackets (c := '[') rfl, ← count_onlyBrackets (c := ']') rfl]
    exact h.even
  above := by
    intro start starts
    rw [← count_onlyBrackets (c := '[') rfl, ← count_onlyBrackets (c := ']') rfl]
    exact h.above _ (starts.filter isBracket)

theorem balanced_of_silent (silent : onlyBrackets text = []) : Balanced text := by
  apply balanced_of_onlyBrackets
  rw [silent]
  exact ⟨rfl, fun start starts => by rw [List.prefix_nil.mp starts]; exact Nat.le_refl _⟩

/-- What is closed only after it was opened can stand behind other such text. -/
theorem above_append (above : ∀ start, start <+: before → start.count ']' ≤ start.count '[')
    (above' : ∀ start, start <+: later → start.count ']' ≤ start.count '[') :
    ∀ start, start <+: before ++ later → start.count ']' ≤ start.count '[' := by
  intro start starts
  rcases List.prefix_or_prefix_of_prefix starts (List.prefix_append before later) with within | past
  · exact above start within
  · obtain ⟨more, rfl⟩ := past
    have first := above before (List.prefix_refl before)
    have second := above' more ((List.prefix_append_right_inj before).mp starts)
    rw [List.count_append, List.count_append]
    exact Nat.add_le_add first second

theorem Balanced.append (h : Balanced before) (h' : Balanced later) : Balanced (before ++ later) where
  even := by simp [h.even, h'.even]
  above := above_append h.above h'.above

/-- A loop is balanced if its body is. -/
theorem Balanced.loop (h : Balanced text) : Balanced ('[' :: (text ++ [']'])) where
  even := by simp [h.even]
  above := by
    intro start starts
    rcases List.prefix_cons_iff.mp starts with rfl | ⟨more, rfl, starts'⟩
    · exact Nat.le_refl _
    · rcases List.prefix_concat_iff.mp starts' with rfl | within
      · simp [h.even]
      · have below := h.above more within
        simp
        omega

/-- The partner of a bracket is found by balance. -/
theorem Balanced.unique (h : Balanced before) (h' : Balanced before')
    (same : before ++ ']' :: later = before' ++ ']' :: later') : before = before' := by
  -- A longer one would have one bracket too many that closes.
  have ends {x y rest rest' : List Char} (hx : Balanced x) (hy : Balanced (x ++ y))
      (split : ']' :: rest = y ++ ']' :: rest') : y = [] := by
    cases y with
    | nil => rfl
    | cons d y =>
      obtain ⟨rfl, -⟩ := List.cons_eq_cons.mp split
      have below := hy.above (x ++ [']']) (by simp)
      have even := hx.even
      simp at below
      omega
  rcases List.append_eq_append_iff.mp same with ⟨more, rfl, rest⟩ | ⟨more, rfl, rest⟩
  · simp [ends h h' rest]
  · simp [ends h' h rest]

/-! ### Instructions -/

@[simp] theorem length_code (is : List Instruction) : (code is).length = is.length :=
  List.length_map _

@[simp] theorem code_append (is js : List Instruction) : code (is ++ js) = code is ++ code js :=
  List.map_append

theorem symbol_inj {a b : Operator} (h : a.symbol = b.symbol) : a = b := by
  have read := congrArg Operator.ofChar? h
  rw [Operator.ofChar?_symbol, Operator.ofChar?_symbol] at read
  exact Option.some_inj.mp read

/-- A character of the code comes from an instruction of that operator. -/
theorem exists_of_getElem?_code {is : List Instruction} {index : Nat} {op : Operator}
    (found : (code is)[index]? = some op.symbol) :
    ∃ operand, is[index]? = some ⟨op, operand⟩ := by
  rw [code, List.getElem?_map] at found
  obtain ⟨⟨kind, operand⟩, here, same⟩ := Option.map_eq_some_iff.mp found
  obtain rfl : kind = op := symbol_inj same
  exact ⟨operand, here⟩

/-- A loop among instructions. -/
theorem code_loop (is js ks : List Instruction) (finish start : Nat) :
    code (is ++ ⟨.loopStart, finish⟩ :: (js ++ ⟨.loopEnd, start⟩ :: ks)) =
      code is ++ '[' :: (code js ++ ']' :: code ks) := by
  simp [code, Operator.symbol]

end Brainfuck
