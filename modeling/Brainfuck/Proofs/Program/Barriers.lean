import Brainfuck.Proofs.Program.Jumps
import Brainfuck.Proofs.Program.Verdict

/-!
# Brackets as barriers

What is not counted cancels nothing, so a bracket parts the operators of a text in two that are
reduced each for itself: `leftOf_append`. A program spells out just what is left of its text. So
what is left of the text between two brackets is what the instructions of the loop spell out, and a
loop is empty if and only if the text in it cancels out: `Loop.body_eq_nil_iff`.
-/

namespace Brainfuck

/-- What is left of a text: the operators of each of its stretches, reduced. -/
def leftOf (byLine : Bool) (text : List Char) : List Operator :=
  (stretches byLine text).flatMap fun stretch => Word.reduce (operators stretch)

namespace Word

variable {before word short : List Operator} {op : Operator}

/-! ### Barriers -/

/-- What is not counted cancels nothing. -/
theorem join_single (single : op.isCounted = false) (word : List Operator) :
    join word op = word ++ [op] := by
  rw [join, if_neg]
  intro found
  obtain ⟨last, -, opposite⟩ := Option.bind_eq_some_iff.mp found
  rw [isCounted_of_opposite (Operator.opposite_comm opposite)] at single
  cases single

/-- What comes behind goes on with the end of a word. -/
theorem join_append (some : short ≠ []) (before : List Operator) (op : Operator) :
    join (before ++ short) op = before ++ join short op := by
  rcases List.eq_nil_or_concat' short with rfl | ⟨short, last, rfl⟩
  · exact absurd rfl some
  · rw [← List.append_assoc, join_snoc, join_snoc]
    split
    · rfl
    · simp only [List.append_assoc]

/-- Behind what is not counted, reduction begins anew. -/
theorem foldl_join_single (single : op.isCounted = false) (before word : List Operator) :
    word.foldl join (before ++ [op]) = before ++ op :: reduce word := by
  induction word using List.reverseRecOn with
  | nil => rfl
  | append_singleton word last ih =>
    rw [List.foldl_concat, ih, reduce_snoc, join_append (List.cons_ne_nil _ _)]
    by_cases nothing : reduce word = []
    · have apart : op.opposite ≠ some last := by
        intro opposite
        rw [isCounted_of_opposite opposite] at single
        cases single
      have joined : join [op] last = [op, last] := by
        rw [← List.nil_append [op], join_snoc, if_neg apart]
        rfl
      rw [nothing, joined, join_nil]
    · have joined := join_append nothing [op] last
      rw [List.singleton_append, List.singleton_append] at joined
      rw [joined]

/-- What is not counted parts a word in two that are reduced each for itself. -/
theorem reduce_append_cons (single : op.isCounted = false) (before later : List Operator) :
    reduce (before ++ op :: later) = reduce before ++ op :: reduce later := by
  have first : reduce (before ++ op :: later) = later.foldl join (join (reduce before) op) := by
    rw [reduce, List.foldl_append, List.foldl_cons]
    rfl
  rw [first, join_single single, foldl_join_single single]

end Word

variable {byLine : Bool} {text before inner later : List Char} {op : Operator} {source : String}
  {p : Program} {first : Nat} {is : List Instruction} {texts : List (List Char)}

theorem operators_append_cons (op : Operator) (before later : List Char) :
    operators (before ++ op.symbol :: later) = operators before ++ op :: operators later := by
  rw [operators_append, operators, operators, List.filterMap_cons_some (Operator.ofChar?_symbol op)]
  rfl

/-! ### Texts -/

/-- What has begun a line is reduced with what goes on in it, and other lines each for itself. -/
theorem leftOf_unfinished (unfinished : ∀ c ∈ text, c ≠ '\n') (later : List Char) :
    leftOf true (text ++ later) =
      Word.reduce (operators (text ++ (Text.lines later).headD [])) ++
        (Text.lines later).tail.flatMap fun line => Word.reduce (operators line) := by
  show (Text.lines (text ++ later)).flatMap _ = _
  by_cases none : text = []
  · subst none
    rw [List.nil_append, List.nil_append]
    cases Text.lines later <;> rfl
  · rw [Text.lines_append_of_unfinished none unfinished, List.flatMap_cons]

/-- What is not counted parts a text in two, of each of which is left what is left of it alone. -/
theorem leftOf_append (single : op.isCounted = false) (byLine : Bool) (before later : List Char) :
    leftOf byLine (before ++ op.symbol :: later) =
      leftOf byLine before ++ op :: leftOf byLine later := by
  cases byLine with
  | false =>
    simp only [leftOf, stretches, Bool.false_eq_true, if_false, List.flatMap_singleton]
    rw [operators_append_cons, Word.reduce_append_cons single]
  | true =>
    obtain ⟨whole, part, -, -, unfinished, all⟩ := Text.exists_lines_append before
    have behind (more : List Char) : leftOf true (before ++ more) =
        (whole.flatMap fun line => Word.reduce (operators line)) ++ leftOf true (part ++ more) := by
      show (Text.lines (before ++ more)).flatMap _ = _
      rw [all, List.flatMap_append]
      rfl
    have goesOn : ∀ c ∈ part ++ [op.symbol], c ≠ '\n' := by
      intro c mem
      rcases List.mem_append.mp mem with inside | last
      · exact unfinished c inside
      · rw [List.mem_singleton.mp last]
        exact Assembly.symbol_ne_newline op
    have first : leftOf true before =
        (whole.flatMap fun line => Word.reduce (operators line)) ++
          Word.reduce (operators part) := by
      have alone := behind []
      rw [leftOf_unfinished unfinished, List.append_nil] at alone
      simpa using alone
    have second : leftOf true ([] ++ later) = _ := leftOf_unfinished (List.forall_mem_nil _) later
    rw [List.nil_append, List.nil_append] at second
    rw [behind, List.append_cons, leftOf_unfinished goesOn, List.append_assoc part,
      List.singleton_append, operators_append_cons, Word.reduce_append_cons single, first, second]
    simp only [List.append_assoc, List.cons_append]

/-- Nothing is left of a text that cancels out, and of no other. -/
theorem leftOf_eq_nil_iff : leftOf byLine text = [] ↔ CancelsOut byLine text := by
  rw [cancelsOut_iff, leftOf, List.flatMap_eq_nil_iff]
  apply forall₂_congr
  intro stretch _
  rw [Word.reducesTo_iff]
  exact eq_comm

/-- A program spells out what is left of its text. -/
theorem expand_eq_leftOf (h : Program.ofSource byLine source = .ok p) :
    expand p.instructions.toList = leftOf byLine source.toList := by
  obtain ⟨chunks, split, condense⟩ := condenses_of_ofSource h
  rw [split, leftOf]
  clear split h
  generalize stretches byLine source.toList = all at condense
  induction condense with
  | nil => rfl
  | cons here _ ih => rw [List.flatten_cons, expand_append, here.expand_eq, ih, List.flatMap_cons]

/-! ### The brackets of what is left -/

theorem onlyBrackets_spelled (i : Instruction) :
    onlyBrackets (i.spelled.map Operator.symbol) = onlyBrackets [i.operator.symbol] := by
  obtain ⟨op, n⟩ := i
  cases counted : op.isCounted with
  | true =>
    have free := free_of_counted counted
    rw [spelled_of_counted counted, List.map_replicate, onlyBrackets, onlyBrackets,
      List.filter_replicate_of_neg (Bool.eq_false_iff.mp free),
      List.filter_cons_of_neg (Bool.eq_false_iff.mp free), List.filter_nil]
  | false => rw [spelled_of_not_counted counted, List.map_singleton]

/-- Instructions have the same brackets when they are spelled out. -/
theorem onlyBrackets_expand (is : List Instruction) :
    onlyBrackets ((expand is).map Operator.symbol) = onlyBrackets (code is) := by
  induction is with
  | nil => rfl
  | cons i is ih =>
    have whole : i :: is = [i] ++ is := rfl
    rw [whole, expand_append, expand_singleton, List.map_append, onlyBrackets_append,
      onlyBrackets_spelled, ih, code_append, onlyBrackets_append]
    rfl

theorem Word.Cancels.onlyBrackets_eq {word short : List Operator} (h : Word.Cancels word short) :
    onlyBrackets (word.map Operator.symbol) = onlyBrackets (short.map Operator.symbol) := by
  obtain ⟨before, after, opposite⟩ := h
  have first := free_of_counted (isCounted_of_opposite opposite)
  have second := free_of_counted (isCounted_of_opposite (Operator.opposite_comm opposite))
  rw [List.map_append, List.map_append, onlyBrackets_append, onlyBrackets_append, List.map_cons,
    List.map_cons]
  congr 1
  rw [onlyBrackets, List.filter_cons_of_neg (Bool.eq_false_iff.mp first),
    List.filter_cons_of_neg (Bool.eq_false_iff.mp second)]
  rfl

/-- Reduction takes no bracket away. -/
theorem onlyBrackets_reduce (word : List Operator) :
    onlyBrackets ((Word.reduce word).map Operator.symbol) =
      onlyBrackets (word.map Operator.symbol) := by
  have reached := Word.reflTransGen_reduce word
  generalize Word.reduce word = short at reached
  induction reached with
  | refl => rfl
  | tail _ step ih => rw [← step.onlyBrackets_eq, ih]

theorem onlyBrackets_operators (text : List Char) :
    onlyBrackets ((operators text).map Operator.symbol) = onlyBrackets text := by
  induction text with
  | nil => rfl
  | cons c text ih =>
    rw [operators]
    cases kind : Operator.ofChar? c with
    | none =>
      have silent : onlyBrackets [c] = [] := silent_of_quiet (by simpa using quiet_of_comment kind)
      have whole : c :: text = [c] ++ text := rfl
      rw [List.filterMap_cons_none kind, whole, onlyBrackets_append, silent, List.nil_append]
      exact ih
    | some op =>
      have whole : c :: text = [op.symbol] ++ text := by rw [symbol_of_ofChar? kind]; rfl
      rw [List.filterMap_cons_some kind, List.map_cons, whole, onlyBrackets_append, ← ih]
      exact onlyBrackets_append [op.symbol] _

/-- What is left of a text has its brackets. -/
theorem onlyBrackets_leftOf (byLine : Bool) (text : List Char) :
    onlyBrackets ((leftOf byLine text).map Operator.symbol) = onlyBrackets text := by
  have all (parts : List (List Char)) :
      onlyBrackets ((parts.flatMap fun part => Word.reduce (operators part)).map Operator.symbol) =
        onlyBrackets parts.flatten := by
    induction parts with
    | nil => rfl
    | cons part parts ih =>
      rw [List.flatMap_cons, List.map_append, onlyBrackets_append, onlyBrackets_reduce,
        onlyBrackets_operators, ih, List.flatten_cons, onlyBrackets_append]
  rw [leftOf, all, flatten_stretches]

/-! ### Loops -/

/-- An instruction that counts something spells something, and so does one that is not counted. -/
theorem spelled_ne_nil {i : Instruction} (positive : i.operator.isCounted = true → 0 < i.operand) :
    i.spelled ≠ [] := by
  obtain ⟨op, n⟩ := i
  cases counted : op.isCounted with
  | true =>
    rw [spelled_of_counted counted, Ne, List.replicate_eq_nil_iff]
    exact (positive counted).ne'
  | false =>
    rw [spelled_of_not_counted counted]
    exact List.cons_ne_nil _ _

/-- Whatever is laid out over a text spells something. -/
theorem Closed.eq_nil_of_expand (h : Closed first is texts) (nothing : expand is = []) :
    is = [] := by
  cases h with
  | nil => rfl
  | plain before spells =>
    rw [expand_append, expand_singleton] at nothing
    have last := (List.append_eq_nil_iff.mp nothing).2
    exact absurd last (spelled_ne_nil fun _ => spells.positive)
  | loop before body =>
    rw [expand_append] at nothing
    have behind := (List.append_eq_nil_iff.mp nothing).2
    cases behind

/-- A loop spelled out: what stands before it, in it and behind it. -/
theorem Loop.expand_eq (l : Loop first is) : expand is =
    expand l.before ++ .loopStart :: (expand l.body ++ .loopEnd :: expand l.later) := by
  have spelled (is js ks : List Instruction) (finish start : Nat) :
      expand (is ++ ⟨.loopStart, finish⟩ :: (js ++ ⟨.loopEnd, start⟩ :: ks)) =
        expand is ++ .loopStart :: (expand js ++ .loopEnd :: expand ks) := by
    rw [expand_append]
    congr 1
    show .loopStart :: expand (js ++ ⟨.loopEnd, start⟩ :: ks) = _
    rw [expand_append]
    rfl
  exact (congrArg expand l.split).trans (spelled ..)

/-- A loop has as many brackets before it as there are in the text before its bracket. -/
theorem Loop.count_before (l : Loop 0 p.instructions.toList)
    (stands : p.Stands '[' before l.opening) : (code l.before).count '[' = before.count '[' := by
  have length : (code l.before).length = l.opening := length_code l.before
  rw [← stands.2, l.code_eq, List.take_left' length]

/-- What is left of the text in a loop is what its instructions spell out. -/
theorem Loop.expand_body_eq (h : Program.ofSource byLine source = .ok p)
    (split : source.toList = before ++ '[' :: (inner ++ ']' :: later)) (balanced : Balanced inner)
    (l : Loop 0 p.instructions.toList) (stands : p.Stands '[' before l.opening) :
    expand l.body = leftOf byLine inner := by
  have opens := @leftOf_append .loopStart rfl byLine before (inner ++ ']' :: later)
  have closes := @leftOf_append .loopEnd rfl byLine inner later
  have whole : expand l.before ++ .loopStart :: (expand l.body ++ .loopEnd :: expand l.later) =
      leftOf byLine before ++ .loopStart :: (leftOf byLine inner ++ .loopEnd ::
        leftOf byLine later) := by
    rw [← l.expand_eq, expand_eq_leftOf h, split, ← closes]
    exact opens
  have same := congrArg (List.map Operator.symbol) whole
  rw [List.map_append, List.map_cons, List.map_append, List.map_cons, List.map_append,
    List.map_cons, List.map_append, List.map_cons] at same
  -- Both sides are parted at the same bracket, and behind it at its partner.
  have count : ((expand l.before).map Operator.symbol).count '[' =
      ((leftOf byLine before).map Operator.symbol).count '[' := by
    rw [count_eq_of_onlyBrackets rfl (onlyBrackets_expand l.before), l.count_before stands,
      count_eq_of_onlyBrackets rfl (onlyBrackets_leftOf byLine before)]
  obtain ⟨-, behind⟩ := split_unique same count
  have body : Balanced ((expand l.body).map Operator.symbol) := by
    apply balanced_of_onlyBrackets
    rw [onlyBrackets_expand]
    exact l.closed.balanced.onlyBrackets
  have left : Balanced ((leftOf byLine inner).map Operator.symbol) := by
    apply balanced_of_onlyBrackets
    rw [onlyBrackets_leftOf]
    exact balanced.onlyBrackets
  have injective : Function.Injective Operator.symbol := fun _ _ => symbol_inj
  exact List.map_injective_iff.mpr injective (body.unique left behind)

/-- A loop is empty if and only if the text in it cancels out. -/
theorem Loop.body_eq_nil_iff (h : Program.ofSource byLine source = .ok p)
    (split : source.toList = before ++ '[' :: (inner ++ ']' :: later)) (balanced : Balanced inner)
    (l : Loop 0 p.instructions.toList) (stands : p.Stands '[' before l.opening) :
    l.body = [] ↔ CancelsOut byLine inner := by
  rw [← leftOf_eq_nil_iff, ← l.expand_body_eq h split balanced stands]
  constructor
  · intro nothing
    rw [nothing, expand_nil]
  · intro nothing
    exact l.closed.eq_nil_of_expand nothing

end Brainfuck
