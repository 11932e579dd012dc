import Brainfuck.Proofs.Program.Barriers
import Brainfuck.Proofs.Program.EmptyLoops

/-!
# Warnings

Whether a loop is empty is asked when its end is read, by indices in front of which runs may have
been cancelled. But nothing is merged with a bracket, so what has been warned of stays as it is:
`Assembly.Warned` is kept by every character. When all has been read, the warnings are those of the
empty loops of the program, one by one.
-/

namespace Brainfuck

/-- The warnings of a program are those of its empty loops. -/
structure WarnsOfEmptyLoops (byLine : Bool) (text : List Char) (p : Program) : Prop where
  /-- Each empty loop has its warning. There is a pair of brackets for it in the text, and the
  warning tells the line of the second. -/
  warned : List.Forall₂ (fun index warning => ∃ before inner later,
      text = before ++ '[' :: (inner ++ ']' :: later) ∧ Balanced inner ∧
      p.Stands '[' before index ∧ p.Stands ']' (before ++ '[' :: inner) (index + 1) ∧
      warning = .emptyLoop ((before ++ '[' :: inner).count '\n' + 1))
    (emptyLoops p.instructions.toList) p.warnings.toList
  /-- They come in the order of the program. -/
  rising : (emptyLoops p.instructions.toList).Pairwise (· < ·)
  /-- A loop is empty if its end stands right behind its beginning, -/
  adjacent : ∀ index, index ∈ emptyLoops p.instructions.toList ↔
    (∃ finish, p.get? index = some ⟨.loopStart, finish⟩) ∧
      p.get? (index + 1) = some ⟨.loopEnd, index + 1⟩
  /-- which is to say where its beginning leads to. -/
  leads : ∀ index, index ∈ emptyLoops p.instructions.toList ↔
    p.get? index = some ⟨.loopStart, index + 2⟩
  /-- A pair of brackets in the text makes an empty loop if and only if the text between them
  cancels out. -/
  nothing : ∀ before inner later, text = before ++ '[' :: (inner ++ ']' :: later) →
    Balanced inner → ∃ index, p.Stands '[' before index ∧
      (index ∈ emptyLoops p.instructions.toList ↔ CancelsOut byLine inner)

/-- Two rows of instructions that differ in runs at their end, if at all. -/
def RunsChange (is js : List Instruction) : Prop :=
  ∃ base old new, is = base ++ old ∧ js = base ++ new ∧
    (∀ i ∈ old, i.operator.isCounted = true) ∧ ∀ i ∈ new, i.operator.isCounted = true

variable {read more : List Char} {old new : List Instruction} {op : Operator}

namespace Assembly

variable {a next : Assembly} {base : List Instruction} {bracket : OpenBracket} {column : Nat}
  {c : Char} {text : List Char}

/-! ### Warning while reading -/

/-- What is known of the warnings when a text has been read: there is one for each loop that is
empty so far, in their order. -/
structure Warned (a : Assembly) (read : List Char) : Prop where
  reads : a.Reads read
  line : a.line = read.count '\n' + 1
  warnings : List.Forall₂ (Tells (code a.instructions.toList) read)
    (emptyLoops a.instructions.toList) a.warnings.toList

theorem warned_empty (byLine : Bool) : ({ byLine } : Assembly).beginLine.Warned [] :=
  ⟨reads_empty byLine, rfl, .nil⟩

theorem Reads.onlyBrackets_code (r : a.Reads read) :
    onlyBrackets (code a.instructions.toList) = onlyBrackets read := by
  obtain ⟨texts, idle, layers, quiet, rfl⟩ := r
  rw [layers.onlyBrackets_code, onlyBrackets_append, silent_of_quiet quiet.quiet, List.append_nil]

/-- A change behind the last bracket leaves the warnings right. -/
theorem Warned.amend (h : a.Warned read) (before : a.instructions.toList = base ++ old)
    (after : next.instructions.toList = base ++ new)
    (free : ∀ i ∈ old, isBracket i.operator.symbol = false)
    (untold : ∀ i ∈ new, i.operator = .loopStart → i.operand = 0)
    (same : next.warnings = a.warnings) (more : List Char) :
    List.Forall₂ (Tells (code next.instructions.toList) (read ++ more))
      (emptyLoops next.instructions.toList) next.warnings.toList := by
  have warnings := h.warnings
  rw [before] at warnings
  rw [after, same]
  exact (forall₂_amend warnings free untold).imp fun _ _ tells => tells.read_on more

theorem Warned.comment (h : a.Warned read) (comment : Operator.ofChar? c = none)
    (stays : c ≠ '\n') : a.Warned (read ++ [c]) where
  reads := h.reads.comment comment
  line := line_snoc h.line stays rfl
  warnings := h.warnings.imp fun _ _ tells => tells.read_on [c]

/-- The newline begins the next line. -/
theorem Warned.newline (h : a.Warned read) : a.beginLine.Warned (read ++ ['\n']) where
  reads := h.reads.comment rfl
  line := line_newline h.line
  warnings := h.warnings.imp fun _ _ tells => tells.read_on ['\n']

/-! ### Runs -/

theorem warnings_addCounted (a : Assembly) (op : Operator) :
    (a.addCounted op).warnings = a.warnings := by
  unfold addCounted amendLast
  repeat' split
  all_goals rfl

/-- A counted operator changes runs at the end, and nothing before them. -/
theorem runsChange_addCounted (a : Assembly) (counted : op.isCounted = true) :
    RunsChange a.instructions.toList (a.addCounted op).instructions.toList := by
  have begun : RunsChange a.instructions.toList (a.push op 1).instructions.toList := by
    refine ⟨a.instructions.toList, [], [⟨op, 1⟩], by simp, by simp [push], by simp, ?_⟩
    intro i mem
    rw [List.mem_singleton.mp mem]
    exact counted
  unfold addCounted
  cases joins : a.joinable? with
  | none => exact begun
  | some last =>
    obtain ⟨before, all⟩ := toList_of_joinable? joins
    have amended (operand : Nat) (run : last.operator.isCounted = true) :
        RunsChange a.instructions.toList (a.amendLast last operand).instructions.toList := by
      refine ⟨before, [last], if operand = 0 then [] else [{ last with operand }], all, ?_, ?_, ?_⟩
      · rw [toList_amendLast operand all]
        split <;> simp
      · intro i mem
        rw [List.mem_singleton.mp mem]
        exact run
      · intro i mem
        split at mem
        · cases mem
        · rw [List.mem_singleton.mp mem]
          exact run
    simp only
    split
    · rename_i same
      rw [← same] at counted
      exact amended _ counted
    · split
      · rename_i opposite
        exact amended _ (isCounted_of_opposite (Operator.opposite_comm opposite))
      · exact begun

theorem Warned.addCounted (h : a.Warned read) (counted : op.isCounted = true) :
    (a.addCounted op).Warned (read ++ [op.symbol]) := by
  obtain ⟨base, old, new, before, after, runs, runs'⟩ := a.runsChange_addCounted counted
  obtain ⟨-, lines, -⟩ := a.addCounted_frame op
  have untold : ∀ i ∈ new, i.operator = .loopStart → i.operand = 0 := by
    intro i mem opens
    have run := runs' i mem
    rw [opens] at run
    cases run
  constructor
  · exact h.reads.addCounted counted
  · exact line_snoc h.line (symbol_ne_newline op) lines
  · apply h.amend before after _ untold (a.warnings_addCounted op)
    intro i mem
    exact free_of_counted (runs i mem)

/-- What stands for itself is added at the end. -/
theorem Warned.push (h : a.Warned read) {i : Instruction}
    (untold : i.operator = .loopStart → i.operand = 0)
    (added : next.instructions.toList = a.instructions.toList ++ [i])
    (reads : next.Reads (read ++ [op.symbol])) (lines : next.lineBegins = a.lineBegins)
    (same : next.warnings = a.warnings) : next.Warned (read ++ [op.symbol]) where
  reads := reads
  line := line_snoc h.line (symbol_ne_newline op) lines
  warnings := by
    apply h.amend (List.append_nil _).symm added _ _ same
    · intro j mem
      cases mem
    · intro j mem
      rw [List.mem_singleton.mp mem]
      exact untold

/-! ### Brackets -/

theorem toList_warnings_warnOfEmpty (a : Assembly) (bracket : OpenBracket) :
    (a.warnOfEmpty bracket).warnings.toList = a.warnings.toList ++
      if a.instructions.toList.length = bracket.index + 1 then [.emptyLoop a.line] else [] := by
  rw [warnOfEmpty, Array.length_toList]
  split
  · exact Array.toList_push
  · rw [List.append_nil]

theorem toList_link (a : Assembly) (bracket : OpenBracket) :
    (a.link bracket).instructions.toList = linked a.instructions.toList bracket.index := by
  simp [link, linked]

theorem Warned.closeLoop (h : a.Warned read) (closed : a.closeLoop column = .ok next) :
    next.Warned (read ++ [']']) := by
  have reads := h.reads.closeLoop closed
  obtain ⟨bracket, outer, waiting, rfl⟩ := closeLoop_eq closed
  have waits : a.instructions.toList[bracket.index]? = some ⟨.loopStart, 0⟩ := by
    rw [Array.getElem?_toList]
    exact h.reads.waits (by rw [waiting]; exact List.mem_cons_self)
  obtain ⟨warnings, warned⟩ := warnOfEmpty_eq { a with openBrackets := outer } bracket
  have lines := congrArg Assembly.lineBegins warned
  have same := congrArg Assembly.instructions warned
  constructor
  · exact reads
  · exact line_snoc h.line (by decide) lines
  · show List.Forall₂ _ _ ({ a with openBrackets := outer }.warnOfEmpty bracket).warnings.toList
    rw [toList_link, same, code_linked waits, emptyLoops_linked waits,
      toList_warnings_warnOfEmpty]
    apply List.rel_append
    · refine h.warnings.imp fun index warning tells => ?_
      have alone : Tells (code a.instructions.toList ++ []) read index warning := by
        rw [List.append_nil]
        exact tells
      exact (alone.amend (fun _ mem => nomatch mem) [']']).read_on [']']
    · split
      · rename_i adjacent
        have length : (code a.instructions.toList).length = bracket.index + 1 := by
          rw [length_code]
          exact adjacent
        refine .cons ⟨read, [], rfl, ?_, ?_, ?_⟩ .nil
        · rw [← length, List.getElem?_concat_length]
        · rw [List.take_left' length]
          exact count_eq_of_onlyBrackets rfl h.reads.onlyBrackets_code
        · rw [← h.line]
          rfl
      · exact .nil

/-! ### The whole text -/

theorem Warned.addOperator (h : a.Warned read) (added : a.addOperator column op = .ok next) :
    next.Warned (read ++ [op.symbol]) := by
  have reads := h.reads.addOperator added
  cases op with
  | increment | decrement | shiftLeft | shiftRight =>
    cases added
    exact h.addCounted rfl
  | input | output =>
    cases added
    exact h.push (by intro opens; cases opens) Array.toList_push reads rfl rfl
  | loopStart =>
    cases added
    exact h.push (fun _ => rfl) Array.toList_push reads rfl rfl
  | loopEnd => exact h.closeLoop added

theorem Warned.addChars (h : a.Warned read) (stays : ∀ c ∈ text, c ≠ '\n')
    (added : a.addChars column text = .ok next) : next.Warned (read ++ text) := by
  induction text generalizing a column read with
  | nil =>
    cases added
    rw [List.append_nil]
    exact h
  | cons c rest ih =>
    obtain ⟨here, others⟩ := List.forall_mem_cons.mp stays
    rw [Assembly.addChars] at added
    rw [List.append_cons]
    cases kind : Operator.ofChar? c with
    | none =>
      rw [kind] at added
      exact ih (h.comment kind here) others added
    | some op =>
      rw [kind] at added
      simp only at added
      cases step : a.addOperator column op with
      | error fault => simp [step] at added
      | ok middle =>
        rw [step] at added
        rw [symbol_of_ofChar? kind]
        exact ih (h.addOperator step) others added

/-- All lines have been read: every warning is of a loop that is empty, and the other way round. -/
theorem Warned.addLines (h : a.beginLine.Warned read)
    (added : a.addLines (Text.lines text) = .ok next) :
    List.Forall₂ (Tells (code next.instructions.toList) (read ++ text))
      (emptyLoops next.instructions.toList) next.warnings.toList := by
  induction lines : Text.lines text generalizing a read text with
  | nil =>
    have empty : text = [] := by rw [← Text.flatten_lines text, lines, List.flatten_nil]
    rw [lines] at added
    cases added
    rw [empty, List.append_nil]
    exact h.warnings
  | cons line rest ih =>
    have some : text ≠ [] := by
      intro none
      rw [none] at lines
      cases lines
    obtain ⟨part, ending, later, -, stays, ends, rfl, first⟩ := Text.exists_lines_eq_cons some
    rw [first] at lines added
    obtain ⟨rfl, rfl⟩ := List.cons_eq_cons.mp lines
    rw [Assembly.addLines, addChars_append_ending ends] at added
    cases step : a.beginLine.addChars 0 part with
    | error fault => simp [step] at added
    | ok middle =>
      rw [step] at added
      have warned := h.addChars stays step
      rcases ends with rfl | ⟨rfl, rfl⟩
      · have rest := ih warned.newline added rfl
        simpa using rest
      · cases added
        simpa using warned.warnings

end Assembly

/-! ### Loops of a program -/

variable {byLine : Bool} {source : String} {p : Program} {index : Nat}
  {before inner later : List Char}

/-- A program has the brackets of its text. -/
theorem onlyBrackets_of_ofSource (h : Program.ofSource byLine source = .ok p) :
    onlyBrackets (code p.instructions.toList) = onlyBrackets source.toList := by
  rw [← onlyBrackets_expand, expand_eq_leftOf h, onlyBrackets_leftOf]

theorem mem_emptyLoops_iff_get? :
    index ∈ emptyLoops p.instructions.toList ↔ p.get? index = some ⟨.loopStart, index + 2⟩ := by
  rw [mem_emptyLoops, Array.getElem?_toList]
  rfl

/-- A loop is empty if there is nothing between its brackets. -/
theorem Loop.mem_emptyLoops_iff (l : Loop 0 p.instructions.toList) :
    l.opening ∈ emptyLoops p.instructions.toList ↔ l.body = [] := by
  have closing : l.closing = l.opening + 1 + l.body.length := rfl
  rw [mem_emptyLoops_iff_get?, l.get?_opening, Option.some.injEq, Instruction.mk.injEq,
    and_iff_right rfl, ← List.length_eq_zero_iff]
  omega

section

variable {texts : List (List Char)} (closed : Closed 0 p.instructions.toList texts)

include closed

/-- The end of an empty loop stands behind its beginning. -/
theorem exists_loop_of_empty (empty : index ∈ emptyLoops p.instructions.toList) :
    ∃ l : Loop 0 p.instructions.toList, index = l.opening ∧ index + 1 = l.closing := by
  obtain ⟨l, here, leads⟩ :=
    Program.exists_loop_of_opening closed (mem_emptyLoops_iff_get?.mp empty)
  exact ⟨l, here, by omega⟩

theorem empty_iff_adjacent : index ∈ emptyLoops p.instructions.toList ↔
    (∃ finish, p.get? index = some ⟨.loopStart, finish⟩) ∧
      p.get? (index + 1) = some ⟨.loopEnd, index + 1⟩ := by
  constructor
  · intro empty
    obtain ⟨l, rfl, next⟩ := exists_loop_of_empty closed empty
    have ends := l.get?_closing
    rw [← next] at ends
    exact ⟨⟨_, l.get?_opening⟩, ends⟩
  · intro ⟨⟨finish, found⟩, ends⟩
    obtain ⟨l, here, leads⟩ := Program.exists_loop_of_opening closed found
    obtain ⟨l', there, begins⟩ := Program.exists_loop_of_closing closed ends
    have same : l.closing = l'.closing := Program.closing_unique l l' (by omega)
    rw [mem_emptyLoops_iff_get?, found, leads, same, ← there]

end

/-- The text has a pair of brackets for an empty loop, the second of which stands behind the first
in the program. -/
theorem exists_pair_of_empty (h : Program.ofSource byLine source = .ok p)
    (empty : index ∈ emptyLoops p.instructions.toList) :
    ∃ before inner later, source.toList = before ++ '[' :: (inner ++ ']' :: later) ∧
      Balanced inner ∧ p.Stands '[' before index ∧
      p.Stands ']' (before ++ '[' :: inner) (index + 1) := by
  obtain ⟨texts, -, closed, -, -⟩ := layout_of_ofSource h
  have same := onlyBrackets_of_ofSource h
  obtain ⟨l, rfl, next⟩ := exists_loop_of_empty closed empty
  have bracket : (code p.instructions.toList)[l.opening]? = some '[' := by
    rw [code, List.getElem?_map, l.getElem?_opening]
    rfl
  obtain ⟨before, rest, split, stands⟩ := Program.exists_text same rfl bracket
  have balanced : Balanced (before ++ '[' :: rest) := by
    apply balanced_of_onlyBrackets
    rw [← split, ← same]
    exact closed.balanced.onlyBrackets
  have closes := balanced.closes []
  rw [List.append_nil, Unclosed] at closes
  push Not at closes
  obtain ⟨inner, later, rfl, within⟩ := closes
  obtain ⟨l', here, ends⟩ := closing_of_matched closed same split within stands
  have last : l.closing = l'.closing := Program.closing_unique l l' here
  refine ⟨before, inner, later, split, within, stands, ?_⟩
  rw [next, last]
  exact ends

/-- Empty loops are warned of, and nothing else is: in every text that is accepted, whether its
lines are kept track of or not. -/
theorem warnings_follow_empty_loops (h : Program.ofSource byLine source = .ok p) :
    WarnsOfEmptyLoops byLine source.toList p := by
  obtain ⟨texts, -, closed, -, -⟩ := layout_of_ofSource h
  constructor
  case warned =>
    have told : List.Forall₂ (Tells (code p.instructions.toList) source.toList)
        (emptyLoops p.instructions.toList) p.warnings.toList := by
      obtain ⟨a, read, -, -, rfl⟩ := ofSource_eq_ok_iff.mp h
      exact (Assembly.warned_empty byLine).addLines read
    have both := (List.forall₂_and_left _ _).mpr
      ⟨fun index empty => exists_pair_of_empty h empty, told⟩
    refine both.imp fun index warning both => ?_
    obtain ⟨⟨before, inner, later, split, balanced, opens, closes⟩, tells⟩ := both
    obtain ⟨before', later', split', -, count, rfl⟩ := tells
    -- The warning and the loop speak of the same bracket.
    have same : before' ++ ']' :: later' = (before ++ '[' :: inner) ++ ']' :: later := by
      rw [← split', split, List.append_assoc, List.cons_append]
    obtain ⟨rfl, -⟩ := split_unique same (count.symm.trans closes.2)
    exact ⟨before, inner, later, split, balanced, opens, closes, rfl⟩
  case rising => exact List.pairwise_lt_range.filter _
  case adjacent => exact fun index => empty_iff_adjacent closed
  case leads => exact fun index => mem_emptyLoops_iff_get?
  case nothing =>
    intro before inner later split balanced
    have same := onlyBrackets_of_ofSource h
    obtain ⟨index, stands⟩ := Program.exists_stands same rfl split
    obtain ⟨l, rfl, -⟩ := closing_of_matched closed same split balanced stands
    refine ⟨l.opening, stands, ?_⟩
    rw [l.mem_emptyLoops_iff]
    exact l.body_eq_nil_iff h split balanced stands

/-- With lines kept track of, what stands on two lines does not cancel. So only the second loop is
empty, which ends on the fourth line. -/
theorem loop_over_two_lines_is_not_empty :
    ∃ p, Program.ofSource true "[+\n-]\n[+-\n]" = .ok p ∧
      WarnsOfEmptyLoops true "[+\n-]\n[+-\n]".toList p ∧
      emptyLoops p.instructions.toList = [4] ∧ p.warnings = #[.emptyLoop 4] := by
  let p : Program :=
    { instructions := #[⟨.loopStart, 4⟩, ⟨.increment, 1⟩, ⟨.decrement, 1⟩, ⟨.loopEnd, 1⟩,
        ⟨.loopStart, 6⟩, ⟨.loopEnd, 5⟩]
      lineBegins := some #[some 0, some 2, some 4, some 5], lineCount := 4
      warnings := #[.emptyLoop 4] }
  have accepted : Program.ofSource true "[+\n-]\n[+-\n]" = .ok p := by cbv
  exact ⟨p, accepted, warnings_follow_empty_loops accepted, rfl, rfl⟩

end Brainfuck
