import Brainfuck.Proofs.Program.Insertion
import Brainfuck.Proofs.Program.Loops
import Brainfuck.Proofs.Program.Partners

/-!
# The verdict on a text

While a text is read, the brackets that wait are those of it without a partner so far, each of them
behind balanced text and those before it: `Waits`. So a bracket that closes and finds none waiting
is the first that closes too much, and the outermost one that waits at the end is the leftmost that
is never closed. What is left to see is whether there is an instruction: `verdict_exact`.
-/

namespace Brainfuck

/-- The place of a bracket that stands behind a text. -/
def Unmatched.behind (bracket : Bracket) (before : List Char) : Unmatched :=
  ⟨bracket, before.count '\n' + 1, (Text.lastPart before).length⟩

/-- The fault that blames a bracket between two texts, and shows its line. -/
def Program.Fault.blaming (bracket : Bracket) (before later : List Char) : Program.Fault :=
  let line := Text.lastPart before ++ bracket.symbol :: later.takeWhile (· != '\n')
  .unmatched (.behind bracket before) (String.ofList (line.rdropWhile fun c => c = '\n' || c = '\r'))

/-- Nothing is left of a text: it has runs only, and those of each stretch cancel out. -/
def CancelsOut (byLine : Bool) (text : List Char) : Prop :=
  (∀ c ∈ text, c ≠ '[' ∧ c ≠ ']' ∧ c ≠ ',' ∧ c ≠ '.') ∧
    ∀ stretch ∈ stretches byLine text, Word.ReducesTo (operators stretch) []

/-- The brackets that wait in a text, the innermost first. Behind each of them the text is balanced,
but for the next ones. -/
inductive Waits : List OpenBracket → List Char → Prop
  | none {text : List Char} (balanced : Balanced text) : Waits [] text
  | inner {outer : List OpenBracket} {bracket : OpenBracket} {before inside : List Char}
      (layers : Waits outer before)
      (place : ⟨.opening, bracket.line, bracket.column⟩ = Unmatched.behind .opening before)
      (balanced : Balanced inside) : Waits (bracket :: outer) (before ++ '[' :: inside)

variable {text read before later : List Char} {c : Char} {op : Operator} {column : Nat}
  {byLine : Bool} {source : String}

/-! ### Places -/

theorem stripEnding_eq (line : List Char) :
    Text.stripEnding line = line.rdropWhile fun c => c = '\n' || c = '\r' :=
  rfl

/-- The line of a bracket is found again by its place. -/
theorem at_behind (bracket : Bracket) (before later : List Char) :
    Program.Fault.at (Text.lines (before ++ bracket.symbol :: later)) (.behind bracket before) =
      .blaming bracket before later := by
  have stays : bracket.symbol ≠ '\n' := by cases bracket <;> decide
  obtain ⟨ending, ends, here⟩ := Text.getElem?_lines stays before later
  simp only [Program.Fault.at, Program.Fault.blaming, Unmatched.behind, Nat.add_sub_cancel, here,
    Option.getD_some, stripEnding_eq]
  rcases ends with rfl | rfl
  · rw [List.append_nil]
  · rw [List.rdropWhile_concat_pos _ _ _ (by simp)]

/-! ### Brackets that wait -/

namespace Waits

variable {waiting outer : List OpenBracket} {bracket : OpenBracket}

theorem append (h : Waits waiting text) (balanced : Balanced later) :
    Waits waiting (text ++ later) := by
  cases h with
  | none balanced' => exact .none (balanced'.append balanced)
  | @inner _ _ before inside layers place balanced' =>
    rw [List.append_assoc, List.cons_append]
    exact layers.inner place (balanced'.append balanced)

theorem openLoop (h : Waits waiting text)
    (place : ⟨.opening, bracket.line, bracket.column⟩ = Unmatched.behind .opening text) :
    Waits (bracket :: waiting) (text ++ ['[']) :=
  h.inner place balanced_nil

theorem closeLoop (h : Waits (bracket :: outer) text) : Waits outer (text ++ [']']) := by
  cases h with
  | @inner _ _ before inside layers place balanced =>
    rw [List.append_assoc, List.cons_append]
    exact layers.append balanced.loop

theorem balanced (h : Waits [] text) : Balanced text := by
  cases h with
  | none balanced => exact balanced

/-- The outermost bracket that waits stands behind balanced text, and nothing closes it. -/
theorem outermost (h : Waits waiting text) (last : waiting.getLast? = some bracket) :
    ∃ before later, text = before ++ '[' :: later ∧ Balanced before ∧ Unclosed later ∧
      ⟨.opening, bracket.line, bracket.column⟩ = Unmatched.behind .opening before := by
  induction h with
  | none => cases last
  | @inner outer bracket' before inside layers place balanced ih =>
    cases outer with
    | nil =>
      obtain rfl : bracket' = bracket := by simpa using last
      exact ⟨before, inside, rfl, layers.balanced, unclosed_iff.mpr balanced.not_overclosed, place⟩
    | cons _ _ =>
      rw [List.getLast?_cons_cons] at last
      obtain ⟨before', later', rfl, balanced', never, place'⟩ := ih last
      refine ⟨before', later' ++ '[' :: inside, by simp, balanced', unclosed_iff.mpr ?_, place'⟩
      have behind := not_overclosed_cons balanced.not_overclosed
      exact not_overclosed_append (unclosed_iff.mp never) behind

end Waits

/-! ### Reading on -/

namespace Assembly

variable {a next : Assembly} {fault : Unmatched}

/-- What reading comes to: an assembly of which something holds, or a fault that blames the first
bracket in the text that closes too much. -/
def Yields (good : Assembly → Prop) (text : List Char) : Except Unmatched Assembly → Prop
  | .ok a => good a
  | .error fault => ∃ before later, text = before ++ ']' :: later ∧ Balanced before ∧
      fault = .behind .closing before

/-- The first bracket to blame stays the first whatever comes behind. -/
theorem Yields.append {good other : Assembly → Prop} (h : Yields good text (.error fault))
    (more : List Char) : Yields other (text ++ more) (.error fault) := by
  obtain ⟨before, later, rfl, balanced, blamed⟩ := h
  exact ⟨before, later ++ more, by simp, balanced, blamed⟩

/-- A character of the line leaves its number as it is. -/
theorem line_snoc (line : a.line = read.count '\n' + 1) (stays : c ≠ '\n')
    (lines : next.lineBegins = a.lineBegins) : next.line = (read ++ [c]).count '\n' + 1 := by
  have same : next.line = a.line := congrArg Array.size lines
  rw [same, line, List.count_append, List.count_singleton, if_neg (by simpa using stays),
    Nat.add_zero]

theorem line_newline (line : a.line = read.count '\n' + 1) :
    a.beginLine.line = (read ++ ['\n']).count '\n' + 1 := by
  have next : a.beginLine.line = a.line + 1 := by simp [Assembly.line, beginLine]
  rw [next, line, List.count_append, List.count_singleton_self]

/-- Where an assembly is, in its line and among the brackets, when a text has been read. -/
structure Reached (a : Assembly) (column : Nat) (read : List Char) : Prop where
  waits : Waits a.openBrackets read
  line : a.line = read.count '\n' + 1
  column : column = (Text.lastPart read).length

theorem reached_empty (byLine : Bool) : ({ byLine } : Assembly).beginLine.Reached 0 [] :=
  ⟨.none balanced_nil, rfl, rfl⟩

theorem Reached.place (h : a.Reached column read) (bracket : Bracket) :
    ⟨bracket, a.line, column⟩ = Unmatched.behind bracket read := by
  rw [h.line, h.column]
  rfl

/-- A character that is no bracket makes no difference to those that wait. -/
theorem Reached.append_silent (h : a.Reached column read) (silent : onlyBrackets [c] = []) :
    Waits a.openBrackets (read ++ [c]) :=
  h.waits.append (balanced_of_silent silent)

/-- A character of the line is one column. -/
theorem Reached.snoc (h : a.Reached column read) (stays : c ≠ '\n')
    (lines : next.lineBegins = a.lineBegins) (waits : Waits next.openBrackets (read ++ [c])) :
    next.Reached (column + 1) (read ++ [c]) where
  waits := waits
  line := line_snoc h.line stays lines
  column := by
    rw [Text.lastPart_concat stays, List.length_append, h.column, List.length_singleton]

/-- The newline begins the next line. -/
theorem Reached.newline (h : a.Reached column read) :
    a.beginLine.Reached 0 (read ++ ['\n']) where
  waits := h.append_silent rfl
  line := line_newline h.line
  column := by rw [Text.lastPart_concat_newline, List.length_nil]

theorem symbol_ne_newline (op : Operator) : op.symbol ≠ '\n' := by
  cases op <;> decide

theorem Reached.addOperator (h : a.Reached column read) (op : Operator) :
    Yields (·.Reached (column + 1) (read ++ [op.symbol])) (read ++ [op.symbol])
      (a.addOperator column op) := by
  have snoc {next : Assembly} (lines : next.lineBegins = a.lineBegins)
      (waits : Waits next.openBrackets (read ++ [op.symbol])) :
      next.Reached (column + 1) (read ++ [op.symbol]) :=
    h.snoc (symbol_ne_newline op) lines waits
  cases op with
  | increment | decrement | shiftLeft | shiftRight =>
    obtain ⟨-, lines, brackets⟩ := a.addCounted_frame _
    refine snoc lines ?_
    rw [brackets]
    exact h.append_silent rfl
  | input | output => exact snoc rfl (h.append_silent rfl)
  | loopStart => exact snoc rfl (h.waits.openLoop (h.place .opening))
  | loopEnd =>
    have waits := h.waits
    cases closed : a.addOperator column .loopEnd with
    | ok next =>
      obtain ⟨bracket, outer, warnings, waiting, rfl⟩ := closeLoop_eq_ok closed
      rw [waiting] at waits
      exact snoc rfl waits.closeLoop
    | error fault =>
      simp only [Assembly.addOperator, closeLoop] at closed
      cases waiting : a.openBrackets with
      | nil =>
        rw [waiting] at closed waits
        cases closed
        exact ⟨read, [], rfl, waits.balanced, h.place .closing⟩
      | cons bracket outer => simp [waiting] at closed

theorem Reached.addChars (h : a.Reached column read) (stays : ∀ c ∈ text, c ≠ '\n') :
    Yields (fun next => ∃ column', next.Reached column' (read ++ text)) (read ++ text)
      (a.addChars column text) := by
  induction text generalizing a column read with
  | nil => exact ⟨column, by simpa using h⟩
  | cons c rest ih =>
    obtain ⟨here, others⟩ := List.forall_mem_cons.mp stays
    have whole : read ++ c :: rest = read ++ [c] ++ rest := by simp
    rw [whole, Assembly.addChars]
    cases kind : Operator.ofChar? c with
    | none =>
      have silent : onlyBrackets [c] = [] := silent_of_quiet (by simpa using quiet_of_comment kind)
      exact ih (h.snoc here rfl (h.append_silent silent)) others
    | some op =>
      obtain rfl := symbol_of_ofChar? kind
      have first := h.addOperator op
      simp only
      cases step : a.addOperator column op with
      | error fault =>
        rw [step] at first
        exact first.append rest
      | ok next =>
        rw [step] at first
        exact ih first others

/-- The newline at the end of a line is read without a trace. -/
theorem addChars_concat_newline (a : Assembly) (column : Nat) (line : List Char) :
    a.addChars column (line ++ ['\n']) = a.addChars column line := by
  induction line generalizing a column with
  | nil => rfl
  | cons c rest ih => simp [addChars, ih]

/-- A line is read alike with its newline and without it. -/
theorem addChars_append_ending {part ending : List Char}
    (ends : ending = ['\n'] ∨ ending = [] ∧ later = []) (a : Assembly) (column : Nat) :
    a.addChars column (part ++ ending) = a.addChars column part := by
  rcases ends with rfl | ⟨rfl, -⟩
  · exact addChars_concat_newline a column part
  · rw [List.append_nil]

theorem Reached.addLines (h : a.beginLine.Reached 0 read) (text : List Char) :
    Yields (fun next => Waits next.openBrackets (read ++ text)) (read ++ text)
      (a.addLines (Text.lines text)) := by
  induction lines : Text.lines text generalizing a read text with
  | nil =>
    have empty : text = [] := by rw [← Text.flatten_lines text, lines, List.flatten_nil]
    rw [empty, List.append_nil]
    exact h.waits
  | cons line rest ih =>
    have some : text ≠ [] := by
      rintro rfl
      cases lines
    obtain ⟨part, ending, later, -, stays, ends, rfl, first⟩ := Text.exists_lines_eq_cons some
    rw [first] at lines
    obtain ⟨rfl, rfl⟩ := List.cons_eq_cons.mp lines
    have chars := h.addChars stays
    rw [Assembly.addLines, addChars_append_ending ends]
    cases step : a.beginLine.addChars 0 part with
    | error fault =>
      rw [step] at chars
      simpa using chars.append (ending ++ later)
    | ok middle =>
      rw [step] at chars
      obtain ⟨column, reached⟩ := chars
      rcases ends with rfl | ⟨rfl, rfl⟩
      · simpa using ih reached.newline later rfl
      · simpa [Assembly.addLines, Yields] using reached.waits

end Assembly

/-! ### Texts that come to nothing -/

theorem Word.Cancels.mem {word short : List Operator} (h : Word.Cancels word short)
    (single : op.isCounted = false) (mem : op ∈ word) : op ∈ short := by
  obtain ⟨before, after, opposite⟩ := h
  have other {x y : Operator} (opposite : x.opposite = some y) : op ≠ x := by
    rintro rfl
    rw [isCounted_of_opposite opposite] at single
    cases single
  simpa [other opposite, other (Operator.opposite_comm opposite)] using mem

/-- Only runs cancel out. -/
theorem Word.ReducesTo.isCounted {word : List Operator} (h : Word.ReducesTo word [])
    (mem : op ∈ word) : op.isCounted = true := by
  obtain ⟨reached, -⟩ := h
  generalize nothing : ([] : List Operator) = short at reached
  by_contra single
  have kept : op ∈ short := by
    clear nothing
    induction reached with
    | refl => exact mem
    | tail _ step ih => exact step.mem (Bool.eq_false_iff.mpr single) ih
  rw [← nothing] at kept
  cases kept

theorem flatten_stretches (byLine : Bool) (text : List Char) :
    (stretches byLine text).flatten = text := by
  cases byLine with
  | true => exact Text.flatten_lines text
  | false => simp [stretches]

/-- Text has runs only if all its stretches cancel out. -/
theorem cancelsOut_iff :
    CancelsOut byLine text ↔
      ∀ stretch ∈ stretches byLine text, Word.ReducesTo (operators stretch) [] := by
  refine ⟨And.right, fun all => ⟨fun c mem => ?_, all⟩⟩
  rw [← flatten_stretches byLine text] at mem
  obtain ⟨stretch, member, mem⟩ := List.mem_flatten.mp mem
  have counted {op : Operator} (kind : Operator.ofChar? c = some op) : op.isCounted = true :=
    (all stretch member).isCounted (List.mem_filterMap.mpr ⟨c, mem, kind⟩)
  refine ⟨?_, ?_, ?_, ?_⟩ <;> rintro rfl <;> cases counted rfl

/-- A word condenses to no instruction if and only if it cancels out. -/
theorem Condenses.eq_nil_iff {word : List Operator} {chunk : List Instruction}
    (h : Condenses word chunk) : chunk = [] ↔ Word.ReducesTo word [] := by
  rw [Word.reducesTo_iff, ← h.expand_eq, eq_comm]
  constructor
  · rintro rfl
    rfl
  · intro nothing
    rcases List.eq_nil_or_concat' chunk with rfl | ⟨before, last, rfl⟩
    · rfl
    · obtain ⟨-, counts, -⟩ := tidy_snoc.mp h.tidy
      obtain ⟨more, spelled⟩ := counts.spelled_eq
      simp [spelled] at nothing

theorem Assembly.instructions_eq_empty_iff {a : Assembly}
    (read : ({ byLine } : Assembly).addLines (Text.lines text) = .ok a) :
    a.instructions = #[] ↔ CancelsOut byLine text := by
  obtain ⟨chunks, split, condense, -⟩ := Assembly.chunks_of_addLines read
  rw [cancelsOut_iff, ← Array.toList_eq_nil_iff, split, List.flatten_eq_nil_iff]
  clear split read
  generalize stretches byLine text = all at condense
  induction condense with
  | nil => simp
  | cons here _ ih => rw [List.forall_mem_cons, List.forall_mem_cons, here.eq_nil_iff, ih]

/-! ### The verdict -/

/-- A text is rejected for a bracket that closes too much, for one that is never closed, or because
it comes to nothing, and it is accepted otherwise. -/
theorem ofSource_cases (byLine : Bool) (source : String) :
    (∃ before later, source.toList = before ++ ']' :: later ∧ Balanced before ∧
      Program.ofSource byLine source = .error (.blaming .closing before later)) ∨
    (∃ before later, source.toList = before ++ '[' :: later ∧ Balanced before ∧ Unclosed later ∧
      Program.ofSource byLine source = .error (.blaming .opening before later)) ∨
    Balanced source.toList ∧ (CancelsOut byLine source.toList →
        Program.ofSource byLine source = .error .empty) ∧
      (¬ CancelsOut byLine source.toList → ∃ p, Program.ofSource byLine source = .ok p) := by
  have yields := (Assembly.reached_empty byLine).addLines source.toList
  rw [List.nil_append] at yields
  cases read : ({ byLine } : Assembly).addLines (Text.lines source.toList) with
  | error fault =>
    rw [read] at yields
    obtain ⟨before, later, split, balanced, rfl⟩ := yields
    have shown := at_behind .closing before later
    rw [Bracket.symbol, ← split] at shown
    refine .inl ⟨before, later, split, balanced, ?_⟩
    simp only [Program.ofSource, read, shown]
  | ok a =>
    rw [read] at yields
    have waits : Waits a.openBrackets source.toList := yields
    cases last : a.openBrackets.getLast? with
    | some bracket =>
      obtain ⟨before, later, split, balanced, never, place⟩ := waits.outermost last
      have shown := at_behind .opening before later
      rw [Bracket.symbol, ← split] at shown
      refine .inr (.inl ⟨before, later, split, balanced, never, ?_⟩)
      simp only [Program.ofSource, read, Assembly.blame?, last, Option.map_some, place, shown]
    | none =>
      have empty := Assembly.instructions_eq_empty_iff read
      rw [List.getLast?_eq_none_iff.mp last] at waits
      refine .inr (.inr ⟨waits.balanced, fun cancels => ?_, fun left => ?_⟩)
      · simp [Program.ofSource, read, Assembly.blame?, last, empty.mpr cancels]
      · simp [Program.ofSource, read, Assembly.blame?, last, mt empty.mp left]

/-- A text with no bracket to blame is rejected only if it comes to nothing. -/
theorem ofSource_of_even (fine : ¬ Overclosed source.toList)
    (even : ¬ source.toList.count ']' < source.toList.count '[') (byLine : Bool) :
    (CancelsOut byLine source.toList → Program.ofSource byLine source = .error .empty) ∧
      (¬ CancelsOut byLine source.toList → ∃ p, Program.ofSource byLine source = .ok p) := by
  rcases ofSource_cases byLine source with ⟨before, later, split, balanced, -⟩ |
    ⟨before, later, split, balanced, never, -⟩ | ⟨-, verdict⟩
  · rw [split] at fine
    exact absurd (overclosed_of_balanced balanced later) fine
  · rw [split] at even
    exact absurd (balanced.unclosed never).2 even
  · exact verdict

/-- What becomes of a text, and which bracket is blamed if it is rejected for one. -/
structure Verdict (source : String) : Prop where
  /-- The first bracket is blamed up to which there are more that close than there are that open. -/
  closing : Overclosed source.toList →
    ∃ before later, source.toList = before ++ ']' :: later ∧
      (before ++ [']']).count '[' < (before ++ [']']).count ']' ∧ ¬ Overclosed before ∧
      ∀ byLine, Program.ofSource byLine source = .error (.blaming .closing before later)
  /-- If there is none and there are more that open, the leftmost is blamed that none closes. -/
  opening : ¬ Overclosed source.toList → source.toList.count ']' < source.toList.count '[' →
    ∃ before later, source.toList = before ++ '[' :: later ∧ Unclosed later ∧
      (∀ first rest, before = first ++ '[' :: rest → ¬ Unclosed (rest ++ '[' :: later)) ∧
      ∀ byLine, Program.ofSource byLine source = .error (.blaming .opening before later)
  empty : ¬ Overclosed source.toList → ¬ source.toList.count ']' < source.toList.count '[' →
    ∀ byLine, Program.ofSource byLine source = .error .empty ↔ CancelsOut byLine source.toList
  accepted : ¬ Overclosed source.toList → ¬ source.toList.count ']' < source.toList.count '[' →
    ∀ byLine, ¬ CancelsOut byLine source.toList → ∃ p, Program.ofSource byLine source = .ok p

/-- Every text is accepted or rejected as it should be, for the right bracket, and for the same one
whether lines are kept track of or not. -/
theorem verdict_exact (source : String) : Verdict source := by
  constructor
  case closing =>
    intro overclosed
    obtain ⟨before, later, split, balanced⟩ := exists_first_overclosing overclosed
    refine ⟨before, later, split, balanced.count_lt, balanced.not_overclosed, fun byLine => ?_⟩
    rcases ofSource_cases byLine source with ⟨before', later', split', balanced', verdict⟩ |
      ⟨before', later', split', balanced', never, -⟩ | ⟨balanced', -⟩
    · have same := split.symm.trans split'
      obtain rfl := balanced.unique balanced' same
      obtain rfl : later = later' := by simpa using same
      exact verdict
    · rw [split'] at overclosed
      exact absurd overclosed (balanced'.unclosed never).1
    · exact absurd overclosed balanced'.not_overclosed
  case opening =>
    intro fine more
    have rejected (byLine : Bool) : ∃ before later, source.toList = before ++ '[' :: later ∧
        Balanced before ∧ Unclosed later ∧
        Program.ofSource byLine source = .error (.blaming .opening before later) := by
      rcases ofSource_cases byLine source with ⟨before, later, split, balanced, -⟩ | opening |
        ⟨balanced, -⟩
      · rw [split] at fine
        exact absurd (overclosed_of_balanced balanced later) fine
      · exact opening
      · exact absurd more (Nat.not_lt.mpr balanced.even.le)
    obtain ⟨before, later, split, balanced, never, -⟩ := rejected false
    refine ⟨before, later, split, never, ?_, fun byLine => ?_⟩
    · rintro first rest rfl
      exact balanced.closes ('[' :: later)
    · obtain ⟨before', later', split', balanced', never', verdict⟩ := rejected byLine
      obtain ⟨rfl, rfl⟩ := unclosed_unique balanced balanced' never never' (split.symm.trans split')
      exact verdict
  case empty =>
    intro fine even byLine
    obtain ⟨empty, accepted⟩ := ofSource_of_even fine even byLine
    refine ⟨fun rejected => ?_, empty⟩
    by_contra left
    obtain ⟨p, accepted⟩ := accepted left
    cases rejected.symm.trans accepted
  case accepted => exact fun fine even byLine => (ofSource_of_even fine even byLine).2

/-- In this text a loop is closed before and another one behind the bracket that is blamed. -/
theorem outermost_unclosed_bracket_is_blamed :
    Verdict "ä[-][.\r\n[+]\n" ∧ ∀ byLine, Program.ofSource byLine "ä[-][.\r\n[+]\n" =
      .error (.unmatched ⟨.opening, 1, 4⟩ "ä[-][.") := by
  refine ⟨verdict_exact _, fun byLine => ?_⟩
  cases byLine <;> cbv

end Brainfuck
