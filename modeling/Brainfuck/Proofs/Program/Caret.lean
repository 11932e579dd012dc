import Brainfuck.Proofs.Program.Verdict
import Brainfuck.Proofs.Text.Clean

/-!
# The caret under a bracket

A text that is rejected for a bracket is reported with the line of the bracket and a caret under it.
The line comes from one scan of the text, without its ending; the column from another, which counts
characters; and what stands before the caret from a third. They agree: `caret_under_bracket`.
-/

namespace Brainfuck

/-- A line that ends with its only caret, under a position of the line above it. Before the caret
there are tabs where the line above has them, and blanks. -/
structure CaretUnder (above : List Char) (position : Nat) (under : List Char) : Prop where
  length : under.length = position + 1
  caret (i : Nat) : under[i]? = some '^' ↔ i = position
  padding (i : Nat) (before : i < position) :
    under[i]? = some (if above[i]? = some '\t' then '\t' else ' ')

/-- How a bracket without a partner is shown: the line it stands on, behind a headline, and a caret
under it. -/
structure ShowsBracket (source : String) (place : Unmatched) (sourceLine : String)
    (reporter : Option String) : Prop where
  single : '\n' ∉ sourceLine.toList
  bracket : sourceLine.toList[place.column]? = some place.bracket.symbol
  /-- It is the bracket of that place in the text, and the line is that of the text up to it. -/
  there : ∃ before later, source.toList = before ++ place.bracket.symbol :: later ∧
    place = .behind place.bracket before ∧
    Text.lastPart before ++ [place.bracket.symbol] <+: sourceLine.toList
  report : ∃ headline above under,
    ((Program.Fault.unmatched place sourceLine).report reporter).toList =
      headline ++ '\n' :: above ++ '\n' :: under ∧
    (Program.Fault.unmatched place sourceLine).message.toList <:+ headline ∧
    ((∀ name ∈ reporter, '\n' ∉ name.toList) → '\n' ∉ headline) ∧
    above = ' ' :: ' ' :: sourceLine.toList ∧
    above[place.column + 2]? = some place.bracket.symbol ∧
    CaretUnder above (place.column + 2) under

variable {source sourceLine : String} {place : Unmatched} {byLine : Bool} {above : List Char}
  {position : Nat}

/-! ### The line of a bracket -/

/-- What stays of a list stays with all that is before it. -/
theorem rdropWhile_append_cons {α : Type} (drops : α → Bool) {item : α}
    (stays : drops item = false) (front back : List α) :
    (front ++ item :: back).rdropWhile drops = front ++ item :: back.rdropWhile drops := by
  induction back using List.reverseRecOn with
  | nil =>
    rw [List.rdropWhile_nil]
    exact List.rdropWhile_concat_neg _ _ _ (by simp [stays])
  | append_singleton back last ih =>
    have whole : front ++ item :: (back ++ [last]) = front ++ item :: back ++ [last] := by simp
    rw [whole, List.rdropWhile_concat, List.rdropWhile_concat, ih]
    split
    · rfl
    · simp

/-- The line that is shown for a bracket goes on behind it, up to the ending of the line. -/
theorem blaming_eq (bracket : Bracket) (before later : List Char) :
    Program.Fault.blaming bracket before later =
      .unmatched (.behind bracket before) (String.ofList (Text.lastPart before ++ bracket.symbol ::
        (later.takeWhile (· != '\n')).rdropWhile fun c => c = '\n' || c = '\r')) := by
  rw [Program.Fault.blaming, rdropWhile_append_cons (fun c => c = '\n' || c = '\r')]
  cases bracket <;> rfl

/-- A text that is rejected for a bracket has it, and the line shown is cut out around it. -/
theorem exists_shown
    (rejected : Program.ofSource byLine source = .error (.unmatched place sourceLine)) :
    ∃ before later rest, source.toList = before ++ place.bracket.symbol :: later ∧
      place = .behind place.bracket before ∧ rest <+: later.takeWhile (· != '\n') ∧
      sourceLine.toList = Text.lastPart before ++ place.bracket.symbol :: rest := by
  have shown {bracket : Bracket} {before later : List Char}
      (split : source.toList = before ++ bracket.symbol :: later)
      (verdict : Program.ofSource byLine source = .error (.blaming bracket before later)) :
      ∃ before later rest, source.toList = before ++ place.bracket.symbol :: later ∧
        place = .behind place.bracket before ∧ rest <+: later.takeWhile (· != '\n') ∧
        sourceLine.toList = Text.lastPart before ++ place.bracket.symbol :: rest := by
    rw [rejected, blaming_eq] at verdict
    cases verdict
    exact ⟨before, later, _, split, rfl, List.rdropWhile_prefix _ _, String.toList_ofList⟩
  rcases ofSource_cases byLine source with ⟨before, later, split, -, verdict⟩ |
    ⟨before, later, split, -, -, verdict⟩ | ⟨-, empty, accepted⟩
  · exact shown split verdict
  · exact shown split verdict
  · by_cases cancels : CancelsOut byLine source.toList
    · cases rejected.symm.trans (empty cancels)
    · obtain ⟨p, accepted⟩ := accepted cancels
      cases rejected.symm.trans accepted

/-! ### The caret -/

/-- Padding up to a position, and then a caret. -/
theorem caretUnder_padding (within : position ≤ above.length) :
    CaretUnder above position (Program.Fault.padding (above.take position) ++ ['^']) := by
  have width : (Program.Fault.padding (above.take position)).length = position := by
    simp [Program.Fault.padding, within]
  have padding (i : Nat) (before : i < position) :
      (Program.Fault.padding (above.take position) ++ ['^'])[i]? =
        some (if above[i]? = some '\t' then '\t' else ' ') := by
    rw [List.getElem?_append_left (width.symm ▸ before), Program.Fault.padding, List.getElem?_map,
      List.getElem?_take_of_lt before, List.getElem?_eq_getElem (before.trans_le within)]
    simp
  -- Padding has no caret, and behind the one that follows it there is nothing.
  refine ⟨by simp [width], fun i => ?_, padding⟩
  rcases Nat.lt_trichotomy i position with before | rfl | behind
  · rw [padding i before]
    refine iff_of_false ?_ before.ne
    split <;> decide
  · rw [List.getElem?_append_right width.le, width]
    simp
  · rw [List.getElem?_eq_none (by simp [width]; omega)]
    exact iff_of_false (by simp) behind.ne'

/-- The numbers in a message are digits, so that a message is one line. -/
theorem newline_not_mem_message (fault : Program.Fault) : '\n' ∉ fault.message.toList := by
  have number (n : Nat) : '\n' ∉ (toString n).toList := by
    rw [Nat.toString_eq_repr, Nat.repr, String.toList_ofList]
    exact Text.not_mem_toDigits rfl n
  unfold Program.Fault.message
  split
  · rename_i place _
    have symbol : '\n' ∉ place.bracket.symbol.toString.toList := by
      cases place.bracket <;> decide
    simp only [String.toList_append, List.mem_append, not_or]
    exact ⟨⟨⟨⟨⟨by decide, symbol⟩, by decide⟩, number _⟩, by decide⟩, number _⟩
  · decide

/-- A line and the padding under it are indented alike. -/
theorem toList_marked (sourceLine : String) (column : Nat) :
    (Program.Fault.marked sourceLine column).toList =
      ' ' :: ' ' :: sourceLine.toList ++
        '\n' :: (Program.Fault.padding ((' ' :: ' ' :: sourceLine.toList).take (column + 2)) ++
          ['^']) := by
  simp [Program.Fault.marked, Program.Fault.padding]

/-- In front of the line stands a headline that ends with the message. -/
theorem exists_headline (reporter : Option String) (place : Unmatched) (sourceLine : String) :
    ∃ headline,
      ((Program.Fault.unmatched place sourceLine).report reporter).toList =
        headline ++ '\n' :: (Program.Fault.marked sourceLine place.column).toList ∧
      (Program.Fault.unmatched place sourceLine).message.toList <:+ headline ∧
      ((∀ name ∈ reporter, '\n' ∉ name.toList) → '\n' ∉ headline) := by
  have message := newline_not_mem_message (.unmatched place sourceLine)
  refine ⟨((reporter.map (· ++ ": ")).getD "" ++ "Parse error: ").toList ++
    (Program.Fault.unmatched place sourceLine).message.toList, by simp [Program.Fault.report],
    List.suffix_append _ _, fun single => ?_⟩
  cases reporter with
  | none => simp [message]
  | some name => simp [message, single name rfl]

/-- Whatever the place, its bracket is shown in its line and has a caret under it. -/
theorem caret_under_bracket
    (rejected : Program.ofSource byLine source = .error (.unmatched place sourceLine))
    (reporter : Option String) : ShowsBracket source place sourceLine reporter := by
  obtain ⟨before, later, rest, split, behind, cut, shown⟩ := exists_shown rejected
  have column : place.column = (Text.lastPart before).length := by rw [behind]; rfl
  have found : sourceLine.toList[place.column]? = some place.bracket.symbol := by
    rw [shown, column, List.getElem?_append_right le_rfl, Nat.sub_self, List.getElem?_cons_zero]
  constructor
  case single =>
    rw [shown]
    intro mem
    rcases List.mem_append.mp mem with before | here
    · exact Text.ne_newline_of_mem_lastPart before rfl
    · rcases List.mem_cons.mp here with symbol | later
      · cases bracket : place.bracket <;> simp [bracket, Bracket.symbol] at symbol
      · simpa using List.mem_takeWhile_imp (cut.subset later)
  case bracket => exact found
  case there =>
    refine ⟨before, later, split, behind, ?_⟩
    rw [shown]
    exact ⟨rest, by simp⟩
  case report =>
    obtain ⟨headline, reported, message, single⟩ := exists_headline reporter place sourceLine
    have within : place.column + 2 ≤ (' ' :: ' ' :: sourceLine.toList).length := by
      have inside := (List.getElem?_eq_some_iff.mp found).1
      simp only [List.length_cons]
      omega
    refine ⟨headline, _, _, ?_, message, single, rfl, ?_, caretUnder_padding within⟩
    · rw [reported, toList_marked, List.append_assoc]
      rfl
    · rw [List.getElem?_cons_succ, List.getElem?_cons_succ, found]

/-- Behind a character of two bytes and a tab, and before a carriage return in the line and two at
its end. -/
theorem caret_under_second_closing :
    let rejected := Program.Fault.unmatched ⟨.closing, 2, 5⟩ "ä\t[-]]\r."
    Program.ofSource true "+\nä\t[-]]\r.\r\r\n," = .error rejected ∧
      rejected.report (some "bfdb") =
        "bfdb: Parse error: Unmatched bracket ']' at line 2, column 5\n  ä\t[-]]\r.\n   \t   ^" ∧
      ShowsBracket "+\nä\t[-]]\r.\r\r\n," ⟨.closing, 2, 5⟩ "ä\t[-]]\r." (some "bfdb") := by
  intro fault
  have rejected : Program.ofSource true "+\nä\t[-]]\r.\r\r\n," = .error fault := by cbv
  exact ⟨rejected, by decide +kernel, caret_under_bracket rejected (some "bfdb")⟩

end Brainfuck
