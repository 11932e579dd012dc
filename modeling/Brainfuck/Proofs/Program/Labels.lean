import Brainfuck.Program.Listing
import Brainfuck.Proofs.Program.Nesting

/-!
# The labels of a listing

A listing is written with a stack of labels, which knows nothing of jumps. Yet after any number of
instructions it holds the labels of the loops that are open there by their jumps, the innermost
first: `Listing.Shows` is kept by every instruction. So each instruction has an `entry` that can be
told from the program alone, and the listing consists of these.
-/

namespace Brainfuck

open Text.Column (blanks)

namespace Program

/-- The line of an instruction. -/
def row (p : Program) (index : Nat) (i : Instruction) : String :=
  blanks (2 * p.depth index + 2) ++ Text.Column.left 8 (toString index) ++ " " ++ i.text

/-- A line with the label of a loop, set where the loop begins. -/
def labelled (p : Program) (opening : Nat) (mark : String) : String :=
  blanks (2 * p.depth opening) ++ "L" ++ toString (p.label opening) ++ mark

/-- The lines for an instruction: its own one, with the label of its loop before it if it opens one,
and the end of that label behind it if it closes one. -/
def entry (p : Program) (index : Nat) : List String :=
  match p.get? index with
  | none => []
  | some ⟨.loopStart, finish⟩ => [p.labelled index ":", p.row index ⟨.loopStart, finish⟩]
  | some ⟨.loopEnd, start⟩ => [p.row index ⟨.loopEnd, start⟩, p.labelled (start - 1) " End"]
  | some i => [p.row index i]

variable {p : Program} {index : Nat} {op : Operator} {operand : Nat}

theorem entry_opening {finish : Nat} (found : p.get? index = some ⟨.loopStart, finish⟩) :
    p.entry index = [p.labelled index ":", p.row index ⟨.loopStart, finish⟩] := by
  rw [entry, found]

theorem entry_closing {start : Nat} (found : p.get? index = some ⟨.loopEnd, start⟩) :
    p.entry index = [p.row index ⟨.loopEnd, start⟩, p.labelled (start - 1) " End"] := by
  rw [entry, found]

theorem entry_other (found : p.get? index = some ⟨op, operand⟩) (noStart : op ≠ .loopStart)
    (noEnd : op ≠ .loopEnd) : p.entry index = [p.row index ⟨op, operand⟩] := by
  rw [entry, found]
  cases op <;> first | rfl | contradiction

theorem not_opens (found : p.get? index = some ⟨op, operand⟩) (other : op ≠ .loopStart) :
    ¬ p.opens index = true := by
  intro opens
  obtain ⟨finish, opening⟩ := opens_iff.mp opens
  rw [found] at opening
  cases opening
  exact other rfl

end Program

variable {p : Program} {l : Listing} {index : Nat} {i : Instruction} {op : Operator}
  {operand : Nat}

/-! ### Writing the listing -/

namespace Listing

/-- What has been written when an index comes, and the labels that are open there. -/
structure Shows (p : Program) (index : Nat) (l : Listing) : Prop where
  lines : l.lines.toList = (List.range index).flatMap p.entry
  labels : l.labels = p.opened index
  openLabels : l.openLabels = (p.waiting index).reverse.map p.label

theorem shows_empty (p : Program) : Shows p 0 {} :=
  ⟨rfl, rfl, rfl⟩

theorem blanks_append (m n : Nat) : blanks m ++ blanks n = blanks (m + n) := by
  rw [blanks, blanks, blanks, ← String.ofList_append, List.replicate_append_replicate]

/-- The line of an instruction is set one step further in. -/
theorem row_eq (p : Program) (index : Nat) (i : Instruction) :
    indent (p.depth index) ++ ("  " ++ Text.Column.left 8 (toString index) ++ " " ++ i.text) =
      p.row index i := by
  have step : "  " = blanks 2 := rfl
  rw [Program.row, ← blanks_append, indent, step]
  simp only [String.append_assoc]

theorem labelled_eq (p : Program) (opening : Nat) (mark : String) :
    indent (p.depth opening) ++ ("L" ++ toString (p.label opening) ++ mark) =
      p.labelled opening mark := by
  rw [Program.labelled, indent]
  simp only [String.append_assoc]

theorem flatMap_entry_succ (p : Program) (index : Nat) :
    (List.range (index + 1)).flatMap p.entry =
      (List.range index).flatMap p.entry ++ p.entry index := by
  rw [List.range_succ, List.flatMap_append, List.flatMap_singleton]

theorem Shows.depth_eq (h : Shows p index l) : l.depth = (p.waiting index).length := by
  rw [depth, h.openLabels, List.length_map, List.length_reverse]

section

variable {texts : List (List Char)} (closed : Closed 0 p.instructions.toList texts)

include closed

/-- The label of a loop is the next one, and stands before the loop's first instruction. -/
theorem Shows.opening (h : Shows p index l) {finish : Nat}
    (found : p.get? index = some ⟨.loopStart, finish⟩) :
    Shows p (index + 1) (l.addInstruction index ⟨.loopStart, finish⟩) := by
  obtain ⟨loop, here, -⟩ := Program.exists_loop_of_opening closed found
  have depth_eq : l.depth = p.depth index := by
    rw [h.depth_eq, Program.waiting_eq closed found (by decide), Program.depth]
  have label_eq : l.labels + 1 = p.label index := by
    rw [h.labels, Program.label]
  constructor
  · show ((l.lines.push _).push _).toList = _
    rw [depth_eq, label_eq, row_eq, labelled_eq, flatMap_entry_succ, ← h.lines,
      Program.entry_opening found]
    simp
  · show l.labels + 1 = _
    rw [h.labels, Program.opened_succ, if_pos (Program.opens_iff.mpr ⟨finish, found⟩)]
  · show (l.labels + 1) :: l.openLabels = _
    rw [label_eq, h.openLabels, Program.waiting_eq closed found (by decide), here,
      Program.waiting_succ_of_opens closed loop, List.reverse_append, List.reverse_singleton]
    rfl

/-- The innermost label that is open is that of the loop that ends. -/
theorem Shows.openLabels_closing (loop : Loop 0 p.instructions.toList)
    (h : Shows p loop.closing l) :
    l.openLabels = p.label loop.opening :: (p.enclosing loop.opening).reverse.map p.label := by
  rw [h.openLabels, Program.waiting_closing closed loop, List.reverse_append,
    List.reverse_singleton]
  rfl

theorem Shows.closing (h : Shows p index l) {start : Nat}
    (found : p.get? index = some ⟨.loopEnd, start⟩) :
    Shows p (index + 1) (l.addInstruction index ⟨.loopEnd, start⟩) := by
  obtain ⟨loop, here, begins⟩ := Program.exists_loop_of_closing closed found
  subst here
  have labels_eq := h.openLabels_closing closed loop
  have enclosing_eq := Program.enclosing_closing closed loop
  have depth_eq : p.depth loop.closing = p.depth loop.opening := by
    rw [Program.depth, enclosing_eq, Program.depth]
  have length_eq :
      ((p.enclosing loop.opening).reverse.map p.label).length = p.depth loop.opening := by
    rw [List.length_map, List.length_reverse, Program.depth]
  have within : l.depth - 1 = p.depth loop.closing := by
    rw [depth, labels_eq, List.length_cons, length_eq, depth_eq, Nat.add_sub_cancel]
  have start_eq : start - 1 = loop.opening := by omega
  simp only [addInstruction, labels_eq, within]
  constructor
  · show ((l.lines.push _).push _).toList = _
    rw [length_eq, row_eq, labelled_eq, flatMap_entry_succ, ← h.lines, Program.entry_closing found]
    simp [start_eq]
  · show l.labels = _
    rw [h.labels, Program.opened_succ, if_neg (Program.not_opens found (by decide)), Nat.add_zero]
  · show (p.enclosing loop.opening).reverse.map p.label = _
    rw [Program.waiting_succ_of_other found (by decide), enclosing_eq]

theorem Shows.other (h : Shows p index l) (found : p.get? index = some ⟨op, operand⟩)
    (noStart : op ≠ .loopStart) (noEnd : op ≠ .loopEnd) :
    Shows p (index + 1) (l.addInstruction index ⟨op, operand⟩) := by
  have enclosing_eq := Program.waiting_eq closed found noEnd
  have depth_eq : l.depth = p.depth index := by
    rw [h.depth_eq, enclosing_eq, Program.depth]
  have added :
      l.addInstruction index ⟨op, operand⟩ = l.addRow l.depth index ⟨op, operand⟩ := by
    cases op <;> first | rfl | contradiction
  rw [added]
  constructor
  · show (l.lines.push _).toList = _
    rw [depth_eq, row_eq, flatMap_entry_succ, ← h.lines, Program.entry_other found noStart noEnd]
    simp
  · show l.labels = _
    rw [h.labels, Program.opened_succ, if_neg (Program.not_opens found noStart), Nat.add_zero]
  · show l.openLabels = _
    rw [h.openLabels, Program.waiting_succ_of_other found noStart, enclosing_eq]

/-- Every instruction is listed with the loops that its jumps tell. -/
theorem Shows.addInstruction (h : Shows p index l) (found : p.get? index = some i) :
    Shows p (index + 1) (l.addInstruction index i) := by
  rcases i with ⟨op, operand⟩
  by_cases starts : op = .loopStart
  · subst starts
    exact h.opening closed found
  · by_cases ends : op = .loopEnd
    · subst ends
      exact h.closing closed found
    · exact h.other closed found starts ends

end

theorem addInstructions_append (l : Listing) (index : Nat) (is rest : List Instruction) :
    l.addInstructions index (is ++ rest) =
      (l.addInstructions index is).addInstructions (index + is.length) rest := by
  induction is generalizing l index with
  | nil => rfl
  | cons i is ih =>
    show (l.addInstruction index i).addInstructions (index + 1) (is ++ rest) = _
    rw [ih, List.length_cons, Nat.add_assoc, Nat.add_comm 1]
    rfl

/-- What has been written after the first instructions. -/
def upTo (p : Program) (index : Nat) : Listing :=
  ({} : Listing).addInstructions 0 (p.instructions.toList.take index)

theorem upTo_succ (found : p.get? index = some i) :
    upTo p (index + 1) = (upTo p index).addInstruction index i := by
  have here : p.instructions.toList[index]? = some i := by
    rw [Array.getElem?_toList]
    exact found
  obtain ⟨inside, -⟩ := List.getElem?_eq_some_iff.mp here
  rw [upTo, List.take_add_one, here, addInstructions_append, Nat.zero_add,
    List.length_take_of_le (Nat.le_of_lt inside)]
  rfl

theorem shows_upTo {texts : List (List Char)} (closed : Closed 0 p.instructions.toList texts)
    (le : index ≤ p.size) : Shows p index (upTo p index) := by
  induction index with
  | zero => exact shows_empty p
  | succ index ih =>
    have found : p.get? index = some p.instructions[index] := Array.getElem?_eq_getElem le
    rw [upTo_succ found]
    exact (ih (Nat.le_of_succ_le le)).addInstruction closed found

end Listing

end Brainfuck
