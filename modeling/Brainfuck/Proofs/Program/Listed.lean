import Brainfuck.Proofs.Program.Labels
import Brainfuck.Proofs.Program.Reading

/-!
# Listed programs

What is printed for a program can be told from its jumps: `Program.listed` gives the lines, and
`FollowsLoops` what they come to. A line is recognized as a label whatever its indentation, so that
counting labels takes all lines into account, and not only those that are meant as labels.
-/

namespace Brainfuck

open Text.Column (blanks)

/-- The lines of a listing. -/
def Program.listed (p : Program) : List String :=
  ["Total instructions: " ++ toString p.size, ""] ++ (List.range p.size).flatMap p.entry ++
    ["", "Lines: " ++ toString p.lineCount] ++
    (p.lineBegins.map fun begins => Listing.lineTable begins.toList).getD []

namespace Listing

/-- The line is a label with this number, at any indentation. -/
def marks (k : Nat) (mark line : String) : Bool :=
  line.toList.dropWhile (· == ' ') == 'L' :: (Nat.toDigits 10 k ++ mark.toList)

end Listing

/-- A listing shows the loops of its program. -/
structure FollowsLoops (p : Program) : Prop where
  /-- Every instruction is printed once, in order, with its label if it has one. -/
  printed : p.listing = String.join (p.listed.map (· ++ "\n"))
  /-- The label of a loop stands before its `[`, and the end of the label behind the `]` that the
  `[` leads to, at the same depth. -/
  labelled : ∀ i finish, p.get? i = some ⟨.loopStart, finish⟩ →
    ∃ j, i < j ∧ finish = j + 1 ∧ p.depth j = p.depth i ∧
      p.entry i = [p.labelled i ":", p.row i ⟨.loopStart, j + 1⟩] ∧
      p.entry j = [p.row j ⟨.loopEnd, i + 1⟩, p.labelled i " End"]
  /-- There is no other `]`. -/
  paired : ∀ j start, p.get? j = some ⟨.loopEnd, start⟩ →
    ∃ i, i < j ∧ start = i + 1 ∧ p.get? i = some ⟨.loopStart, j + 1⟩
  /-- Every label is opened once, -/
  opened : ∀ k, p.listed.countP (Listing.marks k ":") =
    if 1 ≤ k ∧ k ≤ p.opened p.size then 1 else 0
  /-- and closed once. -/
  closed : ∀ k, p.listed.countP (Listing.marks k " End") =
    if 1 ≤ k ∧ k ≤ p.opened p.size then 1 else 0
  /-- When a `]` comes, its label is the innermost that is open, and there is a step of depth to go
  back. -/
  innermost : ∀ j start, p.get? j = some ⟨.loopEnd, start⟩ →
    (Listing.upTo p j).openLabels.head? = some (p.label (start - 1)) ∧
      (Listing.upTo p j).depth = p.depth j + 1

namespace Listing

/-! ### Lines with a label -/

variable {p : Program} {line mark : String} {k n : Nat} {c : Char} {rest : List Char}

theorem exists_digit (n : Nat) :
    ∃ digit rest, Nat.toDigits 10 n = digit :: rest ∧ digit.isDigit = true := by
  obtain ⟨digit, rest, split⟩ := List.exists_cons_of_ne_nil (Nat.toDigits_ne_nil (n := n) (b := 10))
  refine ⟨digit, rest, split, ?_⟩
  apply Nat.isDigit_of_mem_toDigits (b := 10) (n := n) (by omega) (by omega)
  rw [split]
  exact List.mem_cons_self

theorem toList_toString (n : Nat) : (toString n).toList = Nat.toDigits 10 n := by
  rw [Nat.toString_eq_repr, Nat.repr, String.toList_ofList]

/-- Digits tell their number. -/
theorem toDigits_injective : Function.Injective (Nat.toDigits 10) := by
  intro m n same
  rw [← Nat.ofDigitChars_ten_toDigits (n := m), same, Nat.ofDigitChars_ten_toDigits]

theorem dropWhile_blanks (other : c ≠ ' ') :
    (List.replicate n ' ' ++ c :: rest).dropWhile (· == ' ') = c :: rest := by
  have blank : ∀ d ∈ List.replicate n ' ', (d == ' ') = true := by
    intro d mem
    rw [List.eq_of_mem_replicate mem]
    rfl
  rw [List.dropWhile_append_of_pos blank, List.dropWhile_cons_of_neg]
  rw [beq_iff_eq]
  exact other

theorem marks_eq (spelled : line.toList = List.replicate n ' ' ++ c :: rest) (other : c ≠ ' ') :
    marks k mark line = (c :: rest == 'L' :: (Nat.toDigits 10 k ++ mark.toList)) := by
  rw [marks, spelled, dropWhile_blanks other]

/-- What begins with another letter is no label. -/
theorem not_marks_of_ne (spelled : line.toList = List.replicate n ' ' ++ c :: rest)
    (blank : c ≠ ' ') (other : c ≠ 'L') : ¬ marks k mark line = true := by
  rw [marks_eq spelled blank, beq_iff_eq]
  intro same
  exact other (List.cons_eq_cons.mp same).1

/-- Nor what goes on with something else than a number. -/
theorem not_marks_of_second (spelled : line.toList = 'L' :: c :: rest)
    (other : c.isDigit = false) : ¬ marks k mark line = true := by
  obtain ⟨digit, digits, split, isDigit⟩ := exists_digit k
  have spelled' : line.toList = List.replicate 0 ' ' ++ 'L' :: c :: rest := spelled
  rw [marks_eq spelled' (by decide), beq_iff_eq, split]
  intro same
  obtain ⟨-, same⟩ := List.cons_eq_cons.mp same
  obtain ⟨same, -⟩ := List.cons_eq_cons.mp same
  rw [same, isDigit] at other
  cases other

/-- What begins with a number is no label. -/
theorem not_marks_of_number (number : Nat)
    (spelled : line.toList = List.replicate n ' ' ++ (Nat.toDigits 10 number ++ rest)) :
    ¬ marks k mark line = true := by
  obtain ⟨digit, digits, split, isDigit⟩ := exists_digit number
  rw [split, List.cons_append] at spelled
  apply not_marks_of_ne spelled
  · intro same
    rw [same] at isDigit
    cases isDigit
  · intro same
    rw [same] at isDigit
    cases isDigit

theorem not_marks_row (index : Nat) (i : Instruction) : ¬ marks k mark (p.row index i) = true := by
  apply not_marks_of_number (n := 2 * p.depth index + 2) index
  rw [Program.row, Text.Column.left]
  simp only [String.toList_append, blanks, String.toList_ofList, toList_toString, List.append_assoc]
  rfl

theorem toList_labelled (opening : Nat) (mark : String) :
    (p.labelled opening mark).toList = List.replicate (2 * p.depth opening) ' ' ++
      'L' :: (Nat.toDigits 10 (p.label opening) ++ mark.toList) := by
  rw [Program.labelled]
  simp only [String.toList_append, blanks, String.toList_ofList, toList_toString, List.append_assoc]
  rfl

/-- A label tells its loop. -/
theorem marks_labelled (opening : Nat) :
    marks k mark (p.labelled opening mark) = true ↔ p.label opening = k := by
  rw [marks_eq (toList_labelled opening mark) (by decide), beq_iff_eq]
  constructor
  · intro same
    obtain ⟨-, same⟩ := List.cons_eq_cons.mp same
    exact toDigits_injective (List.append_cancel_right same)
  · intro same
    rw [same]

/-- The beginning of a loop is not taken for an end, nor the end for a beginning. -/
theorem not_marks_labelled {mark' : String} (opening : Nat)
    (last : mark.toList.getLast? ≠ mark'.toList.getLast?) (some : mark.toList ≠ [])
    (some' : mark'.toList ≠ []) : ¬ marks k mark (p.labelled opening mark') = true := by
  rw [marks_eq (toList_labelled opening mark') (by decide), beq_iff_eq]
  intro same
  obtain ⟨-, same⟩ := List.cons_eq_cons.mp same
  have ends := congrArg List.getLast? same
  rw [List.getLast?_append_of_ne_nil _ some', List.getLast?_append_of_ne_nil _ some] at ends
  exact last ends.symm

theorem not_marks_of_mem_lineTable {begins : List (Option Nat)}
    (mem : line ∈ lineTable begins) : ¬ marks k mark line = true := by
  rw [lineTable, List.mem_cons, List.mem_mapIdx] at mem
  rcases mem with rfl | ⟨index, inside, rfl⟩
  · have spelled : "Line\tBegin".toList = 'L' :: 'i' :: "ne\tBegin".toList := rfl
    exact not_marks_of_second spelled rfl
  · apply not_marks_of_number (n := 2) (index + 1)
    simp only [String.toList_append, toList_toString, List.append_assoc]
    rfl

/-- All labels stand among the instructions. -/
theorem countP_listed (p : Program) (k : Nat) (mark : String) :
    p.listed.countP (marks k mark) =
      ((List.range p.size).flatMap p.entry).countP (marks k mark) := by
  have total : ("Total instructions: " ++ toString p.size).toList =
      List.replicate 0 ' ' ++
        'T' :: ("otal instructions: ".toList ++ (toString p.size).toList) := by
    rw [String.toList_append]
    rfl
  have lines : ("Lines: " ++ toString p.lineCount).toList =
      'L' :: 'i' :: ("nes: ".toList ++ (toString p.lineCount).toList) := by
    rw [String.toList_append]
    rfl
  have noTotal : ¬ marks k mark ("Total instructions: " ++ toString p.size) = true :=
    not_marks_of_ne total (by decide) (by decide)
  have noLines : ¬ marks k mark ("Lines: " ++ toString p.lineCount) = true :=
    not_marks_of_second lines rfl
  have empty : ¬ marks k mark "" = true := by
    intro same
    exact absurd (beq_iff_eq.mp same) (List.cons_ne_nil _ _).symm
  have table : ((p.lineBegins.map fun begins => lineTable begins.toList).getD []).countP
      (marks k mark) = 0 := by
    rw [List.countP_eq_zero]
    cases p.lineBegins with
    | none =>
      intro line mem
      cases mem
    | some begins =>
      intro line mem
      exact not_marks_of_mem_lineTable mem
  rw [Program.listed, List.countP_append, List.countP_append, List.countP_append, table,
    List.countP_cons_of_neg noTotal, List.countP_cons_of_neg empty,
    List.countP_cons_of_neg empty, List.countP_cons_of_neg noLines, List.countP_nil, Nat.zero_add,
    Nat.add_zero]

/-! ### One label for each loop -/

/-- What passes a test once in one part, and in no other, passes it once. -/
theorem countP_flatMap_range {f : Nat → List String} {test : String → Bool} {g : Nat → Prop}
    [DecidablePred g] (each : ∀ i, (f i).countP test = if g i then 1 else 0)
    (unique : ∀ i j, g i → g j → i = j) (n : Nat) :
    ((List.range n).flatMap f).countP test = if ∃ i, i < n ∧ g i then 1 else 0 := by
  induction n with
  | zero =>
    rw [if_neg]
    · rfl
    · intro ⟨i, lt, _⟩
      exact absurd lt (Nat.not_lt_zero i)
  | succ n ih =>
    rw [List.range_succ, List.flatMap_append, List.countP_append, List.flatMap_singleton, ih, each]
    by_cases last : g n
    · have before : ¬ ∃ i, i < n ∧ g i := by
        intro ⟨i, lt, passes⟩
        exact absurd (unique i n passes last) (Nat.ne_of_lt lt)
      rw [if_pos last, if_neg before, if_pos ⟨n, Nat.lt_succ_self n, last⟩]
    · have same : (∃ i, i < n + 1 ∧ g i) ↔ ∃ i, i < n ∧ g i := by
        constructor
        · intro ⟨i, lt, passes⟩
          refine ⟨i, Nat.lt_of_le_of_ne (Nat.le_of_lt_succ lt) ?_, passes⟩
          intro eq
          rw [eq] at passes
          exact last passes
        · intro ⟨i, lt, passes⟩
          exact ⟨i, Nat.lt_succ_of_lt lt, passes⟩
      rw [if_neg last, Nat.add_zero]
      exact if_congr same.symm rfl rfl

end Listing

namespace Program

variable {p : Program} {index : Nat}

/-- The loop that an instruction ends, named by its first instruction. -/
def ended? (p : Program) (index : Nat) : Option Nat :=
  match p.get? index with
  | some ⟨.loopEnd, start⟩ => some (start - 1)
  | _ => none

theorem ended?_eq_some_iff {opening : Nat} : p.ended? index = some opening ↔
    ∃ start, p.get? index = some ⟨.loopEnd, start⟩ ∧ start - 1 = opening := by
  unfold ended?
  split
  · rename_i start found
    simp [found]
  · rename_i other
    refine iff_of_false (Option.some_ne_none opening).symm ?_
    intro ⟨start, found, _⟩
    exact other start found

/-- An instruction has at most one label before it and one behind it. -/
theorem entry_eq (p : Program) (index : Nat) : p.entry index =
    (if p.opens index = true then [p.labelled index ":"] else []) ++
      ((p.get? index).map (p.row index)).toList ++
      ((p.ended? index).map (p.labelled · " End")).toList := by
  rw [entry, opens, ended?]
  cases p.get? index with
  | none => rfl
  | some i =>
    rcases i with ⟨op, operand⟩
    cases op <;> rfl

end Program

namespace Listing

variable {p : Program} {k : Nat}

theorem countP_rows (p : Program) (k : Nat) (mark : String) (index : Nat) :
    ((p.get? index).map (p.row index)).toList.countP (marks k mark) = 0 := by
  cases p.get? index with
  | none => rfl
  | some i => exact List.countP_cons_of_neg (not_marks_row index i)

theorem countP_begin (p : Program) (k index : Nat) : (p.entry index).countP (marks k ":") =
    if p.opens index = true ∧ p.label index = k then 1 else 0 := by
  have ends : ((p.ended? index).map (p.labelled · " End")).toList.countP (marks k ":") = 0 := by
    cases p.ended? index with
    | none => rfl
    | some opening =>
      have other : ¬ marks k ":" (p.labelled opening " End") = true :=
        not_marks_labelled opening (by decide) (by decide) (by decide)
      exact List.countP_cons_of_neg other
  rw [Program.entry_eq, List.countP_append, List.countP_append, countP_rows, ends]
  by_cases opens : p.opens index = true
  · rw [if_pos opens, List.countP_singleton]
    simp only [marks_labelled, opens, true_and, Nat.add_zero]
  · rw [if_neg opens, if_neg fun both => opens both.1]
    rfl

theorem countP_end (p : Program) (k index : Nat) : (p.entry index).countP (marks k " End") =
    if (p.ended? index).map p.label = some k then 1 else 0 := by
  have begins : (if p.opens index = true then [p.labelled index ":"] else []).countP
      (marks k " End") = 0 := by
    by_cases opens : p.opens index = true
    · have other : ¬ marks k " End" (p.labelled index ":") = true :=
        not_marks_labelled index (by decide) (by decide) (by decide)
      rw [if_pos opens, List.countP_cons_of_neg other]
      rfl
    · rw [if_neg opens]
      rfl
  rw [Program.entry_eq, List.countP_append, List.countP_append, countP_rows, begins]
  cases p.ended? index with
  | none => rfl
  | some opening =>
    rw [Option.map_some, Option.map_some, Option.toList_some, List.countP_singleton]
    simp only [marks_labelled, Option.some.injEq, Nat.zero_add]

/-- Every label is opened once. -/
theorem countP_listed_begin (p : Program) (k : Nat) : p.listed.countP (marks k ":") =
    if 1 ≤ k ∧ k ≤ p.opened p.size then 1 else 0 := by
  have unique : ∀ i j, (p.opens i = true ∧ p.label i = k) → (p.opens j = true ∧ p.label j = k) →
      i = j := by
    intro i j ⟨opens, here⟩ ⟨opens', here'⟩
    exact Program.eq_of_label opens opens' (here.trans here'.symm)
  rw [countP_listed, countP_flatMap_range (countP_begin p k) unique]
  refine if_congr ?_ rfl rfl
  constructor
  · intro ⟨i, inside, opens, here⟩
    subst here
    exact ⟨Nat.le_add_left 1 _, Program.label_le_of_opens opens inside⟩
  · intro ⟨positive, le⟩
    exact Program.exists_label positive le

section

variable {texts : List (List Char)} (closed : Closed 0 p.instructions.toList texts)

include closed

theorem exists_loop_of_ended? {index opening : Nat} (ended : p.ended? index = some opening) :
    ∃ loop : Loop 0 p.instructions.toList, index = loop.closing ∧ opening = loop.opening := by
  obtain ⟨start, found, rfl⟩ := Program.ended?_eq_some_iff.mp ended
  obtain ⟨loop, here, begins⟩ := Program.exists_loop_of_closing closed found
  exact ⟨loop, here, by omega⟩

omit closed in
theorem opens_opening (loop : Loop 0 p.instructions.toList) : p.opens loop.opening = true :=
  Program.opens_iff.mpr ⟨_, loop.get?_opening⟩

/-- Every label is closed once. -/
theorem countP_listed_end (k : Nat) : p.listed.countP (marks k " End") =
    if 1 ≤ k ∧ k ≤ p.opened p.size then 1 else 0 := by
  have unique : ∀ i j, (p.ended? i).map p.label = some k → (p.ended? j).map p.label = some k →
      i = j := by
    intro i j ends ends'
    obtain ⟨opening, ended, here⟩ := Option.map_eq_some_iff.mp ends
    obtain ⟨opening', ended', here'⟩ := Option.map_eq_some_iff.mp ends'
    obtain ⟨loop, rfl, rfl⟩ := exists_loop_of_ended? closed ended
    obtain ⟨loop', rfl, rfl⟩ := exists_loop_of_ended? closed ended'
    apply Program.closing_unique loop loop'
    exact Program.eq_of_label (opens_opening loop) (opens_opening loop') (here.trans here'.symm)
  rw [countP_listed, countP_flatMap_range (countP_end p k) unique]
  refine if_congr ?_ rfl rfl
  constructor
  · intro ⟨j, inside, ends⟩
    obtain ⟨opening, ended, rfl⟩ := Option.map_eq_some_iff.mp ends
    obtain ⟨loop, rfl, rfl⟩ := exists_loop_of_ended? closed ended
    have before : loop.opening < p.size := Nat.lt_trans loop.opening_lt_closing inside
    exact ⟨Nat.le_add_left 1 _, Program.label_le_of_opens (opens_opening loop) before⟩
  · intro ⟨positive, le⟩
    obtain ⟨i, inside, opens, rfl⟩ := Program.exists_label positive le
    obtain ⟨finish, found⟩ := Program.opens_iff.mp opens
    obtain ⟨loop, rfl, -⟩ := Program.exists_loop_of_opening closed found
    have ended : p.ended? loop.closing = some loop.opening :=
      Program.ended?_eq_some_iff.mpr ⟨_, loop.get?_closing, Nat.add_sub_cancel _ _⟩
    refine ⟨loop.closing, ?_, ?_⟩
    · obtain ⟨lt, -⟩ := Array.getElem?_eq_some_iff.mp loop.get?_closing
      exact lt
    · rw [ended]
      rfl

end

end Listing

/-! ### What is printed -/

variable {byLine : Bool} {source : String} {p : Program}

/-- The instructions are listed with the loops that their jumps tell. -/
theorem Program.listingLines_eq {texts : List (List Char)}
    (closed : Closed 0 p.instructions.toList texts) : p.listingLines = p.listed := by
  have whole := (Listing.shows_upTo closed (le_refl p.size)).lines
  rw [Listing.upTo, List.take_of_length_le (by rw [Array.length_toList, Program.size])] at whole
  rw [Program.listingLines, Program.listed, whole]

end Brainfuck
