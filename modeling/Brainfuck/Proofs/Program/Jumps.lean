import Brainfuck.Proofs.Program.Loops
import Brainfuck.Proofs.Program.Settling

/-!
# Jumps

The brackets of a program are those of its text, in the same order, and each of them leads behind the
instruction of the bracket that is its partner in the text. `FollowsBrackets` lists what that comes
to, and `jumps_follow_brackets` says that every accepted text is analysed so.
-/

namespace Brainfuck

/-- An instruction is the bracket that stands behind some text: it has as many brackets of its kind
before it as there are in the text. -/
def Program.Stands (p : Program) (c : Char) (before : List Char) (index : Nat) : Prop :=
  (code p.instructions.toList)[index]? = some c ∧
    ((code p.instructions.toList).take index).count c = before.count c

/-- The jumps of a program are the bracket structure of its text. -/
structure FollowsBrackets (byLine : Bool) (text : List Char) (p : Program) : Prop where
  /-- The program has the brackets of the text, in their order. -/
  same : onlyBrackets (code p.instructions.toList) = onlyBrackets text
  /-- Every bracket of the text has one instruction, -/
  written : ∀ c before later, isBracket c = true → text = before ++ c :: later →
    ∃! index, p.Stands c before index
  /-- and every bracket of the program comes from one in the text. -/
  read : ∀ c index, isBracket c = true → (code p.instructions.toList)[index]? = some c →
    ∃ before later, text = before ++ c :: later ∧ p.Stands c before index
  /-- Every bracket of the text has its partner, -/
  balanced : Balanced text
  /-- and the instructions of the two lead behind each other. -/
  matched : ∀ before inner later i j, text = before ++ '[' :: (inner ++ ']' :: later) →
    Balanced inner → p.Stands '[' before i → p.Stands ']' (before ++ '[' :: inner) j →
    i < j ∧ p.get? i = some ⟨.loopStart, j + 1⟩ ∧ p.get? j = some ⟨.loopEnd, i + 1⟩
  /-- There are no other jumps: whatever opens a loop belongs to what closes it, -/
  opening : ∀ i operand, p.get? i = some ⟨.loopStart, operand⟩ →
    ∃ j, i < j ∧ operand = j + 1 ∧ p.get? j = some ⟨.loopEnd, i + 1⟩
  /-- and the other way round. -/
  closing : ∀ j operand, p.get? j = some ⟨.loopEnd, operand⟩ →
    ∃ i, i < j ∧ operand = i + 1 ∧ p.get? i = some ⟨.loopStart, j + 1⟩
  /-- Loops lie side by side, or one in the other. -/
  nested : ∀ i j i' j', p.get? i = some ⟨.loopStart, j + 1⟩ →
    p.get? i' = some ⟨.loopStart, j' + 1⟩ → i < i' → j < i' ∨ j' < j
  /-- No jump leads out of the program. -/
  bounded : ∀ index i, p.get? index = some i → isBracket i.operator.symbol = true →
    i.operand ≤ p.size
  /-- What has been read of the text settles all instructions up to its last bracket: they stay where
  they are, and as they are, unless they wait for their partner. -/
  settled : ∀ before later, text = before ++ later →
    ∃ a : Assembly, ({ byLine } : Assembly).addLines (Text.lines before) = .ok a ∧
      Settles a.instructions.toList p.instructions.toList

variable {p : Program} {c : Char} {before later text : List Char} {i j : Nat}

/-! ### Standing behind a text -/

/-- The instruction that stands behind a text splits the program. -/
theorem Program.stands_iff : p.Stands c before i ↔ ∃ start rest,
    code p.instructions.toList = start ++ c :: rest ∧ start.length = i ∧
      start.count c = before.count c := by
  constructor
  · rintro ⟨here, count⟩
    obtain ⟨lt, found⟩ := List.getElem?_eq_some_iff.mp here
    refine ⟨(code p.instructions.toList).take i, (code p.instructions.toList).drop (i + 1), ?_, ?_,
      count⟩
    · rw [← found, ← List.drop_eq_getElem_cons lt, List.take_append_drop]
    · rw [List.length_take]
      omega
  · rintro ⟨start, rest, split, rfl, count⟩
    refine ⟨?_, ?_⟩
    · rw [split, List.getElem?_append_right (Nat.le_refl _), Nat.sub_self, List.getElem?_cons_zero]
    · rw [split, List.take_left]
      exact count

/-- No two instructions stand behind the same text. -/
theorem Program.Stands.unique (h : p.Stands c before i) (h' : p.Stands c before j) : i = j := by
  obtain ⟨start, rest, split, rfl, count⟩ := Program.stands_iff.mp h
  obtain ⟨start', rest', split', rfl, count'⟩ := Program.stands_iff.mp h'
  obtain ⟨rfl, -⟩ := split_unique (split.symm.trans split') (count.trans count'.symm)
  rfl

theorem Program.exists_stands (same : onlyBrackets (code p.instructions.toList) = onlyBrackets text)
    (bracket : isBracket c = true) (split : text = before ++ c :: later) :
    ∃ index, p.Stands c before index := by
  obtain ⟨start, rest, split', start', -⟩ := split_of_onlyBrackets same.symm bracket split
  exact ⟨start.length,
    Program.stands_iff.mpr ⟨start, rest, split', rfl, count_eq_of_onlyBrackets bracket start'⟩⟩

theorem Program.exists_text (same : onlyBrackets (code p.instructions.toList) = onlyBrackets text)
    (bracket : isBracket c = true) (found : (code p.instructions.toList)[i]? = some c) :
    ∃ before later, text = before ++ c :: later ∧ p.Stands c before i := by
  have itself : p.Stands c ((code p.instructions.toList).take i) i := ⟨found, rfl⟩
  obtain ⟨start, rest, split, here, -⟩ := Program.stands_iff.mp itself
  obtain ⟨before, later, split', before', -⟩ := split_of_onlyBrackets same bracket split
  refine ⟨before, later, split', Program.stands_iff.mpr ⟨start, rest, split, here, ?_⟩⟩
  exact (count_eq_of_onlyBrackets bracket before').symm

/-! ### Partners -/

/-- The two brackets of a loop lead behind each other. -/
theorem Loop.get?_opening (l : Loop 0 p.instructions.toList) :
    p.get? l.opening = some ⟨.loopStart, l.closing + 1⟩ := by
  rw [Program.get?, ← Array.getElem?_toList, l.getElem?_opening, Nat.zero_add]

theorem Loop.get?_closing (l : Loop 0 p.instructions.toList) :
    p.get? l.closing = some ⟨.loopEnd, l.opening + 1⟩ := by
  rw [Program.get?, ← Array.getElem?_toList, l.getElem?_closing, Nat.zero_add]

section

variable {texts : List (List Char)} (closed : Closed 0 p.instructions.toList texts)

include closed

/-- Every bracket of a program belongs to one of its loops, and leads behind the other bracket. -/
theorem exists_loop_of_get? {bracket : Instruction} (found : p.get? i = some bracket)
    (kind : isBracket bracket.operator.symbol = true) :
    ∃ l : Loop 0 p.instructions.toList,
      (i = l.opening ∧ bracket = ⟨.loopStart, l.closing + 1⟩) ∨
        (i = l.closing ∧ bracket = ⟨.loopEnd, l.opening + 1⟩) := by
  have found' := found
  rw [Program.get?, ← Array.getElem?_toList] at found'
  obtain ⟨l, place⟩ := closed.exists_loop found' kind
  refine ⟨l, ?_⟩
  rcases place with rfl | rfl
  · exact .inl ⟨rfl, Option.some_inj.mp (found.symm.trans l.get?_opening)⟩
  · exact .inr ⟨rfl, Option.some_inj.mp (found.symm.trans l.get?_closing)⟩

/-- The partner of a bracket in the text is the partner of its instruction. -/
theorem closing_of_matched {inner : List Char}
    (same : onlyBrackets (code p.instructions.toList) = onlyBrackets text)
    (split : text = before ++ '[' :: (inner ++ ']' :: later)) (balanced : Balanced inner)
    (opening : p.Stands '[' before i) :
    ∃ l : Loop 0 p.instructions.toList, i = l.opening ∧
      p.Stands ']' (before ++ '[' :: inner) l.closing := by
  have starts : isBracket '[' = true := rfl
  have ends : isBracket ']' = true := rfl
  have here : (code p.instructions.toList)[i]? = some Operator.loopStart.symbol := opening.1
  obtain ⟨operand, found⟩ := exists_of_getElem?_code here
  rw [Array.getElem?_toList] at found
  obtain ⟨l, ⟨rfl, -⟩ | ⟨-, other⟩⟩ := exists_loop_of_get? closed found rfl
  case inr => cases other
  refine ⟨l, rfl, ?_⟩
  -- The program and the text are split at the same bracket, and then again at its partner.
  have count : (onlyBrackets (code l.before)).count '[' = (onlyBrackets before).count '[' := by
    obtain ⟨start, rest, split', length, count⟩ := Program.stands_iff.mp opening
    obtain ⟨rfl, -⟩ := List.append_inj (l.code_eq.symm.trans split') (by simp [length, Loop.opening])
    rw [count_onlyBrackets starts, count_onlyBrackets starts, count]
  rw [l.code_eq, split] at same
  simp only [onlyBrackets_append, onlyBrackets_cons starts, onlyBrackets_cons ends] at same
  obtain ⟨same, rest⟩ := split_unique same count
  have body := l.closed.balanced.onlyBrackets.unique balanced.onlyBrackets rest
  refine Program.stands_iff.mpr ⟨code l.before ++ '[' :: code l.body, code l.later, ?_, ?_, ?_⟩
  · simp [l.code_eq]
  · simp [Loop.closing]
    omega
  · apply count_eq_of_onlyBrackets ends
    simp only [onlyBrackets_append, onlyBrackets_cons starts, same, body]

end

/-! ### The whole program -/

/-- Jumps are the bracket structure of the text: of every text that is accepted, whether its lines
are kept track of or not. -/
theorem jumps_follow_brackets {byLine : Bool} {source : String}
    (h : Program.ofSource byLine source = .ok p) : FollowsBrackets byLine source.toList p := by
  obtain ⟨texts, idle, closed, quiet, whole⟩ := layout_of_ofSource h
  have same : onlyBrackets (code p.instructions.toList) = onlyBrackets source.toList := by
    rw [whole, onlyBrackets_append, silent_of_quiet quiet.quiet, List.append_nil]
    exact closed.onlyBrackets_code
  constructor
  case same => exact same
  case written =>
    intro c before later bracket split
    obtain ⟨index, stands⟩ := Program.exists_stands same bracket split
    exact ⟨index, stands, fun other stands' => stands'.unique stands⟩
  case read =>
    intro c index bracket found
    exact Program.exists_text same bracket found
  case balanced =>
    apply balanced_of_onlyBrackets
    rw [← same]
    exact closed.balanced.onlyBrackets
  case matched =>
    intro before inner later i j split balanced opening closing
    obtain ⟨l, rfl, closing'⟩ := closing_of_matched closed same split balanced opening
    obtain rfl : j = l.closing := closing.unique closing'
    exact ⟨l.opening_lt_closing, l.get?_opening, l.get?_closing⟩
  case opening =>
    intro i operand found
    obtain ⟨l, ⟨rfl, itself⟩ | ⟨-, other⟩⟩ := exists_loop_of_get? closed found rfl
    · cases itself
      exact ⟨l.closing, l.opening_lt_closing, rfl, l.get?_closing⟩
    · cases other
  case closing =>
    intro j operand found
    obtain ⟨l, ⟨-, other⟩ | ⟨rfl, itself⟩⟩ := exists_loop_of_get? closed found rfl
    · cases other
    · cases itself
      exact ⟨l.opening, l.opening_lt_closing, rfl, l.get?_opening⟩
  case nested =>
    intro i j i' j' found found' lt
    obtain ⟨l, ⟨rfl, itself⟩ | ⟨-, other⟩⟩ := exists_loop_of_get? closed found rfl
    · obtain ⟨l', ⟨rfl, itself'⟩ | ⟨-, other⟩⟩ := exists_loop_of_get? closed found' rfl
      · cases itself
        cases itself'
        exact l.nested l' lt
      · cases other
    · cases other
  case bounded =>
    intro index i found bracket
    have within {k : Nat} {j : Instruction} (there : p.get? k = some j) : k < p.size :=
      (Array.getElem?_eq_some_iff.mp there).1
    obtain ⟨l, ⟨-, rfl⟩ | ⟨-, rfl⟩⟩ := exists_loop_of_get? closed found bracket
    · exact within l.get?_closing
    · exact within l.get?_opening
  case settled =>
    intro before later split
    exact exists_settled h split

/-- What cancels out in a loop is not jumped over: its two brackets become the second and the fourth
instruction. -/
theorem loop_jumps_behind_its_brackets :
    ∃ p, Program.ofSource false ">[.+-]" = .ok p ∧ FollowsBrackets false ">[.+-]".toList p ∧
      p.get? 1 = some ⟨.loopStart, 4⟩ ∧ p.get? 3 = some ⟨.loopEnd, 2⟩ := by
  let p : Program :=
    { instructions := #[⟨.shiftRight, 1⟩, ⟨.loopStart, 4⟩, ⟨.output, 1⟩, ⟨.loopEnd, 2⟩]
      lineBegins := none, lineCount := 1, warnings := #[] }
  have accepted : Program.ofSource false ">[.+-]" = .ok p := by cbv
  have follows := jumps_follow_brackets accepted
  have opening : p.Stands '[' ">".toList 1 := ⟨rfl, rfl⟩
  have closing : p.Stands ']' ">[.+-".toList 3 := ⟨rfl, rfl⟩
  obtain ⟨-, first, second⟩ := follows.matched ">".toList ".+-".toList [] 1 3 rfl
    (balanced_of_silent rfl) opening closing
  exact ⟨p, accepted, follows, first, second⟩

end Brainfuck
