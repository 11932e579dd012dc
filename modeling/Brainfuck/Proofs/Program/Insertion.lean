import Brainfuck.Proofs.Program.Reduction
import Brainfuck.Proofs.Text.Place

/-!
# Text that goes unnoticed

A comment character that does not end the line, or two opposite operators next to each other, can be
put anywhere into a text: what becomes of the text stays the same. With what `Reduction` says of the
instructions of each line, that is `merging_is_reduction`.
-/

namespace Brainfuck

/-- Text that makes no difference in its line. -/
inductive Unnoticed : List Char → Prop
  | comment {c : Char} (comment : Operator.ofChar? c = none) (stays : c ≠ '\n') : Unnoticed [c]
  | opposites {x y : Operator} (opposite : x.opposite = some y) : Unnoticed [x.symbol, y.symbol]

/-- The pieces of a text that are merged on their own. -/
def stretches (byLine : Bool) (text : List Char) : List (List Char) :=
  if byLine then Text.lines text else [text]

variable {byLine : Bool} {before inserted later : List Char} {a next : Assembly}
  {words : List (List Operator)} {word : List Operator} {source : String} {p : Program}

theorem Unnoticed.no_newline (h : Unnoticed inserted) : ∀ c ∈ inserted, c ≠ '\n' := by
  cases h with
  | comment _ stays => simpa using stays
  | @opposites x y _ => cases x <;> cases y <;> simp [Operator.symbol]

/-- Text that is put into another one goes into one of its lines, or behind them. -/
theorem lines_insert (some : inserted ≠ []) (stays : ∀ c ∈ inserted, c ≠ '\n')
    (before later : List Char) :
    (∃ earlier left right rest,
      Text.lines (before ++ later) = earlier ++ (left ++ right) :: rest ∧
      Text.lines (before ++ (inserted ++ later)) = earlier ++ (left ++ (inserted ++ right)) :: rest) ∨
    Text.lines (before ++ (inserted ++ later)) = Text.lines (before ++ later) ++ [inserted] := by
  obtain ⟨earlier, left, -, -, unfinished, all⟩ := Text.exists_lines_append before
  have unfinished' : ∀ c ∈ left ++ inserted, c ≠ '\n' :=
    List.forall_mem_append.mpr ⟨unfinished, stays⟩
  have long := Text.lines_append_of_unfinished (by simp [some]) unfinished' later
  rw [all, all, ← List.append_assoc left, long]
  rcases eq_or_ne left [] with rfl | left'
  · cases ends : Text.lines later with
    | nil => exact .inr (by simp [ends])
    | cons line rest => exact .inl ⟨earlier, [], line, rest, by simp [ends], by simp⟩
  · have short := Text.lines_append_of_unfinished left' unfinished later
    exact .inl ⟨earlier, left, _, _, by rw [short], by simp⟩

/-! ### Nothing changes -/

namespace Assembly

theorem Kept.addWord_unnoticed (h : a.Kept) (unnoticed : Unnoticed inserted) :
    a.addWord (operators inserted) = some a := by
  cases unnoticed with
  | comment comment _ => simp [operators, comment]
  | @opposites x y opposite =>
    obtain ⟨-, before, word, earlier, chunk, split, -, base, condenses⟩ := h
    have once := addCounted_eq split base x
    have undone : (a.addCounted x).addCounted y = a := by
      have split' : (a.addCounted x).instructions.toList = earlier ++ addTo chunk x := by rw [once]
      have base' : (a.addCounted x).base = earlier.length := by
        rw [once]
        exact base
      rw [addCounted_eq split' base', condenses.tidy.addTo_addTo opposite, once, ← split]
    cases x <;> cases opposite <;> simpa [operators, Assembly.addOperator, Except.toOption] using undone

/-- Neither does it matter to the line that it stands in. -/
theorem Kept.addWord_insert (h : a.Kept) (unnoticed : Unnoticed inserted) (left right : List Char) :
    a.addWord (operators (left ++ (inserted ++ right))) = a.addWord (operators (left ++ right)) := by
  simp only [operators_append, addWord_append]
  refine Option.bind_congr fun next added => ?_
  rw [(h.addWord added).addWord_unnoticed unnoticed]
  rfl

end Assembly

/-- Text that goes unnoticed can be put anywhere. -/
theorem outcome_insert (byLine : Bool) (before later : List Char) (unnoticed : Unnoticed inserted) :
    outcome byLine (String.ofList (before ++ inserted ++ later)) =
      outcome byLine (String.ofList (before ++ later)) := by
  have some : inserted ≠ [] := by cases unnoticed <;> simp
  rw [outcome_eq, outcome_eq, String.toList_ofList, String.toList_ofList, List.append_assoc]
  rcases lines_insert some unnoticed.no_newline before later with
    ⟨earlier, left, right, rest, short, long⟩ | long
  · rw [short, long]
    simp only [List.map_append, List.map_cons, Assembly.addWords_append, Assembly.addWords_cons]
    congr 1
    refine Option.bind_congr fun a added => ?_
    rw [((Assembly.kept_empty byLine).addWords added).beginLine.addWord_insert unnoticed]
  · -- A line of its own, behind a text that ends with a newline.
    rw [long, List.map_append, Assembly.addWords_append, Option.bind_assoc]
    refine Option.bind_congr fun a added => ?_
    have kept := ((Assembly.kept_empty byLine).addWords added).beginLine
    simp only [List.map_cons, List.map_nil, Assembly.addWords_cons, kept.addWord_unnoticed unnoticed]
    rfl

/-- Each stretch of a text has the instructions that it condenses to, and if lines are kept track of
they begin where the line does. -/
theorem Assembly.chunks_of_addLines {text : List Char}
    (read : ({ byLine } : Assembly).addLines (Text.lines text) = .ok a) :
    ∃ chunks, a.instructions.toList = chunks.flatten ∧
      List.Forall₂ (fun stretch chunk => Condenses (operators stretch) chunk)
        (stretches byLine text) chunks ∧
      (byLine = true → a.lineBegins.toList = starts 0 chunks) := by
  have added := Assembly.addWords_eq_some.mpr ⟨a, read, rfl⟩
  cases byLine with
  | true =>
    obtain ⟨earlier, chunks, split, same, condense, table⟩ :=
      Assembly.chunks_of_lines rfl (Assembly.reads_empty true) added
    obtain rfl : earlier = [] := by simpa using same
    exact ⟨chunks, split, List.forall₂_map_left_iff.mp condense, fun _ => table⟩
  | false =>
    obtain ⟨earlier, chunk, split, same, -, condenses⟩ :=
      (Assembly.merged_empty false).addWords rfl (Assembly.reads_empty false) added
    obtain rfl : earlier = [] := by simpa using same
    have whole : ((Text.lines text).map operators).flatten = operators text := by
      conv_rhs => rw [← Text.flatten_lines text]
      exact List.filterMap_flatten.symm
    rw [whole] at condenses
    exact ⟨[chunk], split.trans (by simp), .cons condenses .nil, by simp⟩

/-- Each stretch of an accepted text has the instructions that it condenses to. -/
theorem condenses_of_ofSource (h : Program.ofSource byLine source = .ok p) :
    ∃ chunks, p.instructions.toList = chunks.flatten ∧
      List.Forall₂ (fun stretch chunk => Condenses (operators stretch) chunk)
        (stretches byLine source.toList) chunks := by
  obtain ⟨a, read, -, -, rfl⟩ := ofSource_eq_ok_iff.mp h
  obtain ⟨chunks, split, condense, -⟩ := Assembly.chunks_of_addLines read
  exact ⟨chunks, split, condense⟩

/-- Merging is reduction and nothing else. Each stretch of an accepted text has instructions of its
own, and spelled out they are the one word that is left when no opposite neighbours are left among
the stretch's operators; every instruction counts what it should, and no two neighbours could be one.
So what goes unnoticed can be put anywhere into a text: it is rejected as before, or accepted as
before with the same instructions and the same warnings. -/
theorem merging_is_reduction (byLine : Bool) (source : String) :
    (∀ p, Program.ofSource byLine source = .ok p →
      ∃ chunks, p.instructions.toList = chunks.flatten ∧
        List.Forall₂ (fun stretch chunk =>
          (∀ word, Word.ReducesTo (operators stretch) word ↔ word = expand chunk) ∧ Tidy chunk)
          (stretches byLine source.toList) chunks) ∧
    ∀ before inserted later, source.toList = before ++ later → Unnoticed inserted →
      outcome byLine (String.ofList (before ++ inserted ++ later)) = outcome byLine source := by
  constructor
  · intro p accepted
    obtain ⟨chunks, split, condense⟩ := condenses_of_ofSource accepted
    refine ⟨chunks, split, condense.imp fun stretch chunk condenses => ⟨fun word => ?_, condenses.tidy⟩⟩
    rw [condenses.expand_eq]
    exact Word.reducesTo_iff
  · intro before inserted later split unnoticed
    rw [outcome_insert byLine before later unnoticed, ← split, String.ofList_toList]

/-- The first line of this text cancels out, and what is put into the second one makes no
difference. -/
theorem cancelled_line_is_reduced :
    ∃ p chunks, Program.ofSource true "+-\n>[--]" = .ok p ∧ p.instructions.toList = chunks.flatten ∧
      List.Forall₂ (fun stretch chunk =>
        (∀ word, Word.ReducesTo (operators stretch) word ↔ word = expand chunk) ∧ Tidy chunk)
        ["+-\n".toList, ">[--]".toList] chunks ∧
      outcome true "+-\n>[-+--]" = outcome true "+-\n>[--]" := by
  obtain ⟨p, accepted⟩ : ∃ p, Program.ofSource true "+-\n>[--]" = .ok p := ⟨_, by cbv⟩
  obtain ⟨reduced, unnoticed⟩ := merging_is_reduction true "+-\n>[--]"
  obtain ⟨chunks, split, condense⟩ := reduced p accepted
  exact ⟨p, chunks, accepted, split, condense,
    unnoticed "+-\n>[-".toList "+-".toList "-]".toList rfl (.opposites (x := .increment) rfl)⟩

end Brainfuck
