import Brainfuck.Proofs.Debugger.Adjustment
import Brainfuck.Proofs.Program.Insertion
import Mathlib.Order.Bounds.Defs

/-!
# The table of lines

With a table of lines the instructions of a program are those of its lines, one line after the
other. Where a line begins is kept before anything of it has been read, and holds for good: later
operators cancel none of an earlier line. So the table rises, and what is taken back at its end are
the lines behind the last instruction and no others. `line_table_exact` says what is found in it.
-/

namespace Brainfuck

/-- How many instructions the first chunks have together. -/
def sizeOfFirst (chunks : List (List Instruction)) (count : Nat) : Nat :=
  (chunks.take count).flatten.length

/-- An instruction comes from a line, lines being counted from 1, if it stands behind those of all
earlier lines and is one of the first ones up to that line. -/
def ComesFrom (chunks : List (List Instruction)) (index line : Nat) : Prop :=
  sizeOfFirst chunks (line - 1) ≤ index ∧ index < sizeOfFirst chunks line

/-- The table of lines tells where each line begins, its instructions being the chunk of that
number. -/
structure LineTable (lines : List (List Char)) (chunks : List (List Instruction)) (p : Program) :
    Prop where
  /-- The instructions of the lines make the program, -/
  split : p.instructions.toList = chunks.flatten
  /-- those of each line are what it condenses to on its own, -/
  condense : List.Forall₂ (fun line chunk => Condenses (operators line) chunk) lines chunks
  /-- and there is no other way to say which belong to which. -/
  unique : ∀ others, List.Forall₂ (fun line chunk => Condenses (operators line) chunk) lines others →
    others.map List.length = chunks.map List.length
  /-- There is one entry for each line, and those without an instruction stand at the end. -/
  entries : p.lineCount = lines.length ∧ ∃ (begins : List Nat) (missing : Nat),
    p.lineBegins = some (begins.map some ++ List.replicate missing none).toArray ∧
      begins.length + missing = p.lineCount
  /-- A line begins with the first instruction that comes from it or from a later one, -/
  begins : ∀ line index, p.lineBegin? line = some index ↔
    1 ≤ line ∧ IsLeast {i | ∃ l, line ≤ l ∧ ComesFrom chunks i l} index
  /-- and with none if there is no such line, or if nothing comes from there on. -/
  missing : ∀ line, p.lineBegin? line = none ↔
    line = 0 ∨ p.lineCount < line ∨ ∀ l index, line ≤ l → ¬ ComesFrom chunks index l
  /-- Later lines do not begin earlier. -/
  rising : ∀ line line' index index', line ≤ line' → p.lineBegin? line = some index →
    p.lineBegin? line' = some index' → index ≤ index'
  /-- A line begins with an instruction of the program. -/
  inside : ∀ line index, p.lineBegin? line = some index → index < p.size
  /-- So a breakpoint is inert if and only if nothing comes from its line on. -/
  inert : ∀ (d e : Debugger) line b, d.program = p → d.addBreakpoint line = .ok (e, b) →
    (b.inert = true ↔ ∀ l index, line ≤ l → ¬ ComesFrom chunks index l)

variable {chunk chunk' : List Instruction} {chunks others : List (List Instruction)}
  {lines : List (List Char)} {word : List Operator} {op : Operator} {first count line index : Nat}
  {source : String} {p : Program}

/-! ### Where chunks begin -/

@[simp] theorem sizeOfFirst_zero (chunks : List (List Instruction)) : sizeOfFirst chunks 0 = 0 :=
  rfl

@[simp] theorem sizeOfFirst_succ (chunk : List Instruction) (chunks : List (List Instruction))
    (count : Nat) :
    sizeOfFirst (chunk :: chunks) (count + 1) = chunk.length + sizeOfFirst chunks count := by
  simp [sizeOfFirst]

theorem sizeOfFirst_mono (chunks : List (List Instruction)) {m n : Nat} (le : m ≤ n) :
    sizeOfFirst chunks m ≤ sizeOfFirst chunks n := by
  obtain ⟨more, rfl⟩ := Nat.exists_eq_add_of_le le
  rw [sizeOfFirst, sizeOfFirst, List.take_add, List.flatten_append, List.length_append]
  exact Nat.le_add_right _ _

/-- All chunks have as many instructions as there are. -/
theorem sizeOfFirst_of_length_le (all : chunks.length ≤ count) :
    sizeOfFirst chunks count = chunks.flatten.length := by
  rw [sizeOfFirst, List.take_of_length_le all]

theorem sizeOfFirst_le (chunks : List (List Instruction)) (count : Nat) :
    sizeOfFirst chunks count ≤ chunks.flatten.length := by
  rw [← sizeOfFirst_of_length_le (Nat.le_add_left chunks.length count)]
  exact sizeOfFirst_mono chunks (Nat.le_add_right count _)

@[simp] theorem length_starts (first : Nat) (chunks : List (List Instruction)) :
    (starts first chunks).length = chunks.length := by
  induction chunks generalizing first with
  | nil => rfl
  | cons chunk later ih => simp [starts, ih]

theorem getElem?_starts (first : Nat) (inside : count < chunks.length) :
    (starts first chunks)[count]? = some (first + sizeOfFirst chunks count) := by
  induction chunks generalizing first count with
  | nil => cases inside
  | cons chunk later ih =>
    cases count with
    | zero => rfl
    | succ count =>
      have inside' : count < later.length := Nat.lt_of_succ_lt_succ inside
      simp only [starts, List.getElem?_cons_succ, ih _ inside', sizeOfFirst_succ, Nat.add_assoc]

theorem pairwise_starts (first : Nat) (chunks : List (List Instruction)) :
    (starts first chunks).Pairwise (· ≤ ·) ∧ ∀ begin ∈ starts first chunks, first ≤ begin := by
  induction chunks generalizing first with
  | nil => exact ⟨.nil, by simp [starts]⟩
  | cons chunk later ih =>
    obtain ⟨rising, above⟩ := ih (first + chunk.length)
    have above' : ∀ begin ∈ starts (first + chunk.length) later, first ≤ begin :=
      fun begin mem => Nat.le_trans (Nat.le_add_right _ _) (above begin mem)
    exact ⟨List.pairwise_cons.mpr ⟨above', rising⟩, List.forall_mem_cons.mpr ⟨le_rfl, above'⟩⟩

/-- The first step at which a count goes past a number. -/
theorem exists_passes_at {f : Nat → Nat} {low high : Nat} (before : f low ≤ index)
    (past : index < f high) (le : low ≤ high) :
    ∃ count, low ≤ count ∧ f count ≤ index ∧ index < f (count + 1) := by
  induction high, le using Nat.le_induction with
  | base => omega
  | succ high le ih =>
    rcases Nat.lt_or_ge index (f high) with earlier | here
    · exact ih earlier
    · exact ⟨high, le, here, past⟩

/-- What comes from a line or a later one are all instructions from a place on. -/
theorem exists_comesFrom_iff (positive : 1 ≤ line) :
    (∃ l, line ≤ l ∧ ComesFrom chunks index l) ↔
      sizeOfFirst chunks (line - 1) ≤ index ∧ index < chunks.flatten.length := by
  constructor
  · rintro ⟨l, le, before, past⟩
    exact ⟨Nat.le_trans (sizeOfFirst_mono chunks (Nat.sub_le_sub_right le 1)) before,
      Nat.lt_of_lt_of_le past (sizeOfFirst_le chunks l)⟩
  · rintro ⟨before, past⟩
    have all : chunks.length ≤ line - 1 + chunks.length := Nat.le_add_left _ _
    rw [← sizeOfFirst_of_length_le all] at past
    obtain ⟨count, le, before', past'⟩ := exists_passes_at before past (Nat.le_add_right _ _)
    exact ⟨count + 1, by omega, before', past'⟩

theorem isLeast_comesFrom_iff (positive : 1 ≤ line) :
    IsLeast {i | ∃ l, line ≤ l ∧ ComesFrom chunks i l} index ↔
      sizeOfFirst chunks (line - 1) < chunks.flatten.length ∧
        sizeOfFirst chunks (line - 1) = index := by
  simp only [exists_comesFrom_iff positive]
  constructor
  · rintro ⟨⟨before, past⟩, least⟩
    have inside := Nat.lt_of_le_of_lt before past
    exact ⟨inside, Nat.le_antisymm before (least ⟨le_rfl, inside⟩)⟩
  · rintro ⟨inside, rfl⟩
    exact ⟨⟨le_rfl, inside⟩, fun _ mem => mem.1⟩

theorem forall_not_comesFrom_iff (positive : 1 ≤ line) :
    (∀ l index, line ≤ l → ¬ ComesFrom chunks index l) ↔
      ¬ sizeOfFirst chunks (line - 1) < chunks.flatten.length := by
  constructor
  · intro none inside
    obtain ⟨l, le, comes⟩ := (exists_comesFrom_iff positive).mpr ⟨le_rfl, inside⟩
    exact none l _ le comes
  · intro outside l index le comes
    obtain ⟨before, past⟩ := (exists_comesFrom_iff positive).mp ⟨l, le, comes⟩
    exact outside (Nat.lt_of_le_of_lt before past)

/-! ### The end of the table -/

/-- In a table that falls, those that are taken back are just those that are not below. -/
theorem beginsBackwards_eq {size : Nat} {begins : List Nat} (falling : begins.Pairwise (· ≥ ·)) :
    Assembly.beginsBackwards size begins =
      begins.map fun begin => if begin < size then some begin else none := by
  induction begins with
  | nil => rfl
  | cons begin earlier ih =>
    obtain ⟨below, falling'⟩ := List.pairwise_cons.mp falling
    rw [Assembly.beginsBackwards]
    split
    · rename_i inside
      -- The walk ends here, and all that were kept before are below, too.
      refine List.map_congr_left fun other mem => ?_
      have le : other ≤ begin := by
        rcases List.mem_cons.mp mem with rfl | mem
        · exact le_rfl
        · exact below other mem
      rw [if_pos (Nat.lt_of_le_of_lt le inside)]
    · rename_i outside
      rw [ih falling', List.map_cons, if_neg outside]

/-- A walk from the end takes nothing back but entries at the end. -/
theorem exists_beginsBackwards_eq (size : Nat) (begins : List Nat) :
    ∃ (missing : Nat) (kept : List Nat), Assembly.beginsBackwards size begins =
      List.replicate missing none ++ kept.map some ∧ missing + kept.length = begins.length := by
  induction begins with
  | nil => exact ⟨0, [], rfl, rfl⟩
  | cons begin earlier ih =>
    rw [Assembly.beginsBackwards]
    split
    · exact ⟨0, begin :: earlier, by simp, by simp⟩
    · obtain ⟨missing, kept, same, length⟩ := ih
      refine ⟨missing + 1, kept, by simp [same, List.replicate_succ], ?_⟩
      rw [List.length_cons]
      omega

/-! ### The instructions of a line -/

/-- Adds an operator to the instructions of a line that is read on its own. -/
def addAlone (chunk : List Instruction) (op : Operator) : List Instruction :=
  if op.isCounted then addTo chunk op else chunk ++ [⟨op, 1⟩]

theorem foldl_addAlone_run (counted : op.isCounted = true)
    (apart : ∀ last ∈ chunk.getLast?, last.operator ≠ op ∧ last.operator.opposite ≠ some op)
    (count : Nat) :
    (List.replicate (count + 1) op).foldl addAlone chunk = chunk ++ [⟨op, count + 1⟩] := by
  induction count with
  | zero =>
    rw [List.replicate_one, List.foldl_cons, List.foldl_nil, addAlone, if_pos counted]
    rcases List.eq_nil_or_concat' chunk with rfl | ⟨before, last, rfl⟩
    · rfl
    · obtain ⟨other, opposite⟩ := apart last (by simp)
      exact addTo_apart other opposite
  | succ count ih =>
    rw [List.replicate_succ', List.foldl_append, ih, List.foldl_cons, List.foldl_nil, addAlone,
      if_pos counted, addTo_same]

/-- Tidy instructions are found again from what they spell, up to where brackets lead to. -/
theorem Tidy.foldl_expand (h : Tidy chunk) :
    (expand chunk).foldl addAlone [] = chunk.map Instruction.bare := by
  induction chunk using List.reverseRecOn with
  | nil => rfl
  | append_singleton before last ih =>
    obtain ⟨tidy, counts, apart⟩ := tidy_snoc.mp h
    obtain ⟨op, n⟩ := last
    rw [expand_append, List.foldl_append, ih tidy, expand_singleton, List.map_append]
    cases counted : op.isCounted with
    | true =>
      obtain ⟨count, rfl⟩ := Nat.exists_eq_succ_of_ne_zero (counts.1 counted).ne'
      have same : Instruction.bare ⟨op, count + 1⟩ = ⟨op, count + 1⟩ := by
        cases op <;> first | rfl | cases counted
      rw [spelled_of_counted counted, foldl_addAlone_run counted, List.map_singleton, same]
      intro last ends
      rw [List.getLast?_map] at ends
      obtain ⟨last', ends', rfl⟩ := Option.map_eq_some_iff.mp ends
      rw [bare_operator]
      exact ⟨(apart last' ends').ne counted, (apart last' ends').opposite_ne⟩
    | false =>
      have same : Instruction.bare ⟨op, n⟩ = ⟨op, 1⟩ := by
        cases op with
        | loopStart | loopEnd => rfl
        | input => exact congrArg (Instruction.mk .input) (counts.2 (.inl rfl))
        | output => exact congrArg (Instruction.mk .output) (counts.2 (.inr rfl))
        | increment | decrement | shiftLeft | shiftRight => cases counted
      rw [spelled_of_not_counted counted, List.map_singleton, same]
      simp [addAlone, counted]

/-- A word condenses to one row of instructions, up to where brackets lead to. -/
theorem Condenses.length_eq (h : Condenses word chunk) (h' : Condenses word chunk') :
    chunk.length = chunk'.length := by
  apply length_eq_of_bare
  rw [← h.tidy.foldl_expand, ← h'.tidy.foldl_expand, h.expand_eq, h'.expand_eq]

theorem lengths_eq_of_condense
    (condense : List.Forall₂ (fun line chunk => Condenses (operators line) chunk) lines chunks)
    (condense' : List.Forall₂ (fun line chunk => Condenses (operators line) chunk) lines others) :
    others.map List.length = chunks.map List.length := by
  induction condense generalizing others with
  | nil =>
    cases condense'
    rfl
  | cons here _ ih =>
    cases condense' with
    | cons here' later' => rw [List.map_cons, List.map_cons, here'.length_eq here, ih later']

/-! ### The table -/

/-- The table of an accepted text is made from where the chunks of its lines begin. -/
theorem exists_chunks_of_ofSource (h : Program.ofSource true source = .ok p) :
    ∃ chunks, p.instructions.toList = chunks.flatten ∧
      List.Forall₂ (fun line chunk => Condenses (operators line) chunk) (Text.lines source.toList)
        chunks ∧
      p.lineCount = chunks.length ∧
      p.lineBegins =
        some (Assembly.beginsBackwards p.size (starts 0 chunks).reverse).reverse.toArray := by
  obtain ⟨a, read, -, -, rfl⟩ := ofSource_eq_ok_iff.mp h
  obtain ⟨chunks, split, condense, table⟩ := Assembly.chunks_of_addLines read
  have byLine : a.byLine = true :=
    Assembly.byLine_addWords (Assembly.addWords_eq_some.mpr ⟨a, read, rfl⟩)
  refine ⟨chunks, split, condense, ?_, ?_⟩
  · rw [← length_starts 0 chunks, ← table rfl, Array.length_toList]
    rfl
  · simp only [Assembly.finish, byLine, if_true, table rfl]
    rfl

/-- A line begins where its chunk does, if anything stands there or behind. -/
theorem lineBegin?_succ_eq (split : p.instructions.toList = chunks.flatten)
    (table : p.lineBegins =
      some (Assembly.beginsBackwards p.size (starts 0 chunks).reverse).reverse.toArray)
    (count : Nat) :
    p.lineBegin? (count + 1) =
      if sizeOfFirst chunks count < p.size then some (sizeOfFirst chunks count) else none := by
  have size : p.size = chunks.flatten.length := by rw [← split, Array.length_toList, Program.size]
  have falling : (starts 0 chunks).reverse.Pairwise (· ≥ ·) :=
    List.pairwise_reverse.mpr (pairwise_starts 0 chunks).1
  rw [beginsBackwards_eq falling, List.map_reverse, List.reverse_reverse] at table
  simp only [Program.lineBegin?, table, List.getElem?_toArray, List.getElem?_map]
  rcases Nat.lt_or_ge count chunks.length with inside | beyond
  · rw [getElem?_starts 0 inside, Nat.zero_add]
    rfl
  · have none : (starts 0 chunks)[count]? = none := by simpa using beyond
    rw [none, sizeOfFirst_of_length_le beyond, size, if_neg (Nat.lt_irrefl _)]
    rfl

theorem lineBegin?_zero (p : Program) : p.lineBegin? 0 = none := by
  unfold Program.lineBegin?
  split
  · rename_i h
    cases h
  · rfl

/-- Lines begin with an instruction of the program, whether they are kept track of or not. -/
theorem lt_size_of_lineBegin? {byLine : Bool} (h : Program.ofSource byLine source = .ok p)
    (begins : p.lineBegin? line = some index) : index < p.size := by
  cases line with
  | zero => simp [lineBegin?_zero] at begins
  | succ count =>
    cases byLine with
    | true =>
      obtain ⟨chunks, split, -, -, table⟩ := exists_chunks_of_ofSource h
      rw [lineBegin?_succ_eq split table] at begins
      split at begins
      · cases begins
        assumption
      · cases begins
    | false =>
      obtain ⟨a, read, -, -, rfl⟩ := ofSource_eq_ok_iff.mp h
      have byLine : a.byLine = false :=
        Assembly.byLine_addWords (Assembly.addWords_eq_some.mpr ⟨a, read, rfl⟩)
      simp [Program.lineBegin?, Assembly.finish, byLine] at begins

/-- The table of lines is exact: for every accepted text, a line begins with the first instruction
that comes from it or from a later line, and with none if there is no such instruction. -/
theorem line_table_exact (h : Program.ofSource true source = .ok p) :
    ∃ chunks, LineTable (Text.lines source.toList) chunks p := by
  obtain ⟨chunks, split, condense, count, table⟩ := exists_chunks_of_ofSource h
  have size : p.size = chunks.flatten.length := by rw [← split, Array.length_toList, Program.size]
  have lookup := lineBegin?_succ_eq split table
  have nothing (line : Nat) (positive : 1 ≤ line) :
      p.lineBegin? line = none ↔ ∀ l index, line ≤ l → ¬ ComesFrom chunks index l := by
    obtain ⟨count, rfl⟩ := Nat.exists_eq_add_of_le' positive
    rw [lookup, forall_not_comesFrom_iff positive, size, Nat.add_sub_cancel]
    simp
  refine ⟨chunks, ?_⟩
  constructor
  case split => exact split
  case condense => exact condense
  case unique => exact fun others condense' => lengths_eq_of_condense condense condense'
  case entries =>
    refine ⟨count.trans condense.length_eq.symm, ?_⟩
    obtain ⟨missing, kept, same, length⟩ :=
      exists_beginsBackwards_eq p.size (starts 0 chunks).reverse
    refine ⟨kept.reverse, missing, ?_, ?_⟩
    · rw [table, same]
      simp
    · rw [count, List.length_reverse, Nat.add_comm, length]
      simp
  case begins =>
    intro line index
    cases line with
    | zero => simp [lineBegin?_zero]
    | succ count =>
      have positive : 1 ≤ count + 1 := Nat.succ_pos count
      rw [lookup, and_iff_right positive, isLeast_comesFrom_iff positive, size, Nat.add_sub_cancel]
      simp
  case missing =>
    intro line
    cases line with
    | zero => simp [lineBegin?_zero]
    | succ count' =>
      have positive : 1 ≤ count' + 1 := Nat.succ_pos count'
      have beyond : p.lineCount < count' + 1 →
          ∀ l index, count' + 1 ≤ l → ¬ ComesFrom chunks index l := by
        intro lt
        rw [forall_not_comesFrom_iff positive, sizeOfFirst_of_length_le (by omega)]
        exact Nat.lt_irrefl _
      rw [nothing _ positive]
      simp only [Nat.succ_ne_zero, false_or]
      exact (or_iff_right_of_imp beyond).symm
  case rising =>
    intro line line' index index' le begins begins'
    cases line with
    | zero => simp [lineBegin?_zero] at begins
    | succ count =>
      obtain ⟨count', rfl⟩ := Nat.exists_eq_add_of_le' (Nat.le_trans (Nat.succ_pos count) le)
      simp only [lookup, Option.ite_none_right_eq_some, Option.some.injEq] at begins begins'
      obtain ⟨-, rfl⟩ := begins
      obtain ⟨-, rfl⟩ := begins'
      exact sizeOfFirst_mono chunks (Nat.le_of_succ_le_succ le)
  case inside => exact fun line index => lt_size_of_lineBegin? h
  case inert =>
    rintro d e line b rfl added
    obtain ⟨-, ⟨positive, -⟩, -, same⟩ := d.addBreakpoint_eq_ok_iff.mp added
    obtain ⟨-, rfl⟩ := Prod.mk.inj same
    rw [← nothing line positive, Breakpoint.inert, Option.isNone_iff_eq_none]

/-- What the second line of this text cancels leaves it to begin with the third one, and nothing
comes from the last. -/
theorem cancelled_line_begins_with_next :
    ∃ p chunks, Program.ofSource true ">\n+-\n.\n " = .ok p ∧
      LineTable (Text.lines ">\n+-\n.\n ".toList) chunks p ∧
      p.lineBegin? 2 = some 1 ∧ p.lineBegin? 3 = some 1 ∧ p.lineBegin? 4 = none := by
  let p : Program :=
    { instructions := #[⟨.shiftRight, 1⟩, ⟨.output, 1⟩]
      lineBegins := some #[some 0, some 1, some 1, none], lineCount := 4, warnings := #[] }
  have accepted : Program.ofSource true ">\n+-\n.\n " = .ok p := by cbv
  obtain ⟨chunks, table⟩ := line_table_exact accepted
  exact ⟨p, chunks, accepted, table, rfl, rfl, rfl⟩

end Brainfuck
