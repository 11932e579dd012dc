import Brainfuck.Proofs.Program.Merging

/-!
# A program is its text, reduced

While a text is read, the instructions of its earlier lines stay as they are, but for where their
brackets lead to, and those of the line that is being read condense what was read of it: `Merged`.
`chunks_of_lines` is what comes of it when all lines have been read, with the table of where they
begin. Without a table of lines, all the text is one line in this respect, and `Merged` says the
same of the whole.
-/

namespace Brainfuck

/-- An instruction without what may be filled in later: where a bracket leads to. -/
def Instruction.bare (i : Instruction) : Instruction :=
  match i.operator with
  | .loopStart => ⟨.loopStart, 1⟩
  | .loopEnd => ⟨.loopEnd, 1⟩
  | _ => i

variable {i j : Instruction} {chunk chunk' earlier all : List Instruction}
  {word more : List Operator} {words : List (List Operator)} {x y : Operator}

@[simp] theorem bare_operator (i : Instruction) : i.bare.operator = i.operator := by
  unfold Instruction.bare
  split <;> simp [*]

theorem length_eq_of_bare (same : chunk'.map Instruction.bare = chunk.map Instruction.bare) :
    chunk'.length = chunk.length := by
  simpa using congrArg List.length same

theorem spelled_bare (i : Instruction) : i.bare.spelled = i.spelled := by
  obtain ⟨op, n⟩ := i
  cases op <;> rfl

theorem counts_bare : i.bare.Counts ↔ i.Counts := by
  obtain ⟨op, n⟩ := i
  cases op <;> simp [Instruction.bare, Instruction.Counts, Operator.isCounted, Operator.opposite]

theorem apart_bare : i.bare.Apart j.bare ↔ i.Apart j := by
  simp [Instruction.Apart]

theorem expand_bare (chunk : List Instruction) : expand (chunk.map Instruction.bare) = expand chunk := by
  simp [expand, List.flatMap_map, spelled_bare]

theorem tidy_bare : Tidy (chunk.map Instruction.bare) ↔ Tidy chunk := by
  constructor
  · rintro ⟨counts, apart⟩
    exact ⟨fun i mem => counts_bare.mp (counts _ (List.mem_map_of_mem mem)),
      (List.isChain_map _ |>.mp apart).imp fun _ _ => apart_bare.mp⟩
  · rintro ⟨counts, apart⟩
    exact ⟨List.forall_mem_map.mpr fun i mem => counts_bare.mpr (counts i mem),
      List.isChain_map _ |>.mpr (apart.imp fun _ _ => apart_bare.mpr)⟩

/-- It does not matter where the brackets lead to. -/
theorem Condenses.of_bare (h : Condenses word chunk)
    (same : chunk'.map Instruction.bare = chunk.map Instruction.bare) : Condenses word chunk' where
  expand_eq := by rw [← expand_bare, same, expand_bare, h.expand_eq]
  tidy := tidy_bare.mp (same ▸ tidy_bare.mpr h.tidy)

/-- Where chunks begin that stand one behind the other, the first one at a given index. -/
def starts (first : Nat) : List (List Instruction) → List Nat
  | [] => []
  | chunk :: later => first :: starts (first + chunk.length) later

namespace Assembly

variable {a next : Assembly} {source : List Char} {before : List Instruction} {op : Operator}
  {column : Nat}

/-! ### Where merging ends -/

/-- How many instructions there are that no operator is merged with. -/
def base (a : Assembly) : Nat :=
  if a.byLine then a.lineBegin else 0

theorem joinable?_eq (split : a.instructions.toList = earlier ++ chunk)
    (base : a.base = earlier.length) : a.joinable? = chunk.getLast? := by
  have size : a.instructions.size = earlier.length + chunk.length := by
    rw [← Array.length_toList, split, List.length_append]
  unfold joinable?
  rw [← Array.getLast?_toList, split]
  unfold Assembly.base at base
  cases byLine : a.byLine with
  | true =>
    rw [byLine, if_pos rfl] at base
    rcases List.eq_nil_or_concat' chunk with rfl | ⟨others, last, rfl⟩
    · simp [base, size]
    · simp [base, size]
  | false =>
    rw [byLine] at base
    obtain rfl := List.length_eq_zero_iff.mp base.symm
    simp

/-- A counted operator is merged with the last instructions, and nothing else changes. -/
theorem addCounted_eq (split : a.instructions.toList = earlier ++ chunk)
    (base : a.base = earlier.length) (op : Operator) :
    a.addCounted op = { a with instructions := (earlier ++ addTo chunk op).toArray } := by
  have whole : a.instructions = (earlier ++ chunk).toArray := by rw [← split]
  unfold addCounted
  rw [joinable?_eq split base]
  rcases List.eq_nil_or_concat' chunk with rfl | ⟨others, last, rfl⟩
  · simp [push, whole]
  · simp only [List.getLast?_concat, addTo, amendLast, push, whole]
    split
    · simp [*]
    · split
      · split <;> simp
      · simp

/-- Linking two brackets adds one; all else that it does is to say where they lead to. -/
theorem bare_link (a : Assembly) {bracket : OpenBracket}
    (waits : a.instructions[bracket.index]? = some ⟨.loopStart, 0⟩) :
    (a.link bracket).instructions.toList.map Instruction.bare =
      a.instructions.toList.map Instruction.bare ++ [⟨.loopEnd, 1⟩] := by
  have linked : (a.link bracket).instructions.toList.map Instruction.bare =
      (a.instructions.toList.map Instruction.bare ++ [(⟨.loopEnd, 1⟩ : Instruction)]).set
        bracket.index ⟨.loopStart, 1⟩ := by
    simp [link, List.map_set, Instruction.bare]
  have here : (a.instructions.toList.map Instruction.bare)[bracket.index]? =
      some ⟨.loopStart, 1⟩ := by
    simp [waits, Instruction.bare]
  obtain ⟨lt, same⟩ := List.getElem?_eq_some_iff.mp here
  rw [linked, List.set_append_left _ _ lt, ← same, List.set_getElem_self]

/-! ### The line that is being read -/

/-- What is known of an assembly when a word has been read in its line: the instructions before the
line, up to where their brackets lead to, and that those of the line condense the word. -/
def Merged (a : Assembly) (before : List Instruction) (word : List Operator) : Prop :=
  ∃ earlier chunk, a.instructions.toList = earlier ++ chunk ∧
    earlier.map Instruction.bare = before ∧ a.base = earlier.length ∧ Condenses word chunk

/-- An operator that is not counted is added behind the others. -/
theorem Merged.single (h : a.Merged before word) (base : next.base = a.base)
    (single : op.isCounted = false)
    (added : next.instructions.toList.map Instruction.bare =
      a.instructions.toList.map Instruction.bare ++ [⟨op, 1⟩]) :
    next.Merged before (word ++ [op]) := by
  obtain ⟨earlier, chunk, split, same, base', condenses⟩ := h
  have alone : Instruction.bare ⟨op, 1⟩ = ⟨op, 1⟩ := by cases op <;> rfl
  rw [split, List.map_append, List.append_assoc] at added
  obtain ⟨earlier', chunk', split', same', chunks⟩ := List.map_eq_append_iff.mp added
  refine ⟨earlier', chunk', split', same'.trans same, ?_, (condenses.single single).of_bare ?_⟩
  · rw [base, base', ← List.length_map Instruction.bare, ← same', List.length_map]
  · rw [chunks, List.map_append, List.map_singleton, alone]

theorem addCounted_frame (a : Assembly) (op : Operator) :
    (a.addCounted op).byLine = a.byLine ∧ (a.addCounted op).lineBegins = a.lineBegins ∧
      (a.addCounted op).openBrackets = a.openBrackets := by
  unfold addCounted amendLast
  repeat' split
  all_goals exact ⟨rfl, rfl, rfl⟩

/-- Operators belong to the line that is being read. -/
theorem lines_addOperator (added : a.addOperator column op = .ok next) :
    next.byLine = a.byLine ∧ next.lineBegins = a.lineBegins := by
  cases op with
  | increment | decrement | shiftLeft | shiftRight =>
    cases added
    obtain ⟨byLine, lines, -⟩ := a.addCounted_frame _
    exact ⟨byLine, lines⟩
  | input | output | loopStart =>
    cases added
    exact ⟨rfl, rfl⟩
  | loopEnd =>
    obtain ⟨bracket, outer, warnings, -, rfl⟩ := closeLoop_eq_ok added
    exact ⟨rfl, rfl⟩

theorem base_addOperator (added : a.addOperator column op = .ok next) : next.base = a.base := by
  obtain ⟨byLine, lineBegins⟩ := lines_addOperator added
  simp only [base, lineBegin, byLine, lineBegins]

theorem Merged.addOperator (h : a.Merged before word) (r : a.Reads source)
    (added : a.addOperator column op = .ok next) : next.Merged before (word ++ [op]) := by
  have base := base_addOperator added
  cases op with
  | increment | decrement | shiftLeft | shiftRight =>
    cases added
    obtain ⟨earlier, chunk, split, same, base, condenses⟩ := h
    rw [addCounted_eq split base]
    exact ⟨earlier, addTo chunk _, rfl, same, base, condenses.counted rfl⟩
  | input | output | loopStart =>
    cases added
    exact h.single base rfl (by simp [push, openLoop, Instruction.bare])
  | loopEnd =>
    obtain ⟨bracket, outer, warnings, waiting, rfl⟩ := closeLoop_eq_ok added
    have innermost : bracket ∈ a.openBrackets := by simp [waiting]
    exact h.single base rfl
      (bare_link { a with openBrackets := outer, warnings } (r.waits innermost))

theorem addWord_cons_eq_some {ops : List Operator} (added : a.addWord (op :: ops) = some next) :
    ∃ middle, a.addOperator 0 op = .ok middle ∧ middle.addWord ops = some next := by
  rw [addWord_cons] at added
  cases first : a.addOperator 0 op with
  | error fault => simp [first, Except.toOption] at added
  | ok middle => exact ⟨middle, rfl, by simpa [first, Except.toOption] using added⟩

theorem lines_addWord (added : a.addWord word = some next) :
    next.byLine = a.byLine ∧ next.lineBegins = a.lineBegins := by
  induction word generalizing a with
  | nil =>
    cases added
    exact ⟨rfl, rfl⟩
  | cons op ops ih =>
    obtain ⟨middle, first, rest⟩ := addWord_cons_eq_some added
    obtain ⟨byLine, lineBegins⟩ := lines_addOperator first
    obtain ⟨byLine', lineBegins'⟩ := ih rest
    exact ⟨byLine'.trans byLine, lineBegins'.trans lineBegins⟩

theorem byLine_addWords (added : a.addWords words = some next) : next.byLine = a.byLine := by
  induction words generalizing a with
  | nil =>
    cases added
    rfl
  | cons word words ih =>
    rw [addWords_cons] at added
    obtain ⟨middle, first, rest⟩ := Option.bind_eq_some_iff.mp added
    exact (ih rest).trans (lines_addWord first).1

theorem Merged.addWord (h : a.Merged before word) (r : a.Reads source)
    (added : a.addWord more = some next) :
    next.Merged before (word ++ more) ∧ ∃ source, next.Reads source := by
  induction more generalizing a word source with
  | nil =>
    cases added
    exact ⟨by simpa using h, source, r⟩
  | cons op ops ih =>
    obtain ⟨middle, first, rest⟩ := addWord_cons_eq_some added
    obtain ⟨merged, reads⟩ := ih (h.addOperator r first) (r.addOperator first) rest
    exact ⟨by simpa using merged, reads⟩

/-! ### All lines -/

theorem merged_empty (byLine : Bool) : Merged { byLine } [] [] :=
  ⟨[], [], rfl, rfl, by cases byLine <;> rfl, condenses_nil⟩

/-- With a table of lines, nothing is merged with what stands before the line. -/
theorem merged_beginLine (byLine : a.byLine = true) :
    a.beginLine.Merged (a.instructions.toList.map Instruction.bare) [] :=
  ⟨a.instructions.toList, [], by simp [beginLine], rfl, by simp [base, lineBegin, beginLine, byLine],
    condenses_nil⟩

/-- Without it, merging goes on. -/
theorem Merged.beginLine (h : a.Merged before word) (byLine : a.byLine = false) :
    a.beginLine.Merged before word := by
  obtain ⟨earlier, chunk, split, same, base, condenses⟩ := h
  have here : a.beginLine.base = a.base := by simp [Assembly.base, Assembly.beginLine, byLine]
  exact ⟨earlier, chunk, split, same, here.trans base, condenses⟩

/-- Each line has instructions of its own, and they begin where the line does. -/
theorem chunks_of_lines (byLine : a.byLine = true) (r : a.Reads source)
    (added : a.addWords words = some next) :
    ∃ earlier chunks, next.instructions.toList = earlier ++ chunks.flatten ∧
      earlier.map Instruction.bare = a.instructions.toList.map Instruction.bare ∧
      List.Forall₂ Condenses words chunks ∧
      next.lineBegins.toList = a.lineBegins.toList ++ starts a.instructions.size chunks := by
  induction words generalizing a source with
  | nil =>
    cases added
    exact ⟨_, [], by simp, rfl, .nil, by simp [starts]⟩
  | cons word words ih =>
    rw [addWords_cons] at added
    obtain ⟨middle, first, rest⟩ := Option.bind_eq_some_iff.mp added
    have begun : a.beginLine.Reads source := r
    obtain ⟨byLine', lineBegins⟩ := lines_addWord first
    obtain ⟨⟨earlier, chunk, split, same, -, condenses⟩, source', reads⟩ :=
      (merged_beginLine byLine).addWord begun first
    obtain ⟨earlier₂, chunks, split₂, same₂, others, table⟩ := ih (byLine'.trans byLine) reads rest
    -- The line's own chunk is what later lines have made of it: the same up to its brackets.
    rw [split, List.map_append] at same₂
    obtain ⟨earlier', chunk', rfl, same', chunks'⟩ := List.map_eq_append_iff.mp same₂
    refine ⟨earlier', chunk' :: chunks, by simpa using split₂, same'.trans same,
      .cons (condenses.of_bare chunks') others, ?_⟩
    have size : middle.instructions.size = a.instructions.size + chunk'.length := by
      have whole := congrArg List.length split
      have earlierSize : earlier.length = a.instructions.size := length_eq_of_bare same
      have chunkSize : chunk'.length = chunk.length := length_eq_of_bare chunks'
      rw [List.length_append, Array.length_toList] at whole
      omega
    rw [table, lineBegins, size]
    simp [beginLine, starts]

/-- Without a table of lines, all lines are merged together. -/
theorem Merged.addWords (h : a.Merged [] word) (byLine : a.byLine = false) (r : a.Reads source)
    (added : a.addWords words = some next) : next.Merged [] (word ++ words.flatten) := by
  induction words generalizing a word source with
  | nil =>
    cases added
    simpa using h
  | cons first words ih =>
    rw [addWords_cons] at added
    obtain ⟨middle, step, rest⟩ := Option.bind_eq_some_iff.mp added
    have begun : a.beginLine.Reads source := r
    obtain ⟨merged, source', reads⟩ := (h.beginLine byLine).addWord begun step
    simpa using ih merged ((lines_addWord step).1.trans byLine) reads rest

/-! ### Whatever has been read -/

/-- What holds of every assembly that is reached. -/
def Kept (a : Assembly) : Prop :=
  (∃ source, a.Reads source) ∧ ∃ before word, a.Merged before word

theorem kept_empty (byLine : Bool) : Kept { byLine } :=
  ⟨⟨[], reads_empty byLine⟩, [], [], merged_empty byLine⟩

theorem Kept.beginLine (h : a.Kept) : a.beginLine.Kept := by
  obtain ⟨⟨source, reads⟩, before, word, merged⟩ := h
  refine ⟨⟨source, reads⟩, ?_⟩
  cases byLine : a.byLine with
  | true => exact ⟨_, _, merged_beginLine byLine⟩
  | false => exact ⟨_, _, merged.beginLine byLine⟩

theorem Kept.addOperator (h : a.Kept) (added : a.addOperator column op = .ok next) : next.Kept := by
  obtain ⟨⟨source, reads⟩, before, word, merged⟩ := h
  exact ⟨⟨_, reads.addOperator added⟩, _, _, merged.addOperator reads added⟩

theorem Kept.addWord (h : a.Kept) (added : a.addWord word = some next) : next.Kept := by
  obtain ⟨⟨source, reads⟩, before, first, merged⟩ := h
  obtain ⟨merged', reads'⟩ := merged.addWord reads added
  exact ⟨reads', before, first ++ word, merged'⟩

theorem Kept.addWords (h : a.Kept) (added : a.addWords words = some next) : next.Kept := by
  induction words generalizing a with
  | nil =>
    cases added
    exact h
  | cons word words ih =>
    rw [addWords_cons] at added
    obtain ⟨middle, first, rest⟩ := Option.bind_eq_some_iff.mp added
    exact ih (h.beginLine.addWord first) rest

end Assembly

end Brainfuck
