import Brainfuck.Proofs.Program.Nesting

/-!
# Empty loops

Among instructions that are still being added, a loop is empty if its `[` has been told to go behind
the next instruction. What is added or changed at the end makes no loop empty, and none of them
full, until a loop is closed; and then only that loop may be empty, which is the last:
`emptyLoops_append`, `emptyLoops_linked`. In the same way what a warning tells of a loop stays
right: `Tells.amend`.
-/

namespace Brainfuck

/-- An instruction opens a loop with nothing in it: it leads behind the next one. -/
def opensEmpty (is : List Instruction) (index : Nat) : Bool :=
  is[index]? = some ⟨.loopStart, index + 2⟩

/-- The loops with nothing in them, each named by its first instruction. -/
def emptyLoops (is : List Instruction) : List Nat :=
  (List.range is.length).filter (opensEmpty is)

/-- Instructions to which the end of a loop is added, with both brackets told where to go. -/
def linked (is : List Instruction) (place : Nat) : List Instruction :=
  (is ++ [(⟨.loopEnd, place + 1⟩ : Instruction)]).set place ⟨.loopStart, is.length + 1⟩

/-- A warning tells the line of the bracket that closes a loop. Among what has been written the
bracket stands right behind the beginning of the loop, and it is found in what has been read. -/
def Tells (written read : List Char) (index : Nat) (warning : Warning) : Prop :=
  ∃ before later, read = before ++ ']' :: later ∧ written[index + 1]? = some ']' ∧
    (written.take (index + 1)).count ']' = before.count ']' ∧
    warning = .emptyLoop (before.count '\n' + 1)

variable {is js old new : List Instruction} {written read rest : List Char}
  {index place : Nat} {warning : Warning} {warnings : List Warning}

/-! ### Warnings that have been given -/

/-- They tell the same when reading goes on, -/
theorem Tells.read_on (h : Tells written read index warning) (more : List Char) :
    Tells written (read ++ more) index warning := by
  obtain ⟨before, later, split, found, count, same⟩ := h
  refine ⟨before, later ++ more, ?_, found, count, same⟩
  rw [split, List.append_assoc, List.cons_append]

/-- and when something is changed behind the last bracket. -/
theorem Tells.amend (h : Tells (written ++ rest) read index warning)
    (free : ∀ c ∈ rest, isBracket c = false) (more : List Char) :
    Tells (written ++ more) read index warning := by
  obtain ⟨before, later, split, found, count, same⟩ := h
  have inside : index + 1 < written.length := by
    by_contra outside
    rw [List.getElem?_append_right (Nat.le_of_not_lt outside)] at found
    have closing := free ']' (List.mem_of_getElem? found)
    cases closing
  refine ⟨before, later, split, ?_, ?_, same⟩
  · rw [List.getElem?_append_left inside] at found ⊢
    exact found
  · rw [List.take_append_of_le_length inside.le] at count ⊢
    exact count

/-! ### Empty loops -/

theorem opensEmpty_iff : opensEmpty is index = true ↔ is[index]? = some ⟨.loopStart, index + 2⟩ :=
  decide_eq_true_iff

theorem mem_emptyLoops : index ∈ emptyLoops is ↔ is[index]? = some ⟨.loopStart, index + 2⟩ := by
  rw [emptyLoops, List.mem_filter, List.mem_range, opensEmpty_iff]
  constructor
  · intro ⟨_, found⟩
    exact found
  · intro found
    exact ⟨(List.getElem?_eq_some_iff.mp found).1, found⟩

theorem opensEmpty_congr (same : is[index]? = js[index]?) :
    opensEmpty is index = opensEmpty js index := by
  rw [opensEmpty, opensEmpty, same]

/-- A bracket that has not been told where to go opens no empty loop, nor does anything else. -/
theorem not_opensEmpty {i : Instruction} (found : is[index]? = some i)
    (untold : i.operator = .loopStart → i.operand = 0) : ¬ opensEmpty is index = true := by
  rw [opensEmpty_iff, found]
  intro same
  cases same
  exact absurd (untold rfl) (Nat.succ_ne_zero _)

/-- Instructions that close no loop make no loop empty. -/
theorem emptyLoops_append (untold : ∀ i ∈ js, i.operator = .loopStart → i.operand = 0) :
    emptyLoops (is ++ js) = emptyLoops is := by
  have none : ∀ k, is.length ≤ k → k < is.length + js.length → opensEmpty (is ++ js) k = false := by
    intro k past upTo
    have inside : k < (is ++ js).length := by
      rw [List.length_append]
      exact upTo
    have found := List.getElem?_eq_getElem inside
    have member : (is ++ js)[k] ∈ js := by
      rw [List.getElem_append_right past]
      exact List.getElem_mem _
    exact Bool.eq_false_iff.mpr (not_opensEmpty found (untold _ member))
  rw [emptyLoops, List.length_append, Program.filter_range_eq (Nat.le_add_right _ _) none,
    emptyLoops]
  apply List.filter_congr
  intro k mem
  exact opensEmpty_congr (List.getElem?_append_left (List.mem_range.mp mem))

/-- When a loop is closed, it is the only one that may become empty, and it is the last. -/
theorem emptyLoops_linked (waits : is[place]? = some ⟨.loopStart, 0⟩) :
    emptyLoops (linked is place) =
      emptyLoops is ++ if is.length = place + 1 then [place] else [] := by
  obtain ⟨inside, -⟩ := List.getElem?_eq_some_iff.mp waits
  have length : (linked is place).length = is.length + 1 := by
    rw [linked, List.length_set, List.length_append, List.length_singleton]
  have here : (linked is place)[place]? = some ⟨.loopStart, is.length + 1⟩ := by
    rw [linked, List.getElem?_set_self]
    rw [List.length_append]
    omega
  have others (k : Nat) (other : place ≠ k) (lt : k < is.length) :
      (linked is place)[k]? = is[k]? := by
    rw [linked, List.getElem?_set_ne other, List.getElem?_append_left lt]
  have last : (linked is place)[is.length]? = some ⟨.loopEnd, place + 1⟩ := by
    rw [linked, List.getElem?_set_ne inside.ne, List.getElem?_concat_length]
  have closes : ¬ opensEmpty (linked is place) is.length = true := not_opensEmpty last (nomatch ·)
  have waited : ¬ opensEmpty is place = true := not_opensEmpty waits fun _ => rfl
  rw [emptyLoops, length, List.range_succ, List.filter_append, List.filter_cons_of_neg closes,
    List.filter_nil, List.append_nil]
  by_cases adjacent : is.length = place + 1
  · have empty : opensEmpty (linked is place) place = true := by
      rw [opensEmpty_iff, here, adjacent]
    rw [if_pos adjacent, emptyLoops, adjacent, List.range_succ, List.filter_append,
      List.filter_append, List.filter_cons_of_pos empty, List.filter_cons_of_neg waited,
      List.filter_nil, List.filter_nil, List.append_nil]
    congr 1
    apply List.filter_congr
    intro k mem
    have lt := List.mem_range.mp mem
    exact opensEmpty_congr (others k (by omega) (by omega))
  · rw [if_neg adjacent, List.append_nil, emptyLoops]
    apply List.filter_congr
    intro k mem
    by_cases same : place = k
    · subst same
      have full : ¬ opensEmpty (linked is place) place = true := by
        rw [opensEmpty_iff, here, Option.some.injEq, Instruction.mk.injEq]
        omega
      rw [Bool.eq_false_iff.mpr full, Bool.eq_false_iff.mpr waited]
    · exact opensEmpty_congr (others k same (List.mem_range.mp mem))

/-- Linking two brackets adds one. -/
theorem code_linked (waits : is[place]? = some ⟨.loopStart, 0⟩) :
    code (linked is place) = code is ++ [']'] := by
  have here : (code is)[place]? = some '[' := by
    rw [code, List.getElem?_map, waits]
    rfl
  obtain ⟨inside, same⟩ := List.getElem?_eq_some_iff.mp here
  have whole : code (linked is place) = (code is ++ [']']).set place '[' := by
    rw [code, linked, List.map_set, List.map_append]
    rfl
  rw [whole, List.set_append_left _ _ inside, ← same, List.set_getElem_self]

/-- Counted operators, and brackets that wait, leave the warnings right. -/
theorem forall₂_amend
    (h : List.Forall₂ (Tells (code (is ++ old)) read) (emptyLoops (is ++ old)) warnings)
    (free : ∀ i ∈ old, isBracket i.operator.symbol = false)
    (untold : ∀ i ∈ new, i.operator = .loopStart → i.operand = 0) :
    List.Forall₂ (Tells (code (is ++ new)) read) (emptyLoops (is ++ new)) warnings := by
  have untold' : ∀ i ∈ old, i.operator = .loopStart → i.operand = 0 := by
    intro i mem opens
    have closing := free i mem
    rw [opens] at closing
    cases closing
  have quiet : ∀ c ∈ code old, isBracket c = false := by
    intro c mem
    obtain ⟨i, member, rfl⟩ := List.mem_map.mp mem
    exact free i member
  rw [emptyLoops_append untold'] at h
  rw [emptyLoops_append untold]
  refine h.imp fun index warning tells => ?_
  rw [code_append] at tells ⊢
  exact tells.amend quiet _

/-- What has been laid out over a text has its brackets, also when some of them wait. -/
theorem Layers.onlyBrackets_code {indices : List Nat} {texts : List (List Char)}
    (h : Layers indices is texts) : onlyBrackets (code is) = onlyBrackets texts.flatten := by
  induction h with
  | ground closed => exact closed.onlyBrackets_code
  | @inner outer is js texts inner p before opening body ih =>
    have flat : (texts ++ (p ++ ['[']) :: inner).flatten =
        texts.flatten ++ (p ++ ('[' :: inner.flatten)) := by simp
    have spelled : code (is ++ ⟨.loopStart, 0⟩ :: js) = code is ++ ('[' :: code js) := by
      rw [code_append]
      rfl
    rw [flat, spelled, onlyBrackets_append, onlyBrackets_append, onlyBrackets_append, ih,
      silent_of_quiet opening.quiet, List.nil_append, onlyBrackets_cons rfl, onlyBrackets_cons rfl,
      body.onlyBrackets_code]

end Brainfuck
