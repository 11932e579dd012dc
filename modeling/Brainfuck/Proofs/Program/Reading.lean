import Brainfuck.Program.Assembly
import Brainfuck.Proofs.Program.Layout

/-!
# Reading a text

Whatever has been read of a text, the assembly's instructions are laid out over it, and idle text is
left at its end. Each character keeps that, in either way of keeping lines: an operator begins an
instruction, joins the last one, or makes idle text of the last one by cancelling it. The result is
`layout_of_ofSource`.
-/

namespace Brainfuck

namespace Assembly

variable {a next : Assembly} {source : List Char} {op : Operator} {column : Nat}

/-- The instructions of an assembly and the text that has been read. -/
def Reads (a : Assembly) (source : List Char) : Prop :=
  ∃ texts idle, Layers (a.openBrackets.map OpenBracket.index) a.instructions.toList texts ∧
    Idle idle ∧ source = texts.flatten ++ idle

theorem reads_empty (byLine : Bool) : Reads { byLine } [] :=
  ⟨[], [], .ground .nil, idle_nil, rfl⟩

theorem Reads.comment {c : Char} (r : a.Reads source) (comment : Operator.ofChar? c = none) :
    a.Reads (source ++ [c]) := by
  obtain ⟨texts, idle, layers, h, rfl⟩ := r
  exact ⟨texts, idle ++ [c], layers, h.comment comment, by simp⟩

theorem Reads.waits (r : a.Reads source) {bracket : OpenBracket}
    (waiting : bracket ∈ a.openBrackets) :
    a.instructions[bracket.index]? = some ⟨.loopStart, 0⟩ := by
  obtain ⟨texts, idle, layers, -, -⟩ := r
  rw [← Array.getElem?_toList]
  exact layers.waits (List.mem_map_of_mem waiting)

/-- An instruction of its own has the idle text before it. -/
theorem Reads.push {i : Instruction} {c : Char} (r : a.Reads source)
    (spells : ∀ idle, Idle idle → Spells i (idle ++ [c])) :
    (a.push i.operator i.operand).Reads (source ++ [c]) := by
  obtain ⟨texts, idle, layers, h, rfl⟩ := r
  refine ⟨texts ++ [idle ++ [c]], [], ?_, idle_nil, by simp⟩
  simpa [Assembly.push] using layers.plain (spells idle h)

/-! ### Runs -/

theorem toList_of_joinable? {last : Instruction} (h : a.joinable? = some last) :
    ∃ before, a.instructions.toList = before ++ [last] := by
  unfold joinable? at h
  split at h
  · cases h
  · rw [← Array.getLast?_toList] at h
    exact List.getLast?_eq_some_iff.mp h

theorem toList_amendLast {before : List Instruction} {last : Instruction} (operand : Nat)
    (h : a.instructions.toList = before ++ [last]) :
    (a.amendLast last operand).instructions.toList =
      if operand = 0 then before else before ++ [{ last with operand }] := by
  unfold amendLast
  split <;> simp [h]

theorem Reads.addCounted (r : a.Reads source) (counted : op.isCounted = true) :
    (a.addCounted op).Reads (source ++ [op.symbol]) := by
  unfold Assembly.addCounted
  cases joins : a.joinable? with
  | none => exact r.push fun idle h => h.spells counted
  | some last =>
    obtain ⟨texts, idle, layers, h, rfl⟩ := r
    obtain ⟨before, all⟩ := toList_of_joinable? joins
    obtain ⟨kind, n⟩ := last
    have amended (operand : Nat) : (a.amendLast ⟨kind, n⟩ operand).openBrackets = a.openBrackets := by
      unfold amendLast
      split <;> rfl
    simp only
    split
    · -- The run goes on.
      subst kind
      obtain ⟨texts', text, rfl, spells, layers'⟩ := layers.of_snoc all counted
      refine ⟨texts' ++ [text ++ (idle ++ [op.symbol])], [], ?_, idle_nil, by simp⟩
      rw [amended, toList_amendLast _ all, if_neg (Nat.succ_ne_zero n)]
      exact layers'.plain (spells.succ h counted)
    · split
      · rename_i opposite
        have counted' : kind.isCounted = true := by
          simp [Operator.isCounted, Operator.opposite_comm opposite]
        obtain ⟨texts', text, rfl, spells, layers'⟩ := layers.of_snoc all counted'
        obtain ⟨k, rfl⟩ : ∃ k, n = k + 1 := ⟨n - 1, by have := spells.positive; simp at this; omega⟩
        rcases Nat.eq_zero_or_pos k with rfl | left
        · -- Both are gone, and their text is idle now.
          refine ⟨texts', text ++ (idle ++ [op.symbol]), ?_, spells.cancel h opposite, by simp⟩
          rw [amended, toList_amendLast _ all]
          exact layers'
        · refine ⟨texts' ++ [text ++ (idle ++ [op.symbol])], [], ?_, idle_nil, by simp⟩
          rw [amended, toList_amendLast _ all, Nat.add_sub_cancel, if_neg (Nat.ne_of_gt left)]
          exact layers'.plain (spells.pred h opposite left)
      · exact Reads.push ⟨texts, idle, layers, h, rfl⟩ fun idle h => h.spells counted

/-! ### Brackets -/

theorem Reads.openLoop (r : a.Reads source) (column : Nat) :
    (a.openLoop column).Reads (source ++ ['[']) := by
  obtain ⟨texts, idle, layers, h, rfl⟩ := r
  refine ⟨texts ++ [idle ++ ['[']], [], ?_, idle_nil, by simp⟩
  simpa [Assembly.openLoop, Assembly.push] using Layers.inner layers h .nil

/-- A warning is all that comes of an empty loop. -/
theorem warnOfEmpty_eq (a : Assembly) (bracket : OpenBracket) :
    ∃ warnings, a.warnOfEmpty bracket = { a with warnings } := by
  unfold warnOfEmpty
  split <;> exact ⟨_, rfl⟩

/-- A loop is warned of if it is empty, and then its two brackets are linked. -/
theorem closeLoop_eq (closed : a.closeLoop column = .ok next) :
    ∃ bracket outer, a.openBrackets = bracket :: outer ∧
      next = ({ a with openBrackets := outer }.warnOfEmpty bracket).link bracket := by
  unfold Assembly.closeLoop at closed
  cases waiting : a.openBrackets with
  | nil => simp [waiting] at closed
  | cons bracket outer =>
    rw [waiting] at closed
    cases closed
    exact ⟨bracket, outer, rfl, rfl⟩

/-- The end of a loop is linked to the innermost bracket that waits. -/
theorem closeLoop_eq_ok (closed : a.closeLoop column = .ok next) :
    ∃ bracket outer warnings, a.openBrackets = bracket :: outer ∧
      next = { a with openBrackets := outer, warnings }.link bracket := by
  obtain ⟨bracket, outer, waiting, rfl⟩ := closeLoop_eq closed
  obtain ⟨warnings, warned⟩ := warnOfEmpty_eq { a with openBrackets := outer } bracket
  exact ⟨bracket, outer, warnings, waiting, by rw [warned]⟩

theorem Reads.closeLoop (r : a.Reads source) (closed : a.closeLoop column = .ok next) :
    next.Reads (source ++ [']']) := by
  obtain ⟨texts, idle, layers, h, rfl⟩ := r
  obtain ⟨bracket, outer, warnings, waiting, rfl⟩ := closeLoop_eq_ok closed
  rw [waiting] at layers
  obtain ⟨texts', same, layers'⟩ := layers.close h
  refine ⟨texts', [], ?_, idle_nil, by simp [same]⟩
  simpa [link] using layers'

/-! ### The whole text -/

theorem Reads.addOperator (r : a.Reads source) (added : a.addOperator column op = .ok next) :
    next.Reads (source ++ [op.symbol]) := by
  cases op with
  | increment | decrement | shiftLeft | shiftRight =>
    cases added
    exact r.addCounted rfl
  | input =>
    cases added
    exact r.push (i := ⟨.input, 1⟩) fun idle h => .input h
  | output =>
    cases added
    exact r.push (i := ⟨.output, 1⟩) fun idle h => .output h
  | loopStart =>
    cases added
    exact r.openLoop column
  | loopEnd => exact r.closeLoop added

theorem Reads.addChars {text : List Char} (r : a.Reads source)
    (added : a.addChars column text = .ok next) : next.Reads (source ++ text) := by
  induction text generalizing a source column with
  | nil =>
    cases added
    simpa using r
  | cons c rest ih =>
    rw [Assembly.addChars] at added
    cases kind : Operator.ofChar? c with
    | none =>
      rw [kind] at added
      simpa using ih (r.comment kind) added
    | some op =>
      rw [kind] at added
      simp only at added
      cases step : a.addOperator column op with
      | error fault => simp [step] at added
      | ok middle =>
        rw [step] at added
        rw [symbol_of_ofChar? kind]
        simpa using ih (r.addOperator step) added

theorem Reads.addLines {lines : List (List Char)} (r : a.Reads source)
    (added : a.addLines lines = .ok next) : next.Reads (source ++ lines.flatten) := by
  induction lines generalizing a source with
  | nil =>
    cases added
    simpa using r
  | cons line rest ih =>
    rw [Assembly.addLines] at added
    cases step : a.beginLine.addChars 0 line with
    | error fault => simp [step] at added
    | ok middle =>
      rw [step] at added
      have begun : a.beginLine.Reads source := r
      simpa using ih (begun.addChars step) added

end Assembly

/-- A text is accepted if and only if all of it can be read, no bracket waits any more, and there is
an instruction. -/
theorem ofSource_eq_ok_iff {byLine : Bool} {source : String} {p : Program} :
    Program.ofSource byLine source = .ok p ↔
      ∃ a : Assembly, ({ byLine } : Assembly).addLines (Text.lines source.toList) = .ok a ∧
        a.openBrackets = [] ∧ a.instructions ≠ #[] ∧ a.finish = p := by
  unfold Program.ofSource
  simp only
  cases ({ byLine } : Assembly).addLines (Text.lines source.toList) with
  | error fault => simp
  | ok a =>
    simp only [Except.ok.injEq, exists_eq_left']
    have waits : a.blame? = none ↔ a.openBrackets = [] := by simp [Assembly.blame?]
    cases blamed : a.blame? with
    | some place =>
      have some : a.openBrackets ≠ [] := fun none => by simp [waits.mpr none] at blamed
      simp [some]
    | none =>
      rw [waits] at blamed
      by_cases empty : a.instructions = #[]
      · simp [empty]
      · simp [empty, blamed]

/-- A program has an instruction. -/
theorem size_pos_of_ofSource {byLine : Bool} {source : String} {p : Program}
    (h : Program.ofSource byLine source = .ok p) : 0 < p.size := by
  obtain ⟨a, -, -, some, rfl⟩ := ofSource_eq_ok_iff.mp h
  exact Array.size_pos_iff.mpr some

/-- The instructions of a program are laid out over its whole text, but for idle text at the
end. -/
theorem layout_of_ofSource {byLine : Bool} {source : String} {p : Program}
    (h : Program.ofSource byLine source = .ok p) :
    ∃ texts idle, Closed 0 p.instructions.toList texts ∧ Idle idle ∧
      source.toList = texts.flatten ++ idle := by
  obtain ⟨assembly, read, ground, -, rfl⟩ := ofSource_eq_ok_iff.mp h
  obtain ⟨texts, idle, layers, quiet, same⟩ := (Assembly.reads_empty byLine).addLines read
  rw [List.nil_append, Text.flatten_lines] at same
  -- No bracket waits any more, so there is only the outermost layer.
  rw [ground] at layers
  cases layers with
  | ground closed => exact ⟨texts, idle, closed, quiet, same⟩

end Brainfuck
