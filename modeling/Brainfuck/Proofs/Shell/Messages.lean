import Brainfuck.Proofs.Text.Clean
import Brainfuck.Proofs.Text.Words
import Brainfuck.Shell.Execute

/-!
# What the shell says is clean

The shell's own words are clean texts: its messages, the rows of its tables and the listing. Only
the word of an unknown command is said as it was entered.
-/

namespace Brainfuck

open Text (Clean clean_ofList clean_nat clean_int)

/-! ### Instructions and listings -/

theorem Operator.clean_name (op : Operator) : Clean op.name := by
  cases op <;> exact clean_ofList rfl

theorem Instruction.clean_text (i : Instruction) : Clean i.text :=
  .append (.append (.left i.operator.clean_name _) (clean_ofList rfl)) (clean_nat _)

/-- An instruction with its index, as it is shown. -/
theorem Instruction.clean_indexed (i : Instruction) (index : Nat) :
    Clean (Text.Column.left 8 (toString index) ++ " " ++ i.text) :=
  .append (.append (.left (clean_nat index) _) (clean_ofList rfl)) i.clean_text

namespace Listing

/-- A listing of clean lines. -/
def IsClean (l : Listing) : Prop :=
  ∀ line ∈ l.lines, Clean line

variable {l : Listing}

theorem IsClean.addLine (h : l.IsClean) (depth : Nat) {text : String} (clean : Clean text) :
    (l.addLine depth text).IsClean := by
  intro line mem
  rcases Array.mem_push.mp mem with earlier | rfl
  · exact h line earlier
  · exact .append (Text.clean_blanks _) clean

theorem IsClean.addRow (h : l.IsClean) (depth index : Nat) (i : Instruction) :
    (l.addRow depth index i).IsClean := by
  have row := i.clean_indexed index
  rw [String.append_assoc] at row
  refine h.addLine depth ?_
  rw [String.append_assoc, String.append_assoc]
  exact .append (clean_ofList rfl) row

theorem IsClean.addInstruction (h : l.IsClean) (index : Nat) (i : Instruction) :
    (l.addInstruction index i).IsClean := by
  unfold Listing.addInstruction
  split
  · have label : Clean ("L" ++ toString (l.labels + 1) ++ ":") :=
      .append (.append (clean_ofList rfl) (clean_nat _)) (clean_ofList rfl)
    exact IsClean.addRow (h.addLine l.depth label) _ _ _
  · have listed := h.addRow (l.depth - 1) index i
    simp only
    split
    · exact listed
    · rename_i label outer _
      have ending : Clean ("L" ++ toString label ++ " End") :=
        .append (.append (clean_ofList rfl) (clean_nat _)) (clean_ofList rfl)
      exact IsClean.addLine listed _ ending
  · exact h.addRow _ _ _

theorem IsClean.addInstructions (h : l.IsClean) (index : Nat) (rest : List Instruction) :
    (l.addInstructions index rest).IsClean := by
  induction rest generalizing l index with
  | nil => exact h
  | cons i rest ih => exact ih (h.addInstruction index i) (index + 1)

theorem clean_of_mem_lineTable {begins : List (Option Nat)} {line : String}
    (mem : line ∈ lineTable begins) : Clean line := by
  rcases List.mem_cons.mp mem with rfl | mem
  · exact clean_ofList rfl
  · obtain ⟨index, inside, rfl⟩ := List.mem_mapIdx.mp mem
    exact .append (.append (.append (clean_ofList rfl) (clean_nat _)) (clean_ofList rfl))
      (.number (clean_ofList rfl) _)

end Listing

theorem Program.clean_listing (p : Program) : Clean p.listing := by
  have heading : Clean ("Total instructions: " ++ toString p.size) :=
    .append (clean_ofList rfl) (clean_nat _)
  have body : (({} : Listing).addInstructions 0 p.instructions.toList).IsClean :=
    Listing.IsClean.addInstructions (by simp [Listing.IsClean]) _ _
  have footing : Clean ("Lines: " ++ toString p.lineCount) :=
    .append (clean_ofList rfl) (clean_nat _)
  have table : ∀ line ∈ (p.lineBegins.map fun begins =>
      Listing.lineTable begins.toList).getD [], Clean line := by
    intro line mem
    cases begins : p.lineBegins with
    | none => simp [begins] at mem
    | some begins' =>
      rw [begins] at mem
      exact Listing.clean_of_mem_lineTable mem
  refine .lines fun line mem => ?_
  rcases List.mem_append.mp mem with mem | mem
  · rcases List.mem_append.mp mem with mem | mem
    · rcases List.mem_append.mp mem with mem | mem
      · rcases List.mem_pair.mp mem with rfl | rfl
        · exact heading
        · exact clean_ofList rfl
      · exact body line (Array.mem_toList_iff.mp mem)
    · rcases List.mem_pair.mp mem with rfl | rfl
      · exact clean_ofList rfl
      · exact footing
  · exact table line mem

/-! ### Messages -/

theorem PointKind.clean_name (kind : PointKind) : Clean kind.name := by
  cases kind <;> exact clean_ofList rfl

theorem Debugger.Fault.clean_message (fault : Debugger.Fault) : Clean fault.message := by
  unfold Debugger.Fault.message
  split
  · exact .append (.append (.append (clean_ofList rfl) (clean_nat _)) (clean_ofList rfl))
      (clean_nat _)
  · exact .append (.append (clean_ofList rfl) (clean_nat _)) (clean_ofList rfl)
  · rename_i kind ordinal count
    have got : Clean (kind.name ++ " index out of range, got " ++ toString ordinal) :=
      .append (.append kind.clean_name (clean_ofList rfl)) (clean_nat _)
    exact .append (.append (.append (.append got (clean_ofList rfl)) kind.clean_name)
      (clean_ofList rfl)) (clean_nat _)
  · exact .append (.append (clean_ofList rfl) (clean_int _)) (clean_ofList rfl)
  · exact .append (.append (.append (.append (clean_ofList rfl) (clean_nat _)) (clean_ofList rfl))
      (clean_nat _)) (clean_ofList rfl)
  · exact clean_ofList rfl

namespace Command

theorem clean_helpSections : ∀ part ∈ helpSections,
    Clean part.1 ∧ ∀ entry ∈ part.2, Clean entry.1 ∧ Clean entry.2 := by
  simp only [helpSections, List.forall_mem_cons, List.not_mem_nil, false_implies, implies_true,
    and_true]
  repeat' apply And.intro
  all_goals exact clean_ofList rfl

theorem clean_helpSection {heading : String} {entries : List (String × String)}
    (top : Clean heading) (clean : ∀ entry ∈ entries, Clean entry.1 ∧ Clean entry.2) :
    Clean (helpSection heading entries) := by
  refine .append (.append top (clean_ofList rfl)) (.join fun line listed => ?_)
  obtain ⟨entry, mem, rfl⟩ := List.mem_map.mp listed
  obtain ⟨form, effect⟩ := clean entry mem
  exact .append (.append (.append (.left form _) (clean_ofList rfl)) effect) (clean_ofList rfl)

theorem clean_helpText : Clean helpText := by
  refine .intercalate (clean_ofList rfl) fun text shown => ?_
  obtain ⟨part, mem, rfl⟩ := List.mem_map.mp shown
  exact clean_helpSection (clean_helpSections part mem).1 (clean_helpSections part mem).2

theorem Verb.clean_usage (verb : Verb) : Clean verb.usage := by
  cases verb <;> exact clean_ofList rfl

/-- The word of an unknown command is the first of the line. -/
theorem mem_words_of_unknown {line word : String} (rejected : parse line = .error (.unknown word)) :
    word ∈ Text.words line := by
  unfold parse at rejected
  split at rejected
  · cases rejected
  · rename_i first rest found
    split at rejected
    · cases rejected
      simp [found]
    · split at rejected <;> cases rejected

/-- A clean line is refused with a clean message. -/
theorem clean_message_of_parse {line : String} {fault : Command.Fault} (clean : Clean line)
    (rejected : parse line = .error fault) : Clean fault.message := by
  unfold Fault.message
  split
  · rename_i word
    have mem : word ∈ Text.words line := mem_words_of_unknown rejected
    have solid : Clean word := clean.of_subset fun _ here => Text.mem_of_mem_words mem here
    exact .append (.append (clean_ofList rfl) solid) (clean_ofList rfl)
  · rename_i verb
    exact .append (clean_ofList rfl) verb.clean_usage

end Command

namespace Shell

theorem clean_describe (breakpoints : List Breakpoint) (reason : Pause) :
    Clean (describe breakpoints reason) := by
  unfold describe
  split
  · split
    · exact .append (clean_ofList rfl) (clean_nat _)
    · exact clean_ofList rfl
  · exact .append (clean_ofList rfl) (clean_int _)
  · exact clean_ofList rfl
  · exact .append (clean_ofList rfl) (clean_nat _)
  · exact clean_ofList rfl
  · exact clean_ofList rfl

theorem clean_breakpointRow (index : Nat) (b : Breakpoint) : Clean (breakpointRow index b) :=
  .append (.append (.append (.append (clean_nat _) (clean_ofList rfl)) (clean_nat _))
    (clean_ofList rfl)) (.number (clean_ofList rfl) _)

theorem clean_watchRow (index : Nat) (address : Int) : Clean (watchRow index address) :=
  .append (.append (clean_nat _) (clean_ofList rfl)) (clean_int _)

end Shell

end Brainfuck
