import Brainfuck.Proofs.Shell.Messages
import Brainfuck.Proofs.Shell.Moves

/-!
# What only shows something

Many commands show clean text and do nothing else. `Tells` is the relation of a shell to what such a
command makes of it: the debugger is the same, and so is what the program has written.
-/

namespace Brainfuck

/-- The text of a stretch that is the shell's own. -/
def Span.text? : Span → Option String
  | .plain text | .toned _ text => some text
  | .output _ => none

namespace Shell

open Text (Clean clean_ofList clean_nat clean_int)

/-- More clean text has been shown, and nothing else has happened. -/
inductive Tells (s : Shell) : Shell → Prop
  | nothing : Tells s s
  | put {t : Shell} {span : Span} {text : String} (before : Tells s t)
      (reads : span.text? = some text) (clean : Clean text) : Tells s (t.put span)

namespace Tells

variable {s t : Shell} {text message : String}

/-! ### What stays -/

theorem debugger (h : s.Tells t) : t.debugger = s.debugger := by
  induction h with
  | nothing => rfl
  | put _ _ _ ih => exact ih

theorem written_of_text {span : Span} (reads : span.text? = some text) : span.written = #[] := by
  cases span with
  | plain | toned => rfl
  | output => cases reads

theorem written (h : s.Tells t) : t.written = s.written := by
  induction h with
  | nothing => rfl
  | put _ reads _ ih => rw [written_put, written_of_text reads, Array.append_empty, ih]

/-! ### Messages -/

theorem print (h : s.Tells t) (clean : Clean text) : s.Tells (t.print text) :=
  h.put rfl clean

theorem note (h : s.Tells t) (clean : Clean message) : s.Tells (t.note message) :=
  h.print (.append clean (clean_ofList rfl))

theorem say (h : s.Tells t) (tone : Tone) (clean : Clean message) :
    s.Tells (t.say tone message) :=
  print (h.put rfl clean) (clean_ofList rfl)

theorem report (h : s.Tells t) (outcome : Outcome) : s.Tells (t.report outcome) := by
  have apart : s.Tells (t.print "\n\n") := h.print (clean_ofList rfl)
  cases outcome with
  | finished => exact apart.say _ (clean_ofList rfl)
  | paused reason => exact apart.say _ (clean_describe _ _)

theorem refuse (h : s.Tells t) (fault : Debugger.Fault) : s.Tells (t.refuse fault) := by
  have message (heading : String) (clean : Clean heading) : Clean (heading ++ fault.message) :=
    .append clean fault.clean_message
  unfold Shell.refuse
  split
  · exact h.say _ (message _ (clean_ofList rfl))
  · exact h.say _ (message _ (clean_ofList rfl))
  · exact h.say _ (message _ (clean_ofList rfl))

/-! ### Cells -/

theorem cells (h : s.Tells t) (offset : Int) (byte : UInt8) :
    s.Tells ((cellSpans offset byte).foldl Shell.put t) := by
  unfold cellSpans
  split
  · have bracketed : Clean ("[" ++ toString byte.toNat ++ "]") :=
      .append (.append (clean_ofList rfl) (clean_nat _)) (clean_ofList rfl)
    exact (h.put rfl bracketed).put rfl (clean_ofList rfl)
  · have bare : Clean (toString byte.toNat ++ " ") := .append (clean_nat _) (clean_ofList rfl)
    exact h.put rfl bare

theorem row (h : s.Tells t) (offset : Int) (row : List UInt8) :
    s.Tells ((rowSpans offset row).foldl Shell.put t) := by
  unfold rowSpans
  induction row.zipIdx generalizing t with
  | nil => exact h
  | cons cell cells ih =>
    rw [List.flatMap_cons, List.foldl_append]
    exact ih (h.cells _ _)

theorem showCells (h : s.Tells t) (offset : Int) (length : Nat) :
    s.Tells (t.showCells offset length) :=
  (h.row _ _).print (clean_ofList rfl)

theorem showWindow (h : s.Tells t) : s.Tells t.showWindow :=
  h.showCells _ _

/-! ### The next instruction and the points -/

theorem showNext (h : s.Tells t) : s.Tells t.showNext := by
  unfold Shell.showNext
  split
  · rename_i index i _
    exact h.note (i.clean_indexed index)
  · exact h

theorem announced (h : s.Tells t) : s.Tells t.announced :=
  h.showNext.print (.append (.append (clean_ofList rfl) (clean_int _)) (clean_ofList rfl))

theorem showStopPoint (h : s.Tells t) : s.Tells t.showStopPoint := by
  unfold Shell.showStopPoint
  split
  · exact h.note (.append (clean_ofList rfl) (clean_nat _))
  · exact h.note (clean_ofList rfl)

theorem showTable (h : s.Tells t) {heading otherwise : String} {rows : List String}
    (top : Clean heading) (clean : ∀ row ∈ rows, Clean row) (none : Clean otherwise) :
    s.Tells (t.showTable heading rows otherwise) := by
  unfold Shell.showTable
  split
  · exact h.note none
  · have rows : ∀ row ∈ heading :: rows, Clean row := List.forall_mem_cons.mpr ⟨top, clean⟩
    exact h.print (.append (.lines rows) (clean_ofList rfl))

theorem showBreakpoints (h : s.Tells t) : s.Tells t.showBreakpoints := by
  refine h.showTable (clean_ofList rfl) (fun row mem => ?_) (clean_ofList rfl)
  obtain ⟨index, inside, rfl⟩ := List.mem_mapIdx.mp mem
  exact clean_breakpointRow _ _

theorem showWatches (h : s.Tells t) : s.Tells t.showWatches := by
  refine h.showTable (clean_ofList rfl) (fun row mem => ?_) (clean_ofList rfl)
  obtain ⟨index, inside, rfl⟩ := List.mem_mapIdx.mp mem
  exact clean_watchRow _ _

theorem info (h : s.Tells t) (target : Option Target) : s.Tells (t.info target) := by
  rcases target with _ | _ | _ | _
  · exact h.showStopPoint.showBreakpoints.showWatches
  · exact h.showStopPoint
  · exact h.showBreakpoints
  · exact h.showWatches

end Tells

end Shell

end Brainfuck
