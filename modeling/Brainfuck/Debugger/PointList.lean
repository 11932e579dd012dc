/-! Breakpoints and watchpoints as lists in rising order, and what can be wrong with a request
about them. -/
namespace Brainfuck

/-- A breakpoint on a source line, counted from 1. -/
structure Breakpoint where
  line : Nat
  /-- The instruction to halt at. A breakpoint without one is inert. -/
  index : Option Nat
  deriving DecidableEq

/-- An inert breakpoint stands behind the last instruction of the program. -/
def Breakpoint.inert (b : Breakpoint) : Bool :=
  b.index.isNone

/-- The two kinds of points that are kept in numbered lists. -/
inductive PointKind
  | breakpoint
  | watchpoint
  deriving DecidableEq

def PointKind.name : PointKind → String
  | .breakpoint => "breakpoint"
  | .watchpoint => "watchpoint"

/-- Puts an item in front of the first one whose key is not below its own. -/
def insertByKey {α : Type} (key : α → Int) (item : α) : List α → List α
  | [] => [item]
  | first :: rest =>
    if key first < key item then first :: insertByKey key item rest else item :: first :: rest

/-- The item at a place counted from 1, and the others. -/
def takeOrdinal? {α : Type} (items : List α) (ordinal : Nat) : Option (α × List α) :=
  match ordinal with
  | 0 => none
  | index + 1 => items[index]?.map fun item => (item, items.eraseIdx index)

theorem mem_insertByKey {α : Type} {key : α → Int} {item other : α} {items : List α} :
    other ∈ insertByKey key item items ↔ other = item ∨ other ∈ items := by
  induction items with
  | nil => simp [insertByKey]
  | cons first rest ih =>
    rw [insertByKey]
    split
    · simp only [List.mem_cons, ih]
      exact or_left_comm
    · exact List.mem_cons

/-- A list in rising order stays in rising order when an item with a new key is put in. -/
theorem pairwise_insertByKey {α : Type} {key : α → Int} {item : α} {items : List α}
    (rising : items.Pairwise (key · < key ·)) (fresh : ∀ other ∈ items, key other ≠ key item) :
    (insertByKey key item items).Pairwise (key · < key ·) := by
  induction items with
  | nil => simp [insertByKey]
  | cons first rest ih =>
    obtain ⟨below, others⟩ := List.pairwise_cons.mp rising
    have apart := fresh first List.mem_cons_self
    rw [insertByKey]
    split
    · rename_i before
      refine List.pairwise_cons.mpr ⟨?_, ih others fun o ho => fresh o (List.mem_cons_of_mem _ ho)⟩
      intro other h
      rcases mem_insertByKey.mp h with rfl | h
      · exact before
      · exact below other h
    · have before : key item < key first := by omega
      refine List.pairwise_cons.mpr ⟨?_, rising⟩
      intro other h
      rcases List.mem_cons.mp h with rfl | h
      · exact before
      · exact Int.lt_trans before (below other h)

namespace Debugger

/-- Why a request about breakpoints, watchpoints or the stop point is refused. -/
inductive Fault
  | lineOutOfRange (line lineCount : Nat)
  | alreadyBreakpoint (line : Nat)
  | ordinalOutOfRange (kind : PointKind) (ordinal count : Nat)
  | alreadyWatched (address : Int)
  | indexOutOfRange (index size : Nat)
  | linesUnknown
  deriving DecidableEq

def Fault.message : Fault → String
  | lineOutOfRange line lineCount =>
    "breakpoint out of range, line count is " ++ toString lineCount ++ ", got line " ++
      toString line
  | alreadyBreakpoint line => "breakpoint at line " ++ toString line ++ " already exists"
  | ordinalOutOfRange kind ordinal count =>
    kind.name ++ " index out of range, got " ++ toString ordinal ++ ", " ++ kind.name ++
      " count is " ++ toString count
  | alreadyWatched address => "address " ++ toString address ++ " is already being watched"
  | indexOutOfRange index size =>
    "instruction index " ++ toString index ++ " out of range, program has " ++ toString size ++
      " instructions"
  | linesUnknown =>
    "breakpoints need line information; analyze the program with line metadata"

end Debugger

end Brainfuck
