import Brainfuck.Proofs.Shell.Steps
import Brainfuck.Proofs.Shell.Slices
import Brainfuck.Proofs.Shell.Telling
import Brainfuck.Proofs.Tape.Memory
import Brainfuck.Proofs.Text.Encoding

/-!
# Which cells are shown

Two commands show a row of cells, one of them around the pointer. Each cell is shown by its byte,
and the one under the pointer is in brackets. At the ends of the address space there is no byte to
show, and a zero stands for it.
-/

namespace Brainfuck

/-- A cell of a row that is shown. -/
structure Cell where
  byte : UInt8
  bracketed : Bool

/-- A cell in decimal, with a blank behind it. -/
def Cell.text (c : Cell) : String :=
  (if c.bracketed then "[" ++ toString c.byte.toNat ++ "]" else toString c.byte.toNat) ++ " "

/-- The byte at an offset from the pointer. It is zero if the offset or the address is not a 64-bit
integer. -/
def Memory.byteAt (m : Memory) (offset : Int) : UInt8 :=
  if Address.Representable offset ∧ Address.Representable (m.pointer + offset) then
    m.cells (m.pointer + offset)
  else 0

/-- A row of cells from an offset on, as they are to be shown. -/
structure ShowsCells (m : Memory) (offset : Int) (length : Nat) (cells : List Cell) : Prop where
  count : cells.length = length
  byte : ∀ i c, cells[i]? = some c → c.byte = m.byteAt (offset + (i : Nat))
  bracketed : ∀ i c, cells[i]? = some c → (c.bracketed = true ↔ offset + (i : Nat) = 0)
  /-- Some cell is in brackets if the row passes over the pointer. -/
  among : (∃ c ∈ cells, c.bracketed = true) ↔ offset ≤ 0 ∧ 0 < offset + length
  current : ∀ c ∈ cells, c.bracketed = true → c.byte = m.current

/-- The row of cells with these bytes. -/
def cellsFrom (offset : Int) (row : List UInt8) : List Cell :=
  row.zipIdx.map fun (byte, index) => ⟨byte, offset + (index : Nat) = 0⟩

theorem peek_eq (t : Tape) (offset : Int) (length : Nat) :
    t.peek offset length =
      (List.range length).map fun i : Nat => t.memory.byteAt (offset + i) := by
  refine List.map_congr_left fun i _ => ?_
  by_cases inside : Address.Representable (offset + i)
  · simp [inside, Tape.read, Memory.byteAt, Tape.memory]
  · simp [inside, Memory.byteAt]

theorem cellsFrom_peek (t : Tape) (offset : Int) (length : Nat) :
    cellsFrom offset (t.peek offset length) =
      (List.range length).map fun i : Nat =>
        ⟨t.memory.byteAt (offset + i), offset + i = 0⟩ := by
  apply List.ext_getElem
  · simp [cellsFrom, peek_eq]
  · intro i _ _
    simp [cellsFrom, peek_eq]

/-- What is read from the tape is the row that is to be shown. -/
theorem showsCells_peek {t : Tape} (pointer : Address.Representable t.pointer) (offset : Int)
    (length : Nat) :
    ShowsCells t.memory offset length (cellsFrom offset (t.peek offset length)) := by
  rw [cellsFrom_peek]
  have shown (i : Nat) (c : Cell)
      (found : ((List.range length).map fun i : Nat =>
        (⟨t.memory.byteAt (offset + i), offset + i = 0⟩ : Cell))[i]? = some c) :
      c = ⟨t.memory.byteAt (offset + i), offset + i = 0⟩ := by
    rw [List.getElem?_map, Option.map_eq_some_iff] at found
    obtain ⟨j, place, rfl⟩ := found
    obtain ⟨inside, rfl⟩ := List.getElem?_eq_some_iff.mp place
    rw [List.getElem_range]
  constructor
  case count => simp
  case byte =>
    intro i c found
    rw [shown i c found]
  case bracketed =>
    intro i c found
    rw [shown i c found, decide_eq_true_eq]
  case among =>
    constructor
    · rintro ⟨c, mem, bracketed⟩
      obtain ⟨i, inside, rfl⟩ := List.mem_map.mp mem
      have here : offset + i = 0 := of_decide_eq_true bracketed
      have below := List.mem_range.mp inside
      omega
    · rintro ⟨before, behind⟩
      have here : offset + ((-offset).toNat : Nat) = 0 := by omega
      refine ⟨_, List.mem_map.mpr ⟨(-offset).toNat, List.mem_range.mpr (by omega), rfl⟩, ?_⟩
      rw [decide_eq_true_eq]
      exact here
  case current =>
    intro c mem bracketed
    obtain ⟨i, inside, rfl⟩ := List.mem_map.mp mem
    have here : offset + i = 0 := of_decide_eq_true bracketed
    have zero : Address.Representable 0 := by decide
    have there : Address.Representable t.memory.pointer := pointer
    simp [here, Memory.byteAt, Memory.current, zero, there]

/-! ### What is written -/

theorem bytes_cellSpans (offset : Int) (byte : UInt8) :
    (Shell.cellSpans offset byte).flatMap (Span.bytes none) =
      Text.Utf8.encode (Cell.text ⟨byte, offset = 0⟩) := by
  unfold Shell.cellSpans
  by_cases here : offset = 0
  · simp [here, Span.bytes, Cell.text]
  · simp [here, Span.bytes, Cell.text]

theorem bytes_rowSpans (offset : Int) (row : List UInt8) :
    (Shell.rowSpans offset row).flatMap (Span.bytes none) =
      Text.Utf8.encode (String.join ((cellsFrom offset row).map Cell.text)) := by
  rw [Text.Utf8.encode_join, List.flatMap_map, cellsFrom, List.flatMap_map, Shell.rowSpans,
    List.flatMap_assoc]
  simp only [bytes_cellSpans]

namespace Shell

theorem bytes_foldl_put (spans : List Span) (s : Shell) (palette : Option Palette) :
    (spans.foldl put s).transcript.bytes palette =
      s.transcript.bytes palette ++ spans.flatMap (Span.bytes palette) := by
  induction spans generalizing s with
  | nil => simp
  | cons span spans ih => rw [List.foldl_cons, ih, bytes_put, List.flatMap_cons, List.append_assoc]

theorem bytes_showCells (s : Shell) (offset : Int) (length : Nat) :
    (s.showCells offset length).transcript.bytes none =
      s.transcript.bytes none ++ Text.Utf8.encode (String.join
        ((cellsFrom offset (s.debugger.machine.tape.peek offset length)).map Cell.text) ++
          "\n\n") := by
  rw [showCells, print, bytes_put, bytes_foldl_put, bytes_rowSpans, Text.Utf8.encode_append,
    List.append_assoc]
  rfl

/-- A command line that shows cells, with the text that stands before them. -/
inductive AsksForCells (s : Shell) (line : String) : String → Int → Nat → Prop
  | peek {offset : Int} {length : Nat}
      (parsed : Command.parse line = .ok (some (.peek offset length))) :
      AsksForCells s line "" offset length
  | tape (parsed : Command.parse line = .ok (some .tape)) :
      AsksForCells s line ("Current memory pointer: " ++ toString s.debugger.pointer ++ "\n")
        (-s.window.before) s.window.width

end Shell

/-- A command line for cells shows the bytes around the pointer, the one under it in brackets, and
leaves the tape and its blocks as they are. -/
theorem cells_are_shown_exactly {s : Shell} {line heading : String} {offset : Int} {length : Nat}
    (pointer : Address.Representable s.debugger.pointer)
    (asked : s.AsksForCells line heading offset length) (fuel : Nat) :
    ∃ after cells, s.execute fuel line = (after, some .goOn) ∧
      ShowsCells s.debugger.machine.tape.memory offset length cells ∧
      after.transcript.bytes none = s.transcript.bytes none ++ Text.Utf8.encode
        (heading ++ String.join (cells.map Cell.text) ++ "\n\n") ∧
      after.debugger = { s.debugger with signal := s.debugger.signal.lower } := by
  have shows := showsCells_peek pointer
  cases asked with
  | peek parsed =>
    refine ⟨s.calm.showCells offset length, _, Shell.execute_of_parse parsed rfl fuel,
      shows offset length, ?_, (Shell.Tells.nothing.showCells _ _).debugger⟩
    rw [Shell.bytes_showCells, String.empty_append]
    rfl
  | tape parsed =>
    let heading := "Current memory pointer: " ++ toString s.debugger.pointer ++ "\n"
    refine ⟨(s.calm.print heading).showWindow, _, Shell.execute_of_parse parsed rfl fuel,
      shows (-s.window.before) s.window.width, ?_, (Shell.Tells.nothing.showWindow).debugger⟩
    rw [Shell.showWindow, Shell.bytes_showCells, Shell.print, Shell.bytes_put, List.append_assoc,
      String.append_assoc, Text.Utf8.encode_append heading]
    rfl

/-- After `+` the row from one cell before the pointer on shows a 1 in brackets. -/
theorem cells_around_increment_are_shown :
    let p : Program := ⟨#[⟨.increment, 1⟩], some #[some 0], 1, #[]⟩
    let start : Shell := { debugger := .ofProgram p [] {} }
    let s : Shell := (start.execute 0 "s").1
    Program.ofSource true "+" = .ok p ∧ Address.Representable s.debugger.pointer ∧
      Command.parse "p -1 3" = .ok (some (.peek (-1) 3)) ∧
      ∃ after, ∃ cells : List Cell, s.execute 0 "p -1 3" = (after, some .goOn) ∧
        after.transcript.bytes none = s.transcript.bytes none ++ Text.Utf8.encode
          ("" ++ String.join (cells.map Cell.text) ++ "\n\n") ∧
        cells.length = 3 ∧ ∃ c ∈ cells, c.bracketed = true ∧ c.byte = 1 := by
  intro p start s
  have accepted : Program.ofSource true "+" = .ok p := by cbv
  have pointer : Address.Representable s.debugger.pointer := by decide +kernel
  have parsed : Command.parse "p -1 3" = .ok (some (.peek (-1) 3)) := by decide +kernel
  have current : s.debugger.machine.tape.memory.current = 1 := by decide +kernel
  obtain ⟨after, cells, executed, shows, bytes, -⟩ :=
    cells_are_shown_exactly pointer (.peek parsed) 0
  obtain ⟨c, mem, bracketed⟩ := shows.among.mpr (by decide)
  exact ⟨accepted, pointer, parsed, after, cells, executed, bytes, shows.count, c, mem, bracketed,
    (shows.current c mem bracketed).trans current⟩

end Brainfuck
