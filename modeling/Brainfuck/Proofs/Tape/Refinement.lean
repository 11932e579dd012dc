import Brainfuck.Proofs.Tape.Memory
import Mathlib.Data.List.Induction

/-!
# A tape is a memory without an end

Whatever is asked of a tape, an unbounded memory would have answered the same: blocks that are added
on the left renumber nothing, and no cell is lost at their edges. `refines_memory` says so for every
sequence of requests, and which blocks there are in the end: those between the outermost two in
which the pointer has been.
-/

namespace Brainfuck

namespace Tape

/-- What is asked of a tape: that it changes, or what it holds. -/
inductive Request
  | move (delta : Int)
  | increment (count : Nat)
  | decrement (count : Nat)
  | write (byte : UInt8)
  | current
  | readAt (address : Int)
  | read (offset : Int)
  | peek (offset : Int) (length : Nat)
  deriving DecidableEq

/-- The requests that only look. -/
def Request.looks : Request → Bool
  | .move _ | .increment _ | .decrement _ | .write _ => false
  | .current | .readAt _ | .read _ | .peek _ _ => true

/-- What is told in answer. -/
inductive Answer
  | done
  /-- The number of the block in which the pointer is now. -/
  | block (number : Int)
  | bytes (bytes : List UInt8)
  deriving DecidableEq

/-- The tape after a request, and its answer. -/
def answer (t : Tape) : Request → Tape × Answer
  | .move delta => (t.move delta, .block (t.move delta).block)
  | .increment count => (t.increment count, .done)
  | .decrement count => (t.decrement count, .done)
  | .write byte => (t.write byte, .done)
  | .current => (t, .bytes [t.current])
  | .readAt address => (t, .bytes [t.readAt address])
  | .read offset => (t, .bytes [t.read offset])
  | .peek offset length => (t, .bytes (t.peek offset length))

/-- The tape after some requests, one after the other. -/
def afterAll (t : Tape) (requests : List Request) : Tape :=
  requests.foldl (fun t request => (t.answer request).1) t

end Tape

/-! ### What a memory answers -/

namespace Memory

open Tape (Request Answer)

/-- The block in which the pointer is. A block is 1024 cells long, and address 0 is in the middle of
block 0. -/
def block (m : Memory) : Int :=
  (m.pointer + 512) / 1024

/-- The byte at an offset from the pointer, and zero where there is no such address. -/
def read (m : Memory) (offset : Int) : UInt8 :=
  if Address.Representable (m.pointer + offset) then m.cells (m.pointer + offset) else 0

/-- The memory after a request, and its answer. Bytes are counted modulo 256. -/
def answer (m : Memory) : Request → Memory × Answer
  | .move delta => (m.move delta, .block (m.move delta).block)
  | .increment count => (m.update fun byte => .ofNat ((byte.toNat + count) % 256), .done)
  | .decrement count => (m.update fun byte => .ofNat ((byte.toNat - count : Int) % 256).toNat, .done)
  | .write byte => (m.update fun _ => byte, .done)
  | .current => (m, .bytes [m.cells m.pointer])
  | .readAt address => (m, .bytes [m.cells address])
  | .read offset => (m, .bytes [m.read offset])
  | .peek offset length => (m, .bytes (List.ofFn fun index : Fin length =>
      if Address.Representable (offset + index) then m.read (offset + index) else 0))

/-- The memory after some requests, one after the other. -/
def afterAll (m : Memory) (requests : List Request) : Memory :=
  requests.foldl (fun m request => (m.answer request).1) m

/-- The pointer has been in a block, at the beginning or after one of some requests. -/
def Visited (requests : List Request) (number : Int) : Prop :=
  ∃ earlier, earlier <+: requests ∧ (({} : Memory).afterAll earlier).block = number

theorem afterAll_snoc (m : Memory) (requests : List Request) (last : Request) :
    m.afterAll (requests ++ [last]) = ((m.afterAll requests).answer last).1 := by
  simp [afterAll]

theorem visited_nil (number : Int) : Visited [] number ↔ number = 0 := by
  simp [Visited, afterAll, block, eq_comm]

/-- The last request adds the block in which it leaves the pointer. -/
theorem visited_snoc (requests : List Request) (last : Request) (number : Int) :
    Visited (requests ++ [last]) number ↔
      number = (({} : Memory).afterAll (requests ++ [last])).block ∨ Visited requests number := by
  simp only [Visited, List.prefix_concat_iff, or_and_right, exists_or, exists_eq_left]
  exact or_congr_left eq_comm

end Memory

namespace Tape

variable {t : Tape} {requests : List Request} {number : Int}

theorem block_eq (t : Tape) : t.block = t.memory.block := by
  simp only [block, Memory.block, memory, Address.block, Address.shifted]
  omega

/-! ### One request -/

theorem add_ofNat (byte : UInt8) (count : Nat) :
    byte + .ofNat count = .ofNat ((byte.toNat + count) % 256) := by
  apply UInt8.toNat_inj.mp
  simp

theorem sub_ofNat (byte : UInt8) (count : Nat) :
    byte - .ofNat count = .ofNat ((byte.toNat - count : Int) % 256).toNat := by
  apply UInt8.toNat_inj.mp
  have small := byte.toNat_lt
  simp [UInt8.toNat_sub]
  omega

theorem peek_eq (t : Tape) (offset : Int) (length : Nat) :
    t.peek offset length = List.ofFn fun index : Fin length =>
      if Address.Representable (offset + index) then t.memory.read (offset + index) else 0 := by
  refine List.ext_getElem (by simp [peek]) fun index _ _ => ?_
  simp only [peek, List.getElem_map, List.getElem_range, List.getElem_ofFn]
  rfl

/-- A tape that keeps the slot of its pointer's block is changed like its memory, and answers like
it. -/
theorem answer_eq (p : t.Placed) (request : Request) :
    (t.answer request).1.memory = (t.memory.answer request).1 ∧
      (t.answer request).2 = (t.memory.answer request).2 := by
  cases request with
  | move delta =>
    refine ⟨memory_move t delta, ?_⟩
    simp only [answer, Memory.answer, block_eq, memory_move]
  | increment count =>
    refine ⟨(memory_update p _).trans ?_, rfl⟩
    simp only [add_ofNat]
    rfl
  | decrement count =>
    refine ⟨(memory_update p _).trans ?_, rfl⟩
    simp only [sub_ofNat]
    rfl
  | write byte => exact ⟨memory_update p _, rfl⟩
  | current => exact ⟨rfl, congrArg (Answer.bytes [·]) (memory_current p)⟩
  | readAt | read => exact ⟨rfl, rfl⟩
  | peek offset length => exact ⟨rfl, congrArg Answer.bytes (t.peek_eq offset length)⟩

/-- Every request leaves the slot at the pointer's block. -/
theorem Placed.answer (p : t.Placed) (request : Request) : (t.answer request).1.Placed := by
  cases request with
  | move delta => exact p.move delta
  | increment count => exact p.increment count
  | decrement count => exact p.decrement count
  | write byte => exact p.write byte
  | current | readAt | read | peek => exact p

/-! ### Blocks -/

theorem first_reach (t : Tape) (number : Int) : (t.reach number).first = min t.first number := by
  unfold reach
  split
  · simp only
    omega
  · split
    · simp only
      omega
    · omega

theorem beyond_reach (t : Tape) (number : Int) :
    (t.reach number).beyond = max t.beyond (number + 1) := by
  unfold reach
  split
  · simp only [beyond, Array.size_append, Array.size_replicate]
    omega
  · split
    · simp only [beyond, Array.size_append, Array.size_replicate] at *
      omega
    · omega

theorem beyond_update (t : Tape) (change : UInt8 → UInt8) : (t.update change).beyond = t.beyond := by
  simp [beyond]

/-- A request reaches for the block in which it leaves the pointer, and adds no others. -/
theorem reach_answer (p : t.Placed) (request : Request) :
    (t.answer request).1.first = min t.first (t.answer request).1.block ∧
      (t.answer request).1.beyond = max t.beyond ((t.answer request).1.block + 1) := by
  obtain ⟨low, high⟩ := p.holds
  have still : t.first = min t.first t.block ∧ t.beyond = max t.beyond (t.block + 1) := by
    omega
  cases request with
  | move delta =>
    have block : (t.move delta).block = Address.block (t.pointer + delta) := by simp [block]
    simp only [answer, block]
    exact ⟨first_reach _ _, beyond_reach _ _⟩
  | increment | decrement | write =>
    simp only [answer, increment, decrement, write, beyond_update]
    exact still
  | current | readAt | read | peek => exact still

/-- The blocks there are: those between the outermost two in which the pointer has been. -/
structure Spans (t : Tape) (requests : List Request) : Prop where
  first : Memory.Visited requests t.first
  last : Memory.Visited requests (t.beyond - 1)
  holds : ∀ number, Memory.Visited requests number → t.Holds number

theorem spans_empty : Spans {} [] where
  first := (Memory.visited_nil _).mpr rfl
  last := (Memory.visited_nil _).mpr rfl
  holds := by
    intro number visited
    rw [(Memory.visited_nil _).mp visited]
    exact placed_empty.holds

theorem Spans.snoc (s : t.Spans requests) (request : Request) (p : t.Placed)
    (same : (t.answer request).1.block = (({} : Memory).afterAll (requests ++ [request])).block) :
    (t.answer request).1.Spans (requests ++ [request]) := by
  obtain ⟨first, beyond⟩ := reach_answer p request
  have visited := Memory.visited_snoc requests request
  rw [← same] at visited
  refine ⟨(visited _).mpr ?_, (visited _).mpr ?_, fun number now => ?_⟩
  · rcases Int.le_total t.first (t.answer request).1.block with le | le
    · right
      rw [first, Int.min_eq_left le]
      exact s.first
    · left
      rw [first, Int.min_eq_right le]
  · rcases Int.le_total ((t.answer request).1.block + 1) t.beyond with le | le
    · right
      rw [beyond, Int.max_eq_left le]
      exact s.last
    · left
      rw [beyond, Int.max_eq_right le]
      omega
  · unfold Holds
    rw [first, beyond]
    rcases (visited number).mp now with rfl | before
    · omega
    · obtain ⟨low, high⟩ := s.holds number before
      omega

theorem Spans.isSome_blockAt?_iff (s : t.Spans requests) (number : Int) :
    (t.blockAt? number).isSome = true ↔
      (∃ low, Memory.Visited requests low ∧ low ≤ number) ∧
        ∃ high, Memory.Visited requests high ∧ number ≤ high := by
  have there : (t.blockAt? number).isSome = true ↔ t.Holds number := by
    unfold blockAt? Holds beyond
    split
    · simp
      omega
    · simp
      omega
  rw [there]
  constructor
  · rintro ⟨low, high⟩
    exact ⟨⟨t.first, s.first, low⟩, t.beyond - 1, s.last, by omega⟩
  · rintro ⟨⟨low, visitedLow, le⟩, high, visitedHigh, ge⟩
    have ⟨bottom, _⟩ := s.holds low visitedLow
    have ⟨_, top⟩ := s.holds high visitedHigh
    exact ⟨by omega, by omega⟩

/-! ### Every sequence of requests -/

theorem afterAll_snoc (t : Tape) (requests : List Request) (last : Request) :
    t.afterAll (requests ++ [last]) = ((t.afterAll requests).answer last).1 := by
  simp [afterAll]

/-- The slot is that of the pointer's block whatever has been asked. -/
theorem placed_afterAll (requests : List Request) : (({} : Tape).afterAll requests).Placed := by
  induction requests using List.reverseRecOn with
  | nil => exact placed_empty
  | append_singleton requests last ih =>
    rw [afterAll_snoc]
    exact ih.answer last

/-- A fresh tape has the memory that a fresh memory would be, and the blocks it has been in. -/
theorem memory_afterAll (requests : List Request) :
    (({} : Tape).afterAll requests).memory = ({} : Memory).afterAll requests ∧
      (({} : Tape).afterAll requests).Spans requests := by
  induction requests using List.reverseRecOn with
  | nil => exact ⟨memory_empty, spans_empty⟩
  | append_singleton requests last ih =>
    obtain ⟨same, spans⟩ := ih
    have placed := placed_afterAll requests
    have same' : (({} : Tape).afterAll (requests ++ [last])).memory =
        ({} : Memory).afterAll (requests ++ [last]) := by
      rw [afterAll_snoc, Memory.afterAll_snoc, (answer_eq placed last).1, same]
    refine ⟨same', ?_⟩
    rw [afterAll_snoc] at same' ⊢
    exact spans.snoc last placed (by rw [block_eq, same'])

/-- Looks can be left out. -/
theorem afterAll_filter_looks (t : Tape) (requests : List Request) :
    t.afterAll (requests.filter fun request => !request.looks) = t.afterAll requests := by
  induction requests generalizing t with
  | nil => rfl
  | cons request rest ih =>
    cases request with
    | move | increment | decrement | write => exact ih _
    | current | readAt | read | peek => exact ih t

/-- After any requests to a fresh tape, its pointer and its bytes are those of an unbounded memory,
and so is the answer to whatever is asked next. No look has changed it. Its blocks are those from
the lowest to the highest one in which the pointer has been, and the slot it has kept is the place
of the pointer's block among them. -/
theorem refines_memory (requests : List Request) :
    let t := ({} : Tape).afterAll requests
    let m := ({} : Memory).afterAll requests
    t.pointer = m.pointer ∧ t.current = m.cells m.pointer ∧
      (∀ address, t.readAt address = m.cells address) ∧
      (∀ request, (t.answer request).2 = (m.answer request).2) ∧
      t = ({} : Tape).afterAll (requests.filter fun request => !request.looks) ∧
      (∀ number, (t.blockAt? number).isSome = true ↔
        (∃ low, Memory.Visited requests low ∧ low ≤ number) ∧
          ∃ high, Memory.Visited requests high ∧ number ≤ high) ∧
      ((t.slot : Int) = m.block - t.first ∧ t.slot < t.blocks.size) := by
  intro t m
  obtain ⟨same, spans⟩ := memory_afterAll requests
  have placed := placed_afterAll requests
  have pointer : t.pointer = m.pointer := congrArg Memory.pointer same
  have cells (address : Int) : t.readAt address = m.cells address :=
    congrFun (congrArg Memory.cells same) address
  have block : t.block = m.block := by rw [block_eq, same]
  refine ⟨pointer, ?_, cells, fun request => ?_, (afterAll_filter_looks _ _).symm,
    spans.isSome_blockAt?_iff, ?_, placed.inside⟩
  · rw [placed.current_eq, cells, pointer]
  · rw [(answer_eq placed request).2, same]
  · rw [← block]
    exact placed.slot

/-- A walk over three blocks to the left loses nothing of what was written before. -/
example : (({} : Tape).afterAll [.increment 263, .move (-3000), .decrement 1]).peek (-1) 2 = [0, 255] ∧
    (({} : Tape).afterAll [.increment 263, .move (-3000), .decrement 1]).read 3000 = 7 := by
  decide +kernel

end Tape

end Brainfuck
