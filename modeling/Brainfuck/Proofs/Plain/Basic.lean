import Brainfuck.Proofs.Steps
import Brainfuck.Proofs.Tape.Memory

/-!
# The plain interpreter

Brainfuck as it is usually told: the text itself is executed, one character after the other, and a
bracket finds its partner by counting brackets on the way. Here is what this needs: the steps, and
that text in which every bracket has its partner is passed over by the search.
-/

namespace Brainfuck

/-- What a character does to the memory: `+ - < >` do something, others do nothing. -/
def Memory.after (m : Memory) (c : Char) : Memory :=
  match c with
  | '+' => m.update (· + 1)
  | '-' => m.update (· - 1)
  | '<' => m.move (-1)
  | '>' => m.move 1
  | _ => m

/-- A text on its way: the place of the character to execute next, the memory, the bytes that have
not been read and those that have been written. -/
structure Plain where
  place : Nat := 0
  memory : Memory := {}
  input : List UInt8 := []
  output : Array UInt8 := #[]

namespace Plain

/-- How many characters there are up to the bracket that closes what was opened before them, that
bracket included. All of them, if there is none. -/
def scan (opens closes : Char) (depth : Nat) : List Char → Nat
  | [] => 0
  | c :: rest =>
    if c = opens then scan opens closes (depth + 1) rest + 1
    else if c = closes then
      if depth = 0 then 1 else scan opens closes (depth - 1) rest + 1
    else scan opens closes depth rest + 1

/-- The place behind the bracket that closes the one at a place. -/
def behindClosing (text : List Char) (place : Nat) : Nat :=
  place + 1 + scan '[' ']' 0 (text.drop (place + 1))

/-- The place behind the bracket that opens the one at a place. The search goes backwards. -/
def behindOpening (text : List Char) (place : Nat) : Nat :=
  place - scan ']' '[' 0 (text.take place).reverse + 1

/-- Goes on to the next character. -/
def next (s : Plain) : Plain :=
  { s with place := s.place + 1 }

/-- Executes a character, which stands at the place. -/
def execute (text : List Char) (s : Plain) (c : Char) : Plain :=
  match c with
  | '[' => if s.memory.current = 0 then { s with place := behindClosing text s.place } else s.next
  | ']' => if s.memory.current = 0 then s.next else { s with place := behindOpening text s.place }
  | ',' =>
    match s.input with
    | [] => { s.next with memory := s.memory.update fun _ => 0 }
    | byte :: rest => { s.next with memory := s.memory.update fun _ => byte, input := rest }
  | '.' => { s.next with output := s.output.push s.memory.current }
  | c => { s.next with memory := s.memory.after c }

/-- Executes the next character, if the text has not ended. -/
def step? (text : List Char) (s : Plain) : Option Plain :=
  text[s.place]?.map (s.execute text)

theorem step?_of_char {text : List Char} {s : Plain} {c : Char} (here : text[s.place]? = some c) :
    s.step? text = some (s.execute text c) := by
  simp [step?, here]

/-! ### Text that only changes the memory -/

/-- A character that is neither a bracket nor reads or writes. -/
def Quiet (c : Char) : Prop :=
  c ≠ '[' ∧ c ≠ ']' ∧ c ≠ ',' ∧ c ≠ '.'

theorem execute_quiet {c : Char} (quiet : Quiet c) (text : List Char) (s : Plain) :
    s.execute text c = { s.next with memory := s.memory.after c } := by
  obtain ⟨opening, closing, reads, writes⟩ := quiet
  unfold execute
  split <;> first | contradiction | rfl

/-- Quiet text is executed from its beginning to its end. -/
theorem after?_quiet {text x chunk y : List Char} {s : Plain} (h : text = x ++ chunk ++ y)
    (here : s.place = x.length) (quiet : ∀ c ∈ chunk, Quiet c) :
    after? (step? text) chunk.length s = some { s with
      place := (x ++ chunk).length, memory := chunk.foldl Memory.after s.memory } := by
  induction chunk generalizing x s with
  | nil => simp [after?, ← here]
  | cons c rest ih =>
    obtain ⟨first, others⟩ := List.forall_mem_cons.mp quiet
    have at' : text[s.place]? = some c := by simp [here, h]
    rw [List.length_cons, after?, step?_of_char at', execute_quiet first, Option.bind_some,
      ih (x := x ++ [c]) (by simpa using h) (by simp [next, here]) others]
    simp [next]

/-! ### The search for the partner of a bracket -/

variable {opens closes : Char} {t u : List Char}

/-- Text that the search for a partner passes over. -/
def Passed (opens closes : Char) (t : List Char) : Prop :=
  ∀ depth rest, scan opens closes depth (t ++ rest) = t.length + scan opens closes depth rest

theorem Passed.append (ht : Passed opens closes t) (hu : Passed opens closes u) :
    Passed opens closes (t ++ u) := by
  intro depth rest
  rw [List.append_assoc, ht, hu, List.length_append, Nat.add_assoc]

theorem passed_of_notMem (opening : opens ∉ t) (closing : closes ∉ t) :
    Passed opens closes t := by
  induction t with
  | nil =>
    intro depth rest
    simp
  | cons c others ih =>
    intro depth rest
    obtain ⟨opening, opening'⟩ := List.ne_and_not_mem_of_not_mem_cons opening
    obtain ⟨closing, closing'⟩ := List.ne_and_not_mem_of_not_mem_cons closing
    rw [List.cons_append, scan, if_neg opening.symm, if_neg closing.symm,
      ih opening' closing' depth rest, List.length_cons]
    omega

/-- A loop is passed over if its body is. -/
theorem Passed.loop (apart : opens ≠ closes) (h : Passed opens closes t) :
    Passed opens closes (opens :: (t ++ [closes])) := by
  intro depth rest
  have body := h (depth + 1) (closes :: rest)
  have closing : scan opens closes (depth + 1) (closes :: rest) =
      scan opens closes depth rest + 1 := by simp [scan, apart.symm]
  rw [closing] at body
  simp only [List.cons_append, List.append_assoc, List.nil_append, scan, if_true, body,
    List.length_cons, List.length_append, List.length_nil]
  omega

/-- The search ends at the first partner behind text that is passed over. -/
theorem Passed.scan_eq (apart : opens ≠ closes) (h : Passed opens closes t) (rest : List Char) :
    scan opens closes 0 (t ++ closes :: rest) = t.length + 1 := by
  rw [h]
  simp [scan, apart.symm]

/-- Text in which every bracket has its partner, for both directions of the search. -/
structure Nested (t : List Char) : Prop where
  forward : Passed '[' ']' t
  backward : Passed ']' '[' t.reverse

theorem Nested.append (ht : Nested t) (hu : Nested u) : Nested (t ++ u) where
  forward := ht.forward.append hu.forward
  backward := by
    rw [List.reverse_append]
    exact hu.backward.append ht.backward

theorem Nested.loop (h : Nested t) : Nested ('[' :: (t ++ [']'])) where
  forward := h.forward.loop (by decide)
  backward := by
    have passed := h.backward.loop (by decide)
    simpa using passed

theorem nested_of_notMem (opening : '[' ∉ t) (closing : ']' ∉ t) : Nested t where
  forward := passed_of_notMem opening closing
  backward := passed_of_notMem (by simpa using closing) (by simpa using opening)

theorem behindClosing_eq {text x y : List Char} (h : text = x ++ '[' :: (t ++ ']' :: y))
    (nested : Nested t) : behindClosing text x.length = (x ++ '[' :: (t ++ [']'])).length := by
  have rest : text.drop (x.length + 1) = t ++ ']' :: y := by
    rw [h, ← List.drop_drop, List.drop_left]
    rfl
  rw [behindClosing, rest, nested.forward.scan_eq (by decide)]
  simp only [List.length_append, List.length_cons, List.length_nil]
  omega

theorem behindOpening_eq {text x y : List Char} (h : text = x ++ '[' :: (t ++ ']' :: y))
    (nested : Nested t) : behindOpening text (x ++ '[' :: t).length = (x ++ ['[']).length := by
  have before : (text.take (x ++ '[' :: t).length).reverse = t.reverse ++ '[' :: x.reverse := by
    rw [h, show x ++ '[' :: (t ++ ']' :: y) = (x ++ '[' :: t) ++ ']' :: y by simp, List.take_left]
    simp
  rw [behindOpening, before, nested.backward.scan_eq (by decide)]
  simp only [List.length_append, List.length_cons, List.length_nil, List.length_reverse]
  omega

example : behindOpening ['+', '[', '>', '[', ']', ']'] 5 = 2 := by decide

end Plain

end Brainfuck
