import Brainfuck.Proofs.Debugger.Unhindered
import Brainfuck.Proofs.Program.Reading

/-!
# Programs do what their text does

The machine and the plain interpreter are abreast when the interpreter is about to execute the text
of the instruction that is the machine's next. Each instruction takes the interpreter through the
text of that instruction, be it long, or to the partner of a bracket; at the end there is only idle
text left. So the debugger's undisturbed run is the plain interpretation of the text.
-/

namespace Brainfuck

open Plain

/-- The same memory, and the same bytes read and written. -/
structure Agrees (m : Machine) (s : Plain) : Prop where
  memory : s.memory = m.tape.memory
  input : s.input = m.input
  output : s.output = m.output

/-- The place where the text of an instruction begins, by its index. -/
def beginning (texts : List (List Char)) (index : Nat) : Nat :=
  (texts.take index).flatten.length

/-- The interpreter is about to execute the text of the machine's next instruction. -/
structure Abreast (texts : List (List Char)) (m : Machine) (s : Plain) : Prop where
  agrees : Agrees m s
  place : s.place = beginning texts m.pc
  placed : m.tape.Placed

variable {texts before later : List (List Char)} {text idle x y : List Char} {m : Machine}
  {s : Plain} {i : Instruction} {index : Nat}

theorem beginning_of_split (split : texts = before ++ later) (here : index = before.length) :
    beginning texts index = before.flatten.length := by
  rw [beginning, split, here, List.take_left]

/-! ### The machine's part -/

theorem placed_execute (h : m.tape.Placed) (i : Instruction) : (m.execute i).tape.Placed := by
  unfold Machine.execute
  split
  · exact h.increment _
  · exact h.decrement _
  · exact h.move _
  · exact h.move _
  · exact h
  · exact h
  · split <;> exact h.write _
  · exact h

/-- A counted operator changes the memory and goes on. -/
theorem execute_counted (h : m.tape.Placed) (counted : i.operator.isCounted = true) :
    (m.execute i).tape.memory = i.onMemory m.tape.memory ∧ (m.execute i).pc = m.pc + 1 ∧
      (m.execute i).input = m.input ∧ (m.execute i).output = m.output := by
  obtain ⟨op, n⟩ := i
  cases op with
  | increment | decrement => exact ⟨Tape.memory_update h _, rfl, rfl, rfl⟩
  | shiftLeft | shiftRight => exact ⟨Tape.memory_move _ _, rfl, rfl, rfl⟩
  | loopStart | loopEnd | input | output => cases counted

/-! ### The interpreter's part -/

/-- Idle text is passed through, and the character behind it is executed. -/
theorem after?_idle_char {c : Char} (split : text = x ++ (idle ++ c :: y)) (h : Idle idle)
    (here : s.place = x.length) :
    after? (step? text) (idle.length + 1) s =
      some (Plain.execute text { s with place := (x ++ idle).length } c) := by
  have through : after? (step? text) idle.length s =
      some { s with place := (x ++ idle).length } := by
    rw [after?_quiet (by simpa using split) here h.quiet, h.still]
  have found : text[(x ++ idle).length]? = some c := by
    rw [split, ← List.append_assoc]
    simp
  rw [after?_succ through]
  exact step?_of_char found

/-! ### One instruction -/

theorem Agrees.current (a : Agrees m s) (h : m.tape.Placed) :
    s.memory.current = m.tape.current := by
  rw [a.memory, Tape.memory_current h]

theorem Agrees.input_execute (a : Agrees m s) (h : m.tape.Placed) (text : List Char) :
    Agrees (m.execute ⟨.input, 1⟩) (s.execute text ',') ∧
      (s.execute text ',').place = s.place + 1 ∧ (m.execute ⟨.input, 1⟩).pc = m.pc + 1 := by
  have same := a.input
  cases bytes : m.input with
  | nil =>
    rw [bytes] at same
    have memory := Tape.memory_update h fun _ => 0
    rw [← a.memory] at memory
    simp only [Machine.execute, execute, bytes, same]
    exact ⟨⟨memory.symm, same, a.output⟩, rfl, trivial⟩
  | cons byte rest =>
    rw [bytes] at same
    have memory := Tape.memory_update h fun _ => byte
    rw [← a.memory] at memory
    simp only [Machine.execute, execute, bytes, same]
    exact ⟨⟨memory.symm, rfl, a.output⟩, rfl, trivial⟩

/-- An instruction that is no bracket takes the interpreter through its text. -/
theorem Abreast.spelled (h : Abreast texts m s) {chunk : List Char}
    (whole : text = texts.flatten ++ idle) (split : texts = before ++ chunk :: later)
    (here : m.pc = before.length) (spells : Spells i chunk) :
    ∃ n t, after? (step? text) (n + 1) s = some t ∧ Abreast texts (m.execute i) t := by
  have place : s.place = before.flatten.length := by rw [h.place, beginning_of_split split here]
  have next : beginning texts (m.pc + 1) = (before.flatten ++ chunk).length := by
    rw [beginning_of_split (show texts = (before ++ [chunk]) ++ later by simp [split])
      (by simp [here])]
    simp
  have around : text = before.flatten ++ (chunk ++ (later.flatten ++ idle)) := by
    simp [whole, split]
  cases spells with
  | counted kind positive written quiet effect =>
    obtain ⟨n, long⟩ : ∃ n, chunk.length = n + 1 :=
      Nat.exists_eq_add_one.mpr (List.length_pos_iff.mpr written)
    obtain ⟨memory, pc, input, output⟩ := execute_counted h.placed kind
    have ran := after?_quiet (by simpa using around) place quiet
    rw [long] at ran
    refine ⟨n, _, ran, ⟨?_, ?_, ?_⟩, ?_, placed_execute h.placed i⟩
    · rw [memory, effect, h.agrees.memory]
    · rw [input, ← h.agrees.input]
    · rw [output, ← h.agrees.output]
    · rw [pc, next]
  | @input idle' quiet =>
    have around' : text = before.flatten ++ (idle' ++ ',' :: (later.flatten ++ idle)) := by
      simpa using around
    -- Operators that have cancelled each other may stand before the comma.
    have arrived : Agrees m { s with place := (before.flatten ++ idle').length } :=
      ⟨h.agrees.memory, h.agrees.input, h.agrees.output⟩
    obtain ⟨agrees, moved, pc⟩ := arrived.input_execute h.placed text
    refine ⟨idle'.length, _, after?_idle_char around' quiet place, agrees, ?_,
      placed_execute h.placed _⟩
    rw [moved, pc, next]
    simp
    omega
  | @output idle' quiet =>
    have around' : text = before.flatten ++ (idle' ++ '.' :: (later.flatten ++ idle)) := by
      simpa using around
    have written : s.output.push s.memory.current = m.output.push m.tape.current := by
      rw [h.agrees.output, h.agrees.current h.placed]
    refine ⟨idle'.length, _, after?_idle_char around' quiet place,
      ⟨h.agrees.memory, h.agrees.input, written⟩, ?_, h.placed⟩
    show (before.flatten ++ idle').length + 1 = beginning texts (m.pc + 1)
    rw [next]
    simp
    omega

/-- The text before the opening bracket of a loop. -/
def LoopText.outside (loop : LoopText texts) : List Char :=
  loop.before.flatten ++ loop.opening

/-- The text between the brackets of a loop. -/
def LoopText.body (loop : LoopText texts) : List Char :=
  loop.inner.flatten ++ loop.closing

theorem LoopText.around (loop : LoopText texts) (whole : text = texts.flatten ++ idle) :
    text = loop.outside ++ '[' :: (loop.body ++ ']' :: (loop.later.flatten ++ idle)) := by
  obtain ⟨before, opening, inner, closing, later, rfl, -, -, -⟩ := loop
  rw [whole]
  simp [outside, body]

/-- Where the texts of a loop begin, and what is behind it. -/
theorem LoopText.beginnings (loop : LoopText texts) :
    beginning texts loop.before.length = loop.before.flatten.length ∧
    beginning texts (loop.before.length + 1) = (loop.outside ++ ['[']).length ∧
    beginning texts (loop.before.length + 1 + loop.inner.length) =
      (loop.outside ++ '[' :: loop.inner.flatten).length ∧
    beginning texts (loop.before.length + 1 + loop.inner.length + 1) =
      (loop.outside ++ '[' :: (loop.body ++ [']'])).length := by
  obtain ⟨before, opening, inner, closing, later, split, -, -, -⟩ := loop
  let first := before ++ [opening ++ ['[']]
  have one : texts = first ++ (inner ++ (closing ++ [']']) :: later) := by simp [first, split]
  have two : texts = (first ++ inner) ++ (closing ++ [']']) :: later := by simp [one]
  have three : texts = (first ++ inner ++ [closing ++ [']']]) ++ later := by simp [one]
  refine ⟨beginning_of_split split rfl, ?_, ?_, ?_⟩
  · rw [beginning_of_split one (by simp [first])]
    simp [first, outside]
  · rw [beginning_of_split two (by simp [first]; omega)]
    simp [first, outside, Nat.add_left_comm]
  · rw [beginning_of_split three (by simp [first]; omega)]
    simp [first, outside, body, Nat.add_comm, Nat.add_left_comm]

/-- The opening bracket of a loop takes the interpreter into the loop or behind it. -/
theorem Abreast.opening {finish : Nat} (h : Abreast texts m s)
    (whole : text = texts.flatten ++ idle) (loop : LoopText texts)
    (here : m.pc = loop.before.length)
    (jump : finish = loop.before.length + 1 + loop.inner.length + 1) :
    ∃ n t, after? (step? text) (n + 1) s = some t ∧
      Abreast texts (m.execute ⟨.loopStart, finish⟩) t := by
  obtain ⟨first, entered, -, passed⟩ := loop.beginnings
  have place : s.place = loop.before.flatten.length := by rw [h.place, here, first]
  have around := loop.around whole
  have around' : text = loop.before.flatten ++
      (loop.opening ++ '[' :: (loop.body ++ ']' :: (loop.later.flatten ++ idle))) := by
    simpa [LoopText.outside] using around
  refine ⟨loop.opening.length, _, after?_idle_char around' loop.idleOpening place, ?_⟩
  have arrived : Agrees m { s with place := loop.outside.length } :=
    ⟨h.agrees.memory, h.agrees.input, h.agrees.output⟩
  show Abreast texts _ (Plain.execute text { s with place := loop.outside.length } '[')
  simp only [Machine.execute, execute, arrived.current h.placed]
  by_cases zero : m.tape.current = 0
  · rw [if_pos zero, if_pos zero, behindClosing_eq around loop.nested]
    exact ⟨⟨h.agrees.memory, h.agrees.input, h.agrees.output⟩, (jump ▸ passed).symm, h.placed⟩
  · rw [if_neg zero, if_neg zero]
    refine ⟨⟨h.agrees.memory, h.agrees.input, h.agrees.output⟩, ?_, h.placed⟩
    show loop.outside.length + 1 = beginning texts (m.pc + 1)
    rw [here, entered]
    simp

/-- The closing bracket of a loop takes the interpreter behind one of the two brackets. -/
theorem Abreast.closing {start : Nat} (h : Abreast texts m s)
    (whole : text = texts.flatten ++ idle) (loop : LoopText texts)
    (here : m.pc = loop.before.length + 1 + loop.inner.length)
    (jump : start = loop.before.length + 1) :
    ∃ n t, after? (step? text) (n + 1) s = some t ∧
      Abreast texts (m.execute ⟨.loopEnd, start⟩) t := by
  obtain ⟨-, entered, last, passed⟩ := loop.beginnings
  have place : s.place = (loop.outside ++ '[' :: loop.inner.flatten).length := by
    rw [h.place, here, last]
  have around := loop.around whole
  have around' : text = (loop.outside ++ '[' :: loop.inner.flatten) ++
      (loop.closing ++ ']' :: (loop.later.flatten ++ idle)) := by
    simpa [LoopText.body] using around
  refine ⟨loop.closing.length, _, after?_idle_char around' loop.idleClosing place, ?_⟩
  -- The idle text before the closing bracket belongs to what lies between the two brackets.
  have same : loop.outside ++ '[' :: loop.inner.flatten ++ loop.closing =
      loop.outside ++ '[' :: loop.body := by simp [LoopText.body]
  have arrived : Agrees m { s with place := (loop.outside ++ '[' :: loop.body).length } :=
    ⟨h.agrees.memory, h.agrees.input, h.agrees.output⟩
  rw [same]
  simp only [Machine.execute, execute, arrived.current h.placed]
  by_cases zero : m.tape.current = 0
  · rw [if_pos zero, if_pos zero]
    refine ⟨⟨h.agrees.memory, h.agrees.input, h.agrees.output⟩, ?_, h.placed⟩
    show (loop.outside ++ '[' :: loop.body).length + 1 = beginning texts (m.pc + 1)
    rw [here, passed]
    simp
    omega
  · rw [if_neg zero, if_neg zero, behindOpening_eq around loop.nested]
    exact ⟨⟨h.agrees.memory, h.agrees.input, h.agrees.output⟩, (jump ▸ entered).symm, h.placed⟩

/-! ### Whole runs -/

/-- The machine and the interpreter of its text. -/
theorem refines_text {p : Program} (closed : Closed 0 p.instructions.toList texts)
    (quiet : Idle idle) (whole : text = texts.flatten ++ idle) :
    Refines (Machine.step? p) (step? text) (Abreast texts) Agrees where
  advances := by
    intro m s next h stepped
    obtain ⟨i, found, rfl⟩ := Option.map_eq_some_iff.mp stepped
    have found' : p.instructions.toList[m.pc]? = some i := by simpa [Program.get?] using found
    cases closed.located found' with
    | plain before chunk later split here spells => exact h.spelled whole split here spells
    | opening loop here jump => exact h.opening whole loop here (by omega)
    | closing loop here jump => exact h.closing whole loop here (by omega)
  finishes := by
    intro m s h stepped
    have ended : p.instructions.size ≤ m.pc :=
      Array.getElem?_eq_none_iff.mp (Machine.step?_eq_none_iff.mp stepped)
    have long := closed.length_eq
    have place : s.place = texts.flatten.length := by
      rw [h.place, beginning, List.take_of_length_le]
      rw [← long, Array.length_toList]
      exact ended
    -- Only idle text is left.
    have ran := after?_quiet (show text = texts.flatten ++ idle ++ [] by simpa using whole) place
      quiet.quiet
    rw [quiet.still] at ran
    refine ⟨_, ⟨idle.length, ran, ?_⟩, h.agrees.memory, h.agrees.input, h.agrees.output⟩
    simp [step?, whole]

/-- The first instruction and the first character. -/
theorem abreast_start (texts : List (List Char)) (input : List UInt8) :
    Abreast texts { input } { input } :=
  ⟨⟨Tape.memory_empty.symm, rfl, rfl⟩, rfl, Tape.placed_empty⟩

/-- A program runs as its text does: it finishes if and only if plain interpretation of the text
ends, and then with the same output, the same input left, the pointer at the same address and the
same byte at every address. On the way it is always where plain interpretation comes too. -/
theorem run_agrees_with_text {byLine : Bool} {source : String} {p : Program}
    (h : Program.ofSource byLine source = .ok p) (input : List UInt8) :
    let d := Debugger.ofProgram p input {}
    let plain := Plain.step? source.toList
    ((∃ fuel e, d.run fuel = (e, some .finished)) ↔ ∃ s, Ends plain { input } s) ∧
    (∀ fuel e outcome, d.run fuel = (e, some outcome) → outcome = .finished ∧
      ∀ s, Ends plain { input } s →
        e.machine.output = s.output ∧ e.machine.input = s.input ∧
        e.machine.tape.pointer = s.memory.pointer ∧
        ∀ address, e.machine.tape.readAt address = s.memory.cells address) ∧
    (∀ fuel e, d.run fuel = (e, none) →
      ∃ n s, after? plain n { input } = some s ∧ Agrees e.machine s) := by
  intro d plain
  obtain ⟨texts, idle, closed, quiet, whole⟩ := layout_of_ofSource h
  have refines := refines_text closed quiet whole
  have start := abreast_start texts input
  have unhindered : d.reset.Unhindered := ⟨rfl, rfl, rfl, rfl, fun _ => ⟨rfl, rfl⟩⟩
  have unmarked : d.reset.Unmarked := by
    intro index
    simp [d, Debugger.reset, Debugger.ofProgram, Array.getElem?_replicate]
    split <;> rfl
  refine ⟨⟨?_, ?_⟩, ?_, ?_⟩
  · rintro ⟨fuel, e, finished⟩
    obtain ⟨-, ends⟩ := unhindered.finished_of_advance unmarked finished
    obtain ⟨s, ends', -⟩ := refines.ends start ends
    exact ⟨s, ends'⟩
  · rintro ⟨s, ends⟩
    obtain ⟨m, ends', -⟩ := refines.ends_of_fine start ends
    obtain ⟨fuel, e, finished, -⟩ := (unhindered.advance_iff unmarked .finished m).mpr ⟨rfl, ends'⟩
    exact ⟨fuel, e, finished⟩
  · intro fuel e outcome returned
    obtain ⟨finished, ends⟩ := unhindered.finished_of_advance unmarked returned
    obtain ⟨t, ends', agrees⟩ := refines.ends start ends
    refine ⟨finished, fun s last => ?_⟩
    obtain rfl : t = s := ends'.unique last
    have memory := agrees.memory
    refine ⟨agrees.output.symm, agrees.input.symm, ?_, fun address => ?_⟩
    · rw [memory]
      rfl
    · rw [memory]
      rfl
  · intro fuel e unfinished
    have reached := unhindered.after?_of_advance unmarked unfinished
    obtain ⟨n, s, there, abreast⟩ := refines.reaches start reached
    exact ⟨n, s, there, abreast.agrees⟩

/-- A text with comments, with operators that cancel and with a loop on two lines: the byte that is
read is moved to the next cell and written from there, by the program and by the text. -/
theorem moved_byte_agrees_with_text :
    let source := "read+-,[>+\n<-]>.<"
    ∃ p, Program.ofSource true source = .ok p ∧
      (∃ fuel e, (Debugger.ofProgram p [3] {}).run fuel = (e, some .finished)) ∧
      ∃ s, Ends (step? source.toList) { input := [3] } s ∧ s.output = #[3] := by
  intro source
  have ran : (match Program.ofSource true source with
      | .ok p =>
        let after := (Debugger.ofProgram p [3] {}).run 100
        after.2 = some .finished && after.1.machine.output = #[3]
      | .error _ => false) = true := by decide +kernel
  cases h : Program.ofSource true source with
  | error fault => simp [h] at ran
  | ok p =>
    simp only [h, Bool.and_eq_true, decide_eq_true_eq] at ran
    obtain ⟨finished, output⟩ := ran
    have ended : (Debugger.ofProgram p [3] {}).run 100 = (_, some .finished) :=
      Prod.ext rfl finished
    obtain ⟨halts, ends, -⟩ := run_agrees_with_text h [3]
    obtain ⟨s, last⟩ := halts.mp ⟨100, _, ended⟩
    obtain ⟨same, -⟩ := (ends 100 _ _ ended).2 s last
    exact ⟨p, rfl, ⟨100, _, ended⟩, s, last, same ▸ output⟩

end Brainfuck
