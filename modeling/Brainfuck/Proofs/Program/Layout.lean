import Brainfuck.Program
import Brainfuck.Proofs.Plain.Spelling

/-!
# Programs and their text

Which instructions belong to which text: `Closed` for text in which every bracket has its partner,
`Layers` for text with brackets that still wait for theirs. Both grow at their end, as a text is
read. `Closed.located` finds an instruction's text again, and for a bracket also its partner's.
-/

namespace Brainfuck

open Plain

/-- Instructions and the text of each. The first one has a given index; a bracket goes on behind
its partner. -/
inductive Closed : Nat → List Instruction → List (List Char) → Prop
  | nil {first : Nat} : Closed first [] []
  | plain {first : Nat} {is : List Instruction} {texts : List (List Char)} {i : Instruction}
      {text : List Char} (before : Closed first is texts) (spells : Spells i text) :
      Closed first (is ++ [i]) (texts ++ [text])
  | loop {first start finish : Nat} {is js : List Instruction} {texts inner : List (List Char)}
      {p q : List Char} (before : Closed first is texts) (body : Closed start js inner)
      (opening : Idle p) (closing : Idle q) (starts : start = first + is.length + 1)
      (finishes : finish = start + js.length + 1) :
      Closed first (is ++ ⟨.loopStart, finish⟩ :: (js ++ [⟨.loopEnd, start⟩]))
        (texts ++ (p ++ ['[']) :: (inner ++ [q ++ [']']]))

/-- Instructions and the text of each, with the indices of the brackets that wait, the innermost
first. Behind each of them every bracket has its partner, up to the next one that waits. -/
inductive Layers : List Nat → List Instruction → List (List Char) → Prop
  | ground {is : List Instruction} {texts : List (List Char)} (closed : Closed 0 is texts) :
      Layers [] is texts
  | inner {outer : List Nat} {is js : List Instruction} {texts inner : List (List Char)}
      {p : List Char} (before : Layers outer is texts) (opening : Idle p)
      (body : Closed (is.length + 1) js inner) :
      Layers (is.length :: outer) (is ++ ⟨.loopStart, 0⟩ :: js) (texts ++ (p ++ ['[']) :: inner)

variable {first : Nat} {is : List Instruction} {texts : List (List Char)} {i : Instruction}
  {text p q : List Char} {indices outer : List Nat}

theorem Closed.length_eq (h : Closed first is texts) : is.length = texts.length := by
  induction h with
  | nil => rfl
  | plain _ _ ih => simp [ih]
  | loop _ _ _ _ _ _ ih ih' => simp [ih, ih']

theorem Closed.nested (h : Closed first is texts) : Nested texts.flatten := by
  induction h with
  | nil => exact nested_of_notMem (by simp) (by simp)
  | plain _ spells ih =>
    rw [List.flatten_append]
    exact ih.append (by simpa using spells.nested)
  | @loop _ _ _ _ _ _ inner p q _ _ opening closing _ _ ih ih' =>
    have body : Nested (inner.flatten ++ q) := ih'.append (nested_of_quiet closing.quiet)
    rw [List.flatten_append]
    refine ih.append ?_
    have whole := (nested_of_quiet opening.quiet).append body.loop
    simpa using whole

/-! ### Growing -/

theorem Layers.plain (h : Layers indices is texts) (spells : Spells i text) :
    Layers indices (is ++ [i]) (texts ++ [text]) := by
  cases h with
  | ground closed => exact .ground (closed.plain spells)
  | inner before opening body => simpa using Layers.inner before opening (body.plain spells)

theorem Layers.loop {js : List Instruction} {inner : List (List Char)} {start finish : Nat}
    (h : Layers outer is texts) (opening : Idle p) (body : Closed start js inner)
    (closing : Idle q) (starts : start = is.length + 1)
    (finishes : finish = start + js.length + 1) :
    Layers outer (is ++ ⟨.loopStart, finish⟩ :: (js ++ [⟨.loopEnd, start⟩]))
      (texts ++ (p ++ ['[']) :: (inner ++ [q ++ [']']])) := by
  cases h with
  | ground closed => exact .ground (closed.loop body opening closing (by omega) finishes)
  | inner before opening' body' =>
    have starts' := starts
    rw [List.length_append, List.length_cons] at starts'
    have longer := body'.loop body opening closing (by omega) finishes
    simpa using Layers.inner before opening' longer

/-- The innermost bracket gets its partner. -/
theorem Layers.close {index : Nat} (h : Layers (index :: outer) is texts) (closing : Idle q) :
    ∃ more, more.flatten = texts.flatten ++ (q ++ [']']) ∧
      Layers outer
        ((is ++ [⟨.loopEnd, index + 1⟩] : List Instruction).set index ⟨.loopStart, is.length + 1⟩)
        more := by
  cases h with
  | @inner _ is js texts inner p before opening body =>
    refine ⟨texts ++ (p ++ ['[']) :: (inner ++ [q ++ [']']]), by simp, ?_⟩
    have linked (waits opened closed : Instruction) :
        ((is ++ waits :: js) ++ [closed]).set is.length opened = is ++ opened :: (js ++ [closed]) := by
      simp [List.set_append_right]
    rw [linked]
    refine before.loop opening body closing rfl ?_
    rw [List.length_append, List.length_cons]
    omega

/-- A bracket that waits does not lead anywhere yet. -/
theorem Layers.waits {index : Nat} (h : Layers indices is texts) (waiting : index ∈ indices) :
    is[index]? = some ⟨.loopStart, 0⟩ := by
  induction h with
  | ground => cases waiting
  | @inner outer is js texts inner p before opening body ih =>
    rcases List.mem_cons.mp waiting with rfl | waiting
    · simp
    · have found := ih waiting
      rw [List.getElem?_append_left (List.getElem?_eq_some_iff.mp found).1, found]

/-! ### Shrinking -/

theorem Closed.of_snoc {all : List Instruction} (h : Closed first all texts)
    (last : all = is ++ [i]) (counted : i.operator.isCounted = true) :
    ∃ before text, texts = before ++ [text] ∧ Spells i text ∧ Closed first is before := by
  cases h with
  | nil => simp at last
  | plain before spells =>
    obtain ⟨rfl, same⟩ := List.append_inj' last rfl
    obtain rfl := List.singleton_inj.mp same
    exact ⟨_, _, rfl, spells, before⟩
  | @loop _ start finish is' js _ _ _ _ _ _ _ _ _ _ =>
    -- A loop ends with a bracket, and brackets are not counted.
    have last' : (is' ++ ⟨.loopStart, finish⟩ :: js) ++ [⟨.loopEnd, start⟩] = is ++ [i] := by
      simpa using last
    obtain ⟨-, same⟩ := List.append_inj' last' rfl
    rw [← List.singleton_inj.mp same] at counted
    cases counted

/-- The last instruction and its text can be taken away, unless it is a bracket. -/
theorem Layers.of_snoc {all : List Instruction} (h : Layers indices all texts)
    (last : all = is ++ [i]) (counted : i.operator.isCounted = true) :
    ∃ before text, texts = before ++ [text] ∧ Spells i text ∧ Layers indices is before := by
  cases h with
  | ground closed =>
    obtain ⟨before, text, same, spells, closed'⟩ := closed.of_snoc last counted
    exact ⟨before, text, same, spells, .ground closed'⟩
  | @inner outer is' js texts inner p before opening body =>
    rcases List.eq_nil_or_concat js with rfl | ⟨js', j, rfl⟩
    · obtain ⟨-, same⟩ := List.append_inj' last rfl
      rw [← List.singleton_inj.mp same] at counted
      cases counted
    · have last' : (is' ++ ⟨.loopStart, 0⟩ :: js') ++ [j] = is ++ [i] := by simpa using last
      obtain ⟨rfl, same⟩ := List.append_inj' last' rfl
      obtain rfl := List.singleton_inj.mp same
      obtain ⟨inner', text, rfl, spells, body'⟩ := body.of_snoc List.concat_eq_append counted
      exact ⟨texts ++ (p ++ ['[']) :: inner', text, by simp, spells, .inner before opening body'⟩

/-! ### Finding an instruction's text -/

/-- A loop among texts: what stands before its two brackets, between them and behind them. -/
structure LoopText (texts : List (List Char)) where
  before : List (List Char)
  opening : List Char
  inner : List (List Char)
  closing : List Char
  later : List (List Char)
  split : texts = before ++ (opening ++ ['[']) :: (inner ++ (closing ++ [']']) :: later)
  idleOpening : Idle opening
  idleClosing : Idle closing
  nested : Nested (inner.flatten ++ closing)

/-- The text of the instruction at a place, the first place having a given index. -/
inductive Located (first : Nat) (texts : List (List Char)) (place : Nat) : Instruction → Prop
  | plain {i : Instruction} (before : List (List Char)) (text : List Char)
      (later : List (List Char)) (split : texts = before ++ text :: later)
      (here : place = before.length) (spells : Spells i text) : Located first texts place i
  | opening {finish : Nat} (loop : LoopText texts) (here : place = loop.before.length)
      (jump : finish = first + loop.before.length + 1 + loop.inner.length + 1) :
      Located first texts place ⟨.loopStart, finish⟩
  | closing {start : Nat} (loop : LoopText texts)
      (here : place = loop.before.length + 1 + loop.inner.length)
      (jump : start = first + loop.before.length + 1) :
      Located first texts place ⟨.loopEnd, start⟩

/-- A loop stays where it is when text is added behind it. -/
def LoopText.append (l : LoopText texts) (more : List (List Char)) : LoopText (texts ++ more) :=
  { l with later := l.later ++ more, split := by simp [l.split] }

/-- A loop goes with its text when text is added before it. -/
def LoopText.prepend (l : LoopText texts) (pre : List (List Char)) : LoopText (pre ++ texts) :=
  { l with before := pre ++ l.before, split := by simp [l.split] }

theorem Located.append {place : Nat} (h : Located first texts place i)
    (more : List (List Char)) : Located first (texts ++ more) place i := by
  cases h with
  | plain before text later split here spells =>
    exact .plain before text (later ++ more) (by simp [split]) here spells
  | opening loop here jump => exact .opening (loop.append more) here jump
  | closing loop here jump => exact .closing (loop.append more) here jump

theorem Located.prepend {place start : Nat} (h : Located start texts place i)
    (pre : List (List Char)) (starts : start = first + pre.length) :
    Located first (pre ++ texts) (pre.length + place) i := by
  cases h with
  | plain before text later split here spells =>
    exact .plain (pre ++ before) text later (by simp [split]) (by simp [here]) spells
  | opening loop here jump =>
    refine .opening (loop.prepend pre) ?_ ?_ <;> simp only [LoopText.prepend, List.length_append]
    · omega
    · omega
  | closing loop here jump =>
    refine .closing (loop.prepend pre) ?_ ?_ <;> simp only [LoopText.prepend, List.length_append]
    · omega
    · omega

/-- Every instruction has its text. -/
theorem Closed.located (h : Closed first is texts) {place : Nat}
    (found : is[place]? = some i) : Located first texts place i := by
  induction h generalizing place with
  | nil => simp at found
  | @plain first is texts j text before spells ih =>
    rcases Nat.lt_or_ge place is.length with lt | ge
    · rw [List.getElem?_append_left lt] at found
      exact (ih found).append _
    · rw [List.getElem?_append_right ge] at found
      obtain ⟨last, rfl⟩ := List.getElem?_eq_some_iff.mp found
      have here : place = texts.length := by
        rw [← before.length_eq]
        simp at last
        omega
      exact .plain texts text [] (by simp) here (by simpa using spells)
  | @loop first start finish is js texts inner p q before body opening closing starts finishes
      ih ih' =>
    let loop : LoopText (texts ++ (p ++ ['[']) :: (inner ++ [q ++ [']']])) :=
      { before := texts, opening := p, inner, closing := q, later := [], split := rfl
        idleOpening := opening, idleClosing := closing
        nested := body.nested.append (nested_of_quiet closing.quiet) }
    have outside := before.length_eq
    have inside := body.length_eq
    rcases Nat.lt_trichotomy place is.length with lt | rfl | gt
    · rw [List.getElem?_append_left lt] at found
      exact (ih found).append _
    · obtain rfl : ⟨.loopStart, finish⟩ = i := by simpa using found
      exact .opening loop outside (by show finish = first + texts.length + 1 + inner.length + 1; omega)
    · obtain ⟨k, rfl⟩ : ∃ k, place = is.length + 1 + k := ⟨place - is.length - 1, by omega⟩
      rw [List.getElem?_append_right (by omega), show is.length + 1 + k - is.length = k + 1 by omega,
        List.getElem?_cons_succ] at found
      rcases Nat.lt_or_ge k js.length with lt | ge
      · rw [List.getElem?_append_left lt] at found
        have starts' : start = first + (texts ++ [p ++ ['[']]).length := by
          rw [List.length_append, List.length_singleton]
          omega
        have within := ((ih' found).prepend _ starts').append [q ++ [']']]
        simpa [outside] using within
      · rw [List.getElem?_append_right ge] at found
        obtain ⟨last, rfl⟩ := List.getElem?_eq_some_iff.mp found
        have here : k = js.length := by
          rw [List.length_singleton] at last
          omega
        subst here
        simp only [Nat.sub_self, List.getElem_cons_zero]
        refine .closing loop ?_ ?_
        · show is.length + 1 + js.length = texts.length + 1 + inner.length
          omega
        · show start = first + texts.length + 1
          omega

end Brainfuck
