/-! Lists cut into pieces, either between separators, which are dropped, or behind items that end a
piece, which are kept. -/
namespace Brainfuck.Text

variable {α : Type}

/-- Puts one more item in front of the first piece. -/
def prepend (item : α) : List (List α) → List (List α)
  | [] => [[item]]
  | piece :: rest => (item :: piece) :: rest

/-- The pieces between separators. There is one piece more than there are separators, and a
piece may be empty. -/
def pieces (separates : α → Bool) (items : List α) : List (List α) :=
  items.foldr (fun item rest => if separates item then [] :: rest else prepend item rest) [[]]

/-- Cuts behind every item that ends a piece. Nothing is left for an empty last piece. -/
def cutAfter (ends : α → Bool) (items : List α) : List (List α) :=
  items.foldr (fun item rest => if ends item then [item] :: rest else prepend item rest) []

@[simp] theorem flatten_prepend (item : α) (rest : List (List α)) :
    (prepend item rest).flatten = item :: rest.flatten := by
  cases rest <;> rfl

@[simp] theorem pieces_nil (separates : α → Bool) : pieces separates [] = [[]] := rfl

theorem pieces_cons (separates : α → Bool) (item : α) (items : List α) :
    pieces separates (item :: items) =
      if separates item then [] :: pieces separates items
      else prepend item (pieces separates items) := rfl

@[simp] theorem cutAfter_nil (ends : α → Bool) : cutAfter ends [] = [] := rfl

theorem cutAfter_cons (ends : α → Bool) (item : α) (items : List α) :
    cutAfter ends (item :: items) =
      if ends item then [item] :: cutAfter ends items
      else prepend item (cutAfter ends items) := rfl

/-- Pieces hold what does not separate, in its order. -/
theorem flatten_pieces (separates : α → Bool) (items : List α) :
    (pieces separates items).flatten = items.filter (!separates ·) := by
  induction items with
  | nil => rfl
  | cons item rest ih =>
    rw [pieces_cons]
    split
    · rename_i h
      simp [h, ih]
    · rename_i h
      simp [h, ih]

/-- Items none of which separates are one piece. -/
theorem pieces_eq_singleton {separates : α → Bool} {items : List α}
    (none : ∀ item ∈ items, separates item = false) : pieces separates items = [items] := by
  induction items with
  | nil => rfl
  | cons item rest ih =>
    obtain ⟨here, later⟩ := List.forall_mem_cons.mp none
    rw [pieces_cons, here, ih later]
    rfl

/-- What was cut behind its ends is whole again when the pieces are put together. -/
theorem flatten_cutAfter (ends : α → Bool) (items : List α) :
    (cutAfter ends items).flatten = items := by
  induction items with
  | nil => rfl
  | cons item rest ih =>
    rw [cutAfter_cons]
    split
    · simp [ih]
    · rw [flatten_prepend, ih]

end Brainfuck.Text
