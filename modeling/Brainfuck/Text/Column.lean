/-! Texts set in columns of a fixed width. A text that is wider than its column keeps its width;
only `truncate` shortens. Width is counted in characters. -/
namespace Brainfuck.Text.Column

def blanks (count : Nat) : String :=
  String.ofList (List.replicate count ' ')

def left (width : Nat) (text : String) : String :=
  text ++ blanks (width - text.length)

def right (width : Nat) (text : String) : String :=
  blanks (width - text.length) ++ text

/-- Sets a text in the middle of its column; an odd blank goes to the right. -/
def center (width : Nat) (text : String) : String :=
  let spare := width - text.length
  blanks (spare / 2) ++ text ++ blanks (spare - spare / 2)

def truncate (width : Nat) (text : String) : String :=
  String.ofList (text.toList.take width)

@[simp] theorem length_blanks (count : Nat) : (blanks count).length = count := by
  simp [blanks]

/-- A text set at the left fills its column. -/
theorem length_left (width : Nat) (text : String) :
    (left width text).length = max width text.length := by
  simp only [left, String.length_append, length_blanks]
  omega

theorem length_right (width : Nat) (text : String) :
    (right width text).length = max width text.length := by
  simp only [right, String.length_append, length_blanks]
  omega

end Brainfuck.Text.Column
