/-! Colors of terminal text. -/
namespace Brainfuck

/-- A color that a terminal can set text in. -/
inductive Color
  | black
  | red
  | green
  | yellow
  | blue
  | purple
  | cyan
  | white
  | darkGray
  | lightRed
  | lightGreen
  | lightYellow
  | lightBlue
  | lightPurple
  | lightCyan
  | rgb (red green blue : UInt8)
  deriving DecidableEq

namespace Color

/-- The number that selects a color, as it stands in a control sequence. -/
def code : Color → String
  | black => "30"
  | red => "31"
  | green => "32"
  | yellow => "33"
  | blue => "34"
  | purple => "35"
  | cyan => "36"
  | white => "37"
  | darkGray => "90"
  | lightRed => "91"
  | lightGreen => "92"
  | lightYellow => "93"
  | lightBlue => "94"
  | lightPurple => "95"
  | lightCyan => "96"
  | rgb r g b => "38;2;" ++ toString r.toNat ++ ";" ++ toString g.toNat ++ ";" ++ toString b.toNat

/-- A control sequence that sets how the following text looks. -/
def control (code : String) : String :=
  "\x1b[" ++ code ++ "m"

/-- A text between the control sequences that turn a color on and off. -/
def paint (c : Color) (text : String) : String :=
  control c.code ++ text ++ control "0"

def words : List (String × Color) :=
  [("black", black), ("red", red), ("green", green), ("yellow", yellow), ("blue", blue),
    ("magenta", purple), ("purple", purple), ("cyan", cyan), ("white", white),
    ("gray", darkGray), ("grey", darkGray), ("darkgray", darkGray), ("dark_gray", darkGray),
    ("darkgrey", darkGray), ("dark_grey", darkGray), ("lightred", lightRed),
    ("light_red", lightRed), ("lightgreen", lightGreen), ("light_green", lightGreen),
    ("lightyellow", lightYellow), ("light_yellow", lightYellow), ("lightblue", lightBlue),
    ("light_blue", lightBlue), ("lightmagenta", lightPurple), ("light_magenta", lightPurple),
    ("lightcyan", lightCyan), ("light_cyan", lightCyan)]

/-- The color that a word stands for, in upper or lower case. -/
def ofWord? (word : String) : Option Color :=
  words.lookup (word.map Char.toLower)

end Color

end Brainfuck
