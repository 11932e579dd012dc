import Brainfuck.Color

/-! Colors written as three pairs of hexadecimal digits. -/
namespace Brainfuck.Color

/-- What can be wrong with the writing of a color, beyond its being none. -/
inductive Fault
  /-- One of the three pairs behind a `#` would begin or end inside a character. -/
  | splitCharacter
  deriving DecidableEq

def hexDigit? (c : Char) : Option Nat :=
  if '0' ≤ c ∧ c ≤ '9' then some (c.toNat - '0'.toNat)
  else if 'a' ≤ c ∧ c ≤ 'f' then some (c.toNat - 'a'.toNat + 10)
  else if 'A' ≤ c ∧ c ≤ 'F' then some (c.toNat - 'A'.toNat + 10)
  else none

/-- The value of a pair: two hexadecimal digits, or one behind a plus sign. -/
def hexPair? : List Char → Option UInt8
  | ['+', low] => (hexDigit? low).map UInt8.ofNat
  | [high, low] =>
    match hexDigit? high, hexDigit? low with
    | some high, some low => some (UInt8.ofNat (16 * high + low))
    | _, _ => none
  | _ => none

/-- Splits a text after a number of UTF-8 bytes, if that is between two characters. -/
def splitBytes? (count : Nat) : List Char → Option (List Char × List Char)
  | [] => if count = 0 then some ([], []) else none
  | c :: rest =>
    if count = 0 then some ([], c :: rest)
    else if count < c.utf8Size then none
    else (splitBytes? (count - c.utf8Size) rest).map fun (front, back) => (c :: front, back)

/-- The color that stands behind a `#`: six bytes make three pairs. -/
def ofHex? (digits : List Char) : Except Fault (Option Color) :=
  if (String.ofList digits).utf8ByteSize ≠ 6 then .ok none
  else
    match splitBytes? 2 digits with
    | none => .error .splitCharacter
    | some (first, rest) =>
      match splitBytes? 2 rest with
      | none => .error .splitCharacter
      | some (second, third) =>
        match hexPair? first, hexPair? second, hexPair? third with
        | some r, some g, some b => .ok (some (rgb r g b))
        | _, _, _ => .ok none

end Brainfuck.Color
