/-! Numerals: an optional sign and at least one decimal digit. A numeral counts only if its value
fits the 64-bit range it is read for, so nothing wraps and nothing is cut off. -/
namespace Brainfuck.Text.Numeral

/-- The counts are the numbers below 2^64. -/
def countBound : Nat :=
  18446744073709551616

/-- The integers reach from -2^63 to just below 2^63. -/
def integerBound : Int :=
  9223372036854775808

def digit? (c : Char) : Option Nat :=
  if '0' ≤ c ∧ c ≤ '9' then some (c.toNat - '0'.toNat) else none

def appendDigits? (value : Nat) : List Char → Option Nat
  | [] => some value
  | c :: rest =>
    match digit? c with
    | some d => appendDigits? (10 * value + d) rest
    | none => none

def digits? : List Char → Option Nat
  | [] => none
  | row => appendDigits? 0 row

/-- A row of digits behind an optional plus sign. -/
def unsigned? : List Char → Option Nat
  | '+' :: row => digits? row
  | row => digits? row

/-- A row of digits behind an optional sign. -/
def signed? : List Char → Option Int
  | '-' :: row => (digits? row).map fun value => -(value : Int)
  | row => (unsigned? row).map Int.ofNat

/-- A count below 2^64. A minus sign is refused, also in front of zero. -/
def count? (text : String) : Option Nat :=
  (unsigned? text.toList).filter (· < countBound)

/-- An integer from -2^63 to 2^63 - 1. -/
def integer? (text : String) : Option Int :=
  (signed? text.toList).filter fun value => -integerBound ≤ value && value < integerBound

end Brainfuck.Text.Numeral
