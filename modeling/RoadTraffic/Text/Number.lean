/-!
# Whole numbers in text

A whole number is written in decimal digits after an optional sign, and must fit in a signed word.

* `Number.parse?`: the number that a text spells.
-/

namespace RoadTraffic

namespace Number

/-- Whether a character is a decimal digit. -/
def isDigit (c : Char) : Bool := '0' ≤ c && c ≤ '9'

/-- The number with the given `digits`, highest first. -/
def ofDigits (digits : List Char) : Nat :=
  digits.foldl (fun n c => 10 * n + (c.toNat - '0'.toNat)) 0

/-- Whether `n` fits in a signed word of 64 bits. -/
def fitsWord (n : Int) : Bool := -0x8000000000000000 ≤ n && n < 0x8000000000000000

/-- Takes the sign off a number: whether it is negative, and its digits. -/
def takeSign : List Char → Bool × List Char
  | '-' :: digits => (true, digits)
  | '+' :: digits => (false, digits)
  | digits => (false, digits)

/-- The number that a `text` spells, if it spells one that `fitsWord`. At least one digit must be
there. -/
def parse? (text : List Char) : Option Int :=
  let (negative, digits) := takeSign text
  let magnitude : Int := ofDigits digits
  let n := if negative then -magnitude else magnitude
  if digits ≠ [] ∧ digits.all isDigit ∧ fitsWord n then some n else none

end Number

end RoadTraffic
