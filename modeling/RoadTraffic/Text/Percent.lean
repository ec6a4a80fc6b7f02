import RoadTraffic.Bits.Basic

/-!
# Percent escapes

A text becomes part of a URL by writing its UTF-8 bytes: letters, digits and `-` `_` `.` `~` stand
for themselves, every other byte is written as `%` and two hexadecimal digits.

* `Percent.escape`: a text as part of a URL.
-/

namespace RoadTraffic

namespace Percent

/-- The hexadecimal digit of `n`, a number below 16, in upper case. -/
def hexDigit (n : Nat) : Char := if n < 10 then Char.ofNat (48 + n) else Char.ofNat (55 + n)

/-- The `byte` as an escape. -/
def escapeByte (byte : UInt8) : List Char :=
  ['%', hexDigit (byte.toNat / 16), hexDigit (byte.toNat % 16)]

/-- The bytes that stand for themselves in every URL. -/
def isUnreserved (byte : UInt8) : Bool :=
  let c := Char.ofNat byte.toNat
  c.isAlphanum || c == '-' || c == '_' || c == '.' || c == '~'

/-- The `bytes` of a text, those that do not stand for themselves as escapes. -/
def escapeBytes (standsForItself : UInt8 → Bool) (bytes : Bytes) : List Char :=
  bytes.flatMap fun byte =>
    if standsForItself byte then [Char.ofNat byte.toNat] else escapeByte byte

/-- The UTF-8 bytes of a `text`. -/
def bytesOf (text : String) : Bytes := text.toUTF8.data.toList

/-- A `text` as part of a URL: only what `isUnreserved` stands for itself. -/
def escape (text : String) : String := String.ofList (escapeBytes isUnreserved (bytesOf text))

end Percent

end RoadTraffic
