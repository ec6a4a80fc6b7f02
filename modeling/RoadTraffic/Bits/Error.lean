/-!
# Faults of a bit stream

The ways in which reading or writing a bit stream fails, and their wording.
-/

namespace RoadTraffic

/-- Why a bit stream cannot be read or written. -/
inductive BitError where
  /-- A field of `wanted` bits was asked for with `available` bits left. -/
  | endOfStream (wanted available : Nat)
  /-- Whole bytes are left after the last field. -/
  | trailingBytes (count : Nat)
  /-- The bits that fill up the last byte are not all zero. -/
  | nonZeroPadding
  /-- A gamma code starts with more zeros than any word has bits. -/
  | gammaOverflow
  /-- A field wider than a word was asked for. -/
  | wideRead (count : Nat)
  /-- A field wider than a word was handed in. -/
  | wideWrite (count : Nat)
  deriving DecidableEq, Repr

/-- The wording of a fault, with the counts that it carries. -/
def BitError.message : BitError → String
  | .endOfStream wanted available =>
    s!"Unexpected end of bit stream: wanted {wanted} bits, but only {available} remain"
  | .trailingBytes count => s!"The bit stream has {count} trailing byte(s) after the last value"
  | .nonZeroPadding => "The padding bits of the final byte are not zero"
  | .gammaOverflow => "Gamma code prefix is longer than 63 bits; the stream is corrupt"
  | .wideRead count => s!"Cannot read {count} bits into a u64"
  | .wideWrite count => s!"Cannot write {count} bits from a u64"

namespace Bits

/-- The widest field: a word of 64 bits. -/
def wordWidth : Nat := 64

/-- The largest word, `2 ^ wordWidth - 1`. -/
def maxWord : Nat := 0xFFFFFFFFFFFFFFFF

end Bits

end RoadTraffic
