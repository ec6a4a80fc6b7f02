import RoadTraffic.Bits.Basic

/-!
# Variable-length numbers

A number is cut into groups of seven bits, lowest group first, one group to a byte; every byte but
the last carries the top bit. A reader takes at most `maxLength` bytes and numbers below `2 ^ 64`.
It accepts high groups that are zero, so that a number has longer spellings beside its shortest one.

* `Varint.encode n`: the shortest spelling of `n`.
* `Varint.decode bytes`: the number at the head of `bytes`, and what is behind it.
-/

namespace RoadTraffic

/-- Why a number cannot be read. -/
inductive VarintError where
  /-- Ten bytes carry the top bit and more bytes follow. -/
  | unterminated
  /-- The bytes end inside the number, or the number does not fit in a word. -/
  | endOfBytes
  deriving DecidableEq, Repr

/-- The wording of a fault. -/
def VarintError.message : VarintError → String
  | .unterminated => "Unterminated varint"
  | .endOfBytes => "Reached EOF"

namespace Varint

/-- The shortest spelling of `n`: its lowest seven bits, and before further bytes the top bit. -/
def encode (n : Nat) : Bytes :=
  if n < 128 then [UInt8.ofNat n] else UInt8.ofNat (n % 128 + 128) :: encode (n / 128)

/-- The longest spelling that is read: ten groups of seven bits, enough for the 64 of a word. -/
def maxLength : Nat := 10

/-- The groups of a number of at most `budget` bytes, and the bytes after it. With no budget left
the number is `.unterminated`, except at the end of the bytes. -/
def decodeFrom : (budget : Nat) → Bytes → Except VarintError (Nat × Bytes)
  | 0, [] => .error .endOfBytes
  | 0, _ :: _ => .error .unterminated
  | _ + 1, [] => .error .endOfBytes
  | budget + 1, byte :: rest =>
    if byte.toNat < 128 then .ok (byte.toNat, rest)
    else
      match decodeFrom budget rest with
      | .ok (high, rest) => .ok (byte.toNat - 128 + 128 * high, rest)
      | .error e => .error e

/-- The number at the head of `bytes`, if it is below `2 ^ 64`, and the bytes after it. -/
def decode (bytes : Bytes) : Except VarintError (Nat × Bytes) :=
  match decodeFrom maxLength bytes with
  | .ok (n, rest) => if n < 0x10000000000000000 then .ok (n, rest) else .error .endOfBytes
  | .error e => .error e

end Varint

end RoadTraffic
