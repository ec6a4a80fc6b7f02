import RoadTraffic.Bits.Reader
import RoadTraffic.Bits.Writer

/-!
# Elias gamma codes

A positive number `v` with `n = ⌊log₂ v⌋` is written as `n` zeros, a one, and the `n` low bits of
`v`. The code tells its own length; zero has no code, so that callers add one to what they store.
-/

namespace RoadTraffic

namespace Gamma

/-- The number of bits in the code of `value`: `value.log2` on either side of a one. -/
def length (value : Nat) : Nat := 2 * value.log2 + 1

end Gamma

/-- Writes the gamma code of `value`, which is at least 1: the zeros and the one as one field, which
is `2 ^ value.log2`, and then the low bits. -/
def BitWriter.writeGamma (writer : BitWriter) (value : Nat) : Except BitError BitWriter := do
  let zeros := value.log2
  let writer ← writer.write (1 <<< zeros) (zeros + 1)
  writer.write value zeros

namespace BitReader

/-- The rest of a gamma code of which `zeros` zeros are read, if at most `budget` more bits may be
searched for the one that ends them. -/
def readGammaFrom (zeros : Nat) : (budget : Nat) → BitReader → Except BitError Nat × BitReader
  | 0, reader => (.error .gammaOverflow, reader)
  | budget + 1, reader =>
    match reader.readBit with
    | (.error e, reader) => (.error e, reader)
    | (.ok false, reader) => readGammaFrom (zeros + 1) budget reader
    | (.ok true, reader) =>
      match reader.read zeros with
      | (.error e, reader) => (.error e, reader)
      | (.ok low, reader) => (.ok (1 <<< zeros + low), reader)

/-- A gamma code. One that fails keeps what it has read: the zeros, and the one after them. -/
def readGamma (reader : BitReader) : Except BitError Nat × BitReader :=
  readGammaFrom 0 Bits.wordWidth reader

end BitReader

end RoadTraffic
