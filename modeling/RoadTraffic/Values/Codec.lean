import RoadTraffic.Bits.Reader
import RoadTraffic.Bits.Writer
import RoadTraffic.SpeedGroup
import RoadTraffic.Values.Error
import RoadTraffic.Zlib.Decompressor
import RoadTraffic.Zlib.Deflate

/-!
# Packed values

The speed groups of a map, in the order of its key list, are packed as a version byte, their number
as a variable-length number and three bits for each, and the whole is deflated. The reader inflates
no more than `maxPackedLength` of the allowed number. It may do so in one go or piece by piece; what
is made of the bytes is the same.

* `Values.encode`: packs speed groups.
* `Values.decodeWithLimit`: unpacks them, inflated in one go by `Zlib.inflate`.
* `Values.decodeStream`: unpacks them, inflated piece by piece by a `Zlib.Decompressor`.
-/

namespace RoadTraffic

namespace Values

/-- The largest number of the machine. -/
def maxWord : Nat := Bits.maxWord

/-- The most values that are unpacked where no other limit is given. -/
def maxValues : Nat := 0x1000000

/-! ## Packing -/

/-- Writes the codes of `groups`, each in `SpeedGroup.width` bits. -/
def writeGroups (writer : BitWriter) (groups : List SpeedGroup) : BitWriter :=
  groups.foldl (fun writer group => writer.append (Bits.ofNat SpeedGroup.width group.code)) writer

/-- Packs speed groups, not deflated: the bytes that a stream of values stands for. -/
def pack (groups : List SpeedGroup) : Bytes :=
  let writer := BitWriter.new (UInt8.ofNat version :: Varint.encode groups.length)
  (writeGroups writer groups).toBytes

/-- Packs speed groups: the stream that stands for `pack groups`. -/
def encode (groups : List SpeedGroup) : Bytes := Zlib.deflate (pack groups)

/-! ## Unpacking -/

/-- The most bytes that `count` packed values take up: a version byte, a number of
`Varint.maxLength` bytes at most and the bits of the values. What does not fit in a word counts as
the largest word. -/
def maxPackedLength (count : Nat) : Nat :=
  let bits := min maxWord (count * SpeedGroup.width)
  min maxWord (11 + (bits + 7) / 8)

/-- Reads `count` speed groups, behind those in `done`, last one first. -/
def readGroups (done : List SpeedGroup) :
    (count : Nat) → BitReader → Except ValuesError (List SpeedGroup × BitReader)
  | 0, reader => .ok (done.reverse, reader)
  | count + 1, reader =>
    match reader.read SpeedGroup.width with
    | (.error e, _) => .error (.bitStream e)
    | (.ok code, reader) =>
      match SpeedGroup.ofCode? code with
      | none => .error (.invalidSpeedGroup code)
      | some group => readGroups (group :: done) count reader

/-- Reads `count` speed groups, which take up the whole of the bits ahead of the `reader`. -/
def readAll (count : Nat) (reader : BitReader) : Except ValuesError (List SpeedGroup) := do
  let (groups, reader) ← readGroups [] count reader
  match reader.finish with
  | .error e => .error (.bitStream e)
  | .ok () => .ok groups

/-- Unpacks at most `limit` speed groups that are not deflated. What is announced is checked before
it is read, first against the `limit` and then against the bits there are. -/
def unpack (bytes : Bytes) (limit : Nat) : Except ValuesError (List SpeedGroup) :=
  match bytes with
  | [] => .error .empty
  | found :: body =>
    if found.toNat ≠ version then .error (.unsupportedVersion found.toNat)
    else
      match Varint.decode body with
      | .error e => .error (.valueCount e)
      | .ok (count, rest) =>
        let bits := rest.length * 8
        if count > limit then .error (.tooManyValues count limit)
        else if count * SpeedGroup.width > bits then .error (.implausibleValueCount count bits)
        else readAll count (.new rest)

/-- What is made of the bytes of a stream, or of the reason why there are none, which is the cause
of `.stream`. -/
def decodeInflated (inflated : Except ZlibError Bytes) (limit : Nat) :
    Except ValuesError (List SpeedGroup) :=
  match inflated with
  | .error e => .error (.stream e)
  | .ok packed => unpack packed limit

/-- Unpacks at most `limit` speed groups, inflated in one go. -/
def decodeWithLimit (bytes : Bytes) (limit : Nat) : Except ValuesError (List SpeedGroup) :=
  decodeInflated (Zlib.inflate bytes (maxPackedLength limit)) limit

/-- Unpacks at most `limit` speed groups, which the `decompressor` inflates piece by piece. -/
def decodeStream (decompressor : Zlib.Decompressor) (bytes : Bytes) (limit : Nat) :
    Except ValuesError (List SpeedGroup) :=
  decodeInflated (decompressor.inflate bytes (maxPackedLength limit)) limit

/-- Unpacks at most `maxValues` speed groups. -/
def decode (bytes : Bytes) : Except ValuesError (List SpeedGroup) := decodeWithLimit bytes maxValues

end Values

end RoadTraffic
