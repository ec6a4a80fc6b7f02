import RoadTraffic.Bits.Basic
import RoadTraffic.Bits.Error
import RoadTraffic.Words.Arithmetic

/-!
# Bit streams in machine words

The bits of a stream are moved a byte at a time at most: a field is put together from pieces of
bytes, and taken to pieces that fit into what is left of a byte. Here is every shift, mask and count
that this takes.

* `BitCursor`: a place in a string of bytes, and what is read from there.
* `BitBuffer`: bytes to which bits are added.
-/

namespace RoadTraffic

/-! ## Reading -/

/-- A string of bytes, and a place in it that is counted in bits. -/
structure BitCursor where
  bytes : Bytes
  position : Word

namespace BitCursor

/-- The place in front of the first bit of `bytes`. -/
def new (bytes : Bytes) : BitCursor := ⟨bytes, 0⟩

/-- The number of bits ahead of the `cursor`. It stops if the bits of `bytes` cannot be counted. -/
def remaining (cursor : BitCursor) : Checked Word := do
  let length ← Word.length cursor.bytes
  let bits ← Word.mul length.1 8
  let ahead ← Word.sub bits.1 cursor.position
  return ahead

/-- Reads the rest of a field of `count` bits, of which `filled` bits are read and make up `value`.
Every step takes what the byte at hand has of it. -/
def readFrom (count filled : BitVec 32) (value : Word) (cursor : BitCursor) :
    Checked (Word × BitCursor) :=
  if _ : filled.toNat < count.toNat then do
    let byte ← Word.item cursor.bytes (cursor.position / 8)
    let offset := Word.bitOffset cursor.position
    let ⟨room, _⟩ ← Word.sub 8 offset
    let ⟨wanted, _⟩ ← Word.sub count filled
    let take := Word.least room wanted
    let low ← Word.shiftRight (byte.toBitVec.setWidth 64) offset
    let mask ← Word.lowMask 64 take
    let piece ← Word.shiftLeft (low &&& mask) filled
    let ⟨filled', _⟩ ← Word.add filled take
    let ⟨position, _⟩ ← Word.add cursor.position (take.setWidth 64)
    readFrom count filled' (value ||| piece) { cursor with position }
  else .ok (value, cursor)
termination_by count.toNat - filled.toNat
decreasing_by
  -- A byte has at most seven bits behind the place at hand, so that something is taken.
  have hoffset : offset.toNat = cursor.position.toNat % 8 := Word.toNat_bitOffset _
  have height : (8 : BitVec 32).toNat = 8 := rfl
  have htake : take.toNat = min room.toNat wanted.toNat := Word.toNat_least room wanted
  omega

/-- A field of `count` bits, at most a word. A read that fails leaves the `cursor` where it was. -/
def read (count : BitVec 32) (cursor : BitCursor) :
    Checked (Except BitError Word × BitCursor) := do
  if 64 < count.toNat then .error .wideField
  else
    let available ← cursor.remaining
    if available.toNat < count.toNat then
      return (.error (.endOfStream count.toNat available.toNat), cursor)
    else
      let (value, cursor) ← readFrom count 0 0 cursor
      return (.ok value, cursor)

/-- A field of one bit. -/
def readBit (cursor : BitCursor) : Checked (Except BitError Bool × BitCursor) := do
  match ← cursor.read 1 with
  | (.ok value, cursor) => return (.ok (value == 1), cursor)
  | (.error e, cursor) => return (.error e, cursor)

/-- The rest of a gamma code of which `zeros` zeros are read. A word has no room for more than
63. -/
def readGammaFrom (zeros : BitVec 32) (cursor : BitCursor) :
    Checked (Except BitError Word × BitCursor) := do
  match ← cursor.readBit with
  | (.error e, cursor) => return (.error e, cursor)
  | (.ok false, cursor) =>
    let ⟨zeros', _⟩ ← Word.add zeros 1
    if _ : 63 < zeros'.toNat then return (.error .gammaOverflow, cursor)
    else readGammaFrom zeros' cursor
  | (.ok true, cursor) =>
    let top ← Word.shiftLeft (1 : Word) zeros
    match ← cursor.read zeros with
    | (.error e, cursor) => return (.error e, cursor)
    | (.ok low, cursor) => return (.ok (top ||| low), cursor)
termination_by 64 - zeros.toNat
decreasing_by
  have hone : (1 : BitVec 32).toNat = 1 := rfl
  omega

/-- A gamma code, as `BitReader.readGamma` reads it. -/
def readGamma (cursor : BitCursor) : Checked (Except BitError Word × BitCursor) :=
  cursor.readGammaFrom 0

/-- Accepts the end of the stream, as `BitReader.finish` does: no whole byte is left, and what is
left of the last one is zero. -/
def finish (cursor : BitCursor) : Checked (Except BitError Unit) := do
  let consumed ← Word.byteCount cursor.position
  let length ← Word.length cursor.bytes
  if consumed.toNat ≠ length.1.toNat then
    let left ← Word.sub length.1 consumed
    return .error (.trailingBytes left.1.toNat)
  else
    let offset := Word.bitOffset cursor.position
    if offset = 0 then return .ok ()
    else
      let last ← Word.sub consumed 1
      let byte ← Word.item cursor.bytes last.1
      let padding ← Word.shiftRight byte.toBitVec offset
      if padding = 0 then return .ok () else return .error .nonZeroPadding

end BitCursor

/-! ## Writing -/

/-- Bytes to which bits are added. -/
structure BitBuffer where
  bytes : Array UInt8
  /-- How many bits of the last byte are taken; none if a new byte is begun next. -/
  used : BitVec 32
  used_lt : used.toNat < 8

namespace BitBuffer

/-- A buffer in which a new byte is begun after `header`. -/
def new (header : Bytes) : BitBuffer where
  bytes := header.toArray
  used := 0
  used_lt := by decide

/-- The bytes of the `buffer` in the last one of which the next bit is set. -/
def opened (buffer : BitBuffer) : Array UInt8 :=
  if buffer.used = 0 then buffer.bytes.push 0 else buffer.bytes

/-- Sets `bits` of the last one of the `bytes`. -/
def setLast (bytes : Array UInt8) (bits : BitVec 8) : Array UInt8 :=
  bytes.modify (bytes.size - 1) fun last => last ||| UInt8.ofBitVec bits

/-- Writes the `count` lowest bits of `value`. Every step puts as many of them into the last byte as
there is room for. -/
def writeFrom (buffer : BitBuffer) (value : Word) (count : BitVec 32) : Checked BitBuffer :=
  if _ : 0 < count.toNat then do
    let ⟨room, _⟩ ← Word.sub 8 buffer.used
    let take := Word.least room count
    let mask ← Word.lowMask 64 take
    let piece ← Word.shiftLeft ((value &&& mask).setWidth 8) buffer.used
    let ⟨used, _⟩ ← Word.add buffer.used take
    let value ← Word.shiftRight value take
    let ⟨count', _⟩ ← Word.sub count take
    writeFrom ⟨setLast buffer.opened piece, used % 8, by
      rw [BitVec.toNat_umod]; exact Nat.mod_lt _ (by decide)⟩ value count'
  else .ok buffer
termination_by count.toNat
decreasing_by
  have hused := buffer.used_lt
  have height : (8 : BitVec 32).toNat = 8 := rfl
  have htake : take.toNat = min room.toNat count.toNat := Word.toNat_least room count
  omega

/-- Writes the `count` lowest bits of `value`, lowest first; `count` is at most 64. -/
def write (buffer : BitBuffer) (value : Word) (count : BitVec 32) : Checked BitBuffer := do
  if 64 < count.toNat then .error .wideField
  else if count.toNat < 64 then
    let mask ← Word.lowMask 64 count
    buffer.writeFrom (value &&& mask) count
  else buffer.writeFrom value count

/-- Writes one `bit`, as a field. -/
def writeBit (buffer : BitBuffer) (bit : Bool) : Checked BitBuffer :=
  buffer.write (if bit then 1 else 0) 1

/-- Writes the gamma code of `value`, which is not zero. -/
def writeGamma (buffer : BitBuffer) (value : Word) : Checked BitBuffer := do
  let zeros ← Word.log2 value
  let top ← Word.shiftLeft (1 : Word) zeros
  let width ← Word.add zeros 1
  let buffer ← buffer.write top width.1
  buffer.write value zeros

end BitBuffer

end RoadTraffic
