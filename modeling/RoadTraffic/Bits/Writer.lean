import RoadTraffic.Bits.Basic
import RoadTraffic.Bits.Error

/-!
# Writing bits

A writer appends bits to a string of bytes. What was there before it started stays as it is, the
first bit starts a new byte, and the last byte is filled up with zeros.
-/

namespace RoadTraffic

/-- Bytes under construction: whole ones, and the bits of the one being filled, first bit first. -/
structure BitWriter where
  bytes : Array UInt8
  pending : List Bool
  pending_lt : pending.length < 8

namespace BitWriter

/-- A writer that starts a new byte behind `header`. -/
def new (header : Bytes) : BitWriter where
  bytes := header.toArray
  pending := []
  pending_lt := Bits.length_nil_lt

/-- Writes one `bit`. The eighth one completes a byte. -/
def push (writer : BitWriter) (bit : Bool) : BitWriter :=
  if h : writer.pending.length = 7 then
    { bytes := writer.bytes.push (Bits.toByte (writer.pending ++ [bit]))
      pending := []
      pending_lt := Bits.length_nil_lt }
  else
    { writer with
      pending := writer.pending ++ [bit]
      pending_lt := by
        have := writer.pending_lt
        rw [List.length_append, List.length_singleton]
        omega }

/-- Writes the given `bits` in order. -/
def append (writer : BitWriter) (bits : List Bool) : BitWriter := bits.foldl push writer

/-- Writes the `count` lowest bits of `value`, lowest first; `count` is at most that of a word. -/
def write (writer : BitWriter) (value count : Nat) : Except BitError BitWriter :=
  if count ≤ Bits.wordWidth then .ok (writer.append (Bits.ofNat count value))
  else .error (.wideWrite count)

/-- The bytes written, the last one filled up with zeros. -/
def toBytes (writer : BitWriter) : Bytes :=
  writer.bytes.toList ++ if writer.pending.isEmpty then [] else [Bits.toByte writer.pending]

/-! ## The bits written -/

/-- Every bit written so far, those of the header included. -/
def bits (writer : BitWriter) : List Bool := Bits.ofBytes writer.bytes.toList ++ writer.pending

@[simp] theorem bits_new (header : Bytes) : (new header).bits = Bits.ofBytes header := by
  simp [new, bits]

end BitWriter

end RoadTraffic
