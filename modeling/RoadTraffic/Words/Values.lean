import RoadTraffic.Values.Codec
import RoadTraffic.Words.Stream
import RoadTraffic.Zlib.Decompressor

/-!
# Packed values in machine words

Unpacking of speed groups with every count, length and room in a word, whatever the decompressor
that is called for it. What is told of bytes that are refused is the same as elsewhere; on top of
that, the machine may stop. Only memory is taken for granted.

* `Zlib.Decompressor.inflateInWords`: the bytes of a stream, from repeated calls.
* `Values.decodeInWords`: unpacks speed groups under a limit.
-/

namespace RoadTraffic

namespace Zlib

namespace Decompressor

variable (decompressor : Decompressor) (bytes : Bytes) (limit : Word)

/-- The room for the next call, with `made` bytes made so far: what is `spare` from the last one, or
more where one byte more than the `limit` leaves more. No more than a chunk is asked for at a
time. -/
def roomInWords (made spare : Word) : Checked Word := do
  let total ← Word.length bytes
  let chunk ← Word.mul (Word.greatest total.1 64) 4
  let room := Word.subCapped (Word.addCapped limit 1) made
  return Word.greatest spare (Word.least room chunk.1)

/-- Calls the `decompressor` until the stream ends, with `taken` bytes of the input taken and
`output` made so far, and room for `spare` bytes left over, as `Decompressor.run` does. Gives the
number of bytes taken and the output. -/
def runInWords (state : decompressor.State) (taken : Word) (output : Bytes) (spare : Word) :
    Checked (Except ZlibError (Word × Bytes)) := do
  let ⟨made, _⟩ ← Word.length output
  let room ← roomInWords bytes limit made spare
  let ⟨total, _⟩ ← Word.length bytes
  let ⟨rest, _hrest⟩ ← Word.suffix bytes (Word.least taken total)
  match decompressor.call state rest room.toNat with
  | none => return .error .corrupt
  | some piece =>
    let ⟨made', _hmade⟩ ← Word.length (output ++ piece.output)
    let ⟨took, _⟩ ← Word.ofNat piece.taken
    let ⟨taken', _⟩ ← Word.add taken took
    if _ : limit.toNat < made'.toNat then return .error (.tooLarge limit.toNat)
    else if piece.ended then return .ok (taken', output ++ piece.output)
    else if _hstall : taken' = taken ∧ made' = made then return .error .truncated
    else
      let used ← Word.sub made' made
      let spare ← Word.sub room used.1
      runInWords piece.state taken' (output ++ piece.output) spare.1
termination_by (bytes.length - taken.toNat) + (limit.toNat - output.length)
decreasing_by
  have hmoved : ¬ (taken'.toNat = taken.toNat ∧ made'.toNat = made.toNat) := fun hsame =>
    _hstall ⟨BitVec.eq_of_toNat_eq hsame.1, BitVec.eq_of_toNat_eq hsame.2⟩
  have htaken := piece.taken_le
  have hleast := Word.toNat_least taken total
  have hlength := congrArg List.length _hrest
  rw [List.length_drop] at hlength
  rw [List.length_append] at _hmade ⊢
  omega

/-- The bytes that a zlib stream stands for, at most `limit`, as `Decompressor.inflate` tells
them. -/
def inflateInWords : Checked (Except ZlibError Bytes) := do
  match ← decompressor.runInWords bytes limit decompressor.start 0 [] 0 with
  | .error e => return .error e
  | .ok (taken, output) =>
    let total ← Word.length bytes
    if taken.toNat < total.1.toNat then
      let left ← Word.sub total.1 taken
      return .error (.trailingBytes left.1.toNat)
    else return .ok output

end Decompressor

end Zlib

/-! ## Unpacking -/

namespace BitCursor

/-- Reads `count` speed groups, as `Values.readGroups` does. -/
def readGroups (done : List SpeedGroup) :
    (count : Nat) → BitCursor → Checked (Except ValuesError (List SpeedGroup × BitCursor))
  | 0, cursor => return .ok (done.reverse, cursor)
  | count + 1, cursor => do
    match ← cursor.read 3 with
    | (.error e, _) => return .error (.bitStream e)
    | (.ok code, cursor) =>
      match (Word.resize? 8 code).bind fun code => SpeedGroup.ofCode? code.toNat with
      | none => return .error (.invalidSpeedGroup code.toNat)
      | some group => readGroups (group :: done) count cursor

/-- Reads `count` speed groups, which take up the whole of the bits ahead of the `cursor`. -/
def readAllGroups (count : Nat) (cursor : BitCursor) :
    Checked (Except ValuesError (List SpeedGroup)) := do
  match ← readGroups [] count cursor with
  | .error e => return .error e
  | .ok (groups, cursor) =>
    match ← cursor.finish with
    | .error e => return .error (.bitStream e)
    | .ok () => return .ok groups

end BitCursor

namespace Values

/-- The most bytes that `count` packed values take up, `Values.maxPackedLength` in a word. -/
def maxPackedLengthInWords (count : Word) : Checked Word := do
  let bytes ← Word.byteCount (Word.mulCapped count 3)
  return Word.addCapped 11 bytes

/-- Unpacks at most `limit` speed groups that are not deflated, as `Values.unpack` does. -/
def unpackInWords (bytes : Bytes) (limit : Word) : Checked (Except ValuesError (List SpeedGroup)) :=
  match bytes with
  | [] => return .error .empty
  | found :: body =>
    if found.toNat ≠ version then return .error (.unsupportedVersion found.toNat)
    else
      match Varint.decode body with
      | .error e => return .error (.valueCount e)
      | .ok (values, rest) => do
        let count ← Word.ofNat values
        if limit.toNat < count.1.toNat then
          return .error (.tooManyValues count.1.toNat limit.toNat)
        else
          let length ← Word.length rest
          let bits ← Word.mul length.1 8
          if bits.1.toNat < (Word.mulCapped count.1 3).toNat then
            return .error (.implausibleValueCount count.1.toNat bits.1.toNat)
          else BitCursor.readAllGroups count.1.toNat (.new rest)

/-- Unpacks at most `limit` speed groups, as `Values.decodeStream` does. -/
def decodeInWords (decompressor : Zlib.Decompressor) (bytes : Bytes) (limit : Word) :
    Checked (Except ValuesError (List SpeedGroup)) := do
  let longest ← maxPackedLengthInWords limit
  match ← decompressor.inflateInWords bytes longest with
  | .error e => return .error (.stream e)
  | .ok packed => unpackInWords packed limit

end Values

end RoadTraffic
