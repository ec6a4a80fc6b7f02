import RoadTraffic.Bits.Reader
import RoadTraffic.Zlib.Adler
import RoadTraffic.Zlib.Symbols

/-!
# Inflating a zlib stream

A zlib stream is a header of two bytes, blocks of deflated data, and a checksum of what they stand
for. It is read from left to right and every byte it stands for is produced as soon as it is known,
so that the first thing to go wrong decides the fault: the stream breaks a rule, it stops early, or
it produces more than allowed. What was produced until then is not lost.

* `Inflate.stream`: one stream, from `header` over `blocks` to `checksum`.
* `inflate`: the bytes of a stream that takes up the whole input.
-/

namespace RoadTraffic

/-- Why a stream cannot be inflated. -/
inductive ZlibError where
  /-- The stream breaks a rule of its format. -/
  | corrupt
  /-- The input ends inside the stream. -/
  | truncated
  /-- Behind the stream there are `count` bytes more. -/
  | trailingBytes (count : Nat)
  /-- The stream stands for more than `limit` bytes. -/
  | tooLarge (limit : Nat)
  deriving DecidableEq, Repr

namespace Zlib

/-- What is still to be read, as `input`, and what has been produced, as `output`. -/
structure Inflater where
  input : BitReader
  output : Array UInt8

/-- A step of inflation. One that throws leaves behind what was produced before. -/
abbrev Inflate (α : Type) := ExceptT ZlibError (StateM Inflater) α

namespace Inflate

/-! ## Reading and producing -/

/-- The next bit, or `.truncated` if there is none. -/
def bit : Inflate Bool := fun state =>
  match state.input.next? with
  | some (bit, input) => (.ok bit, { state with input })
  | none => (.error .truncated, state)

/-- The number in the next `width` bits, or `.truncated` if there are fewer. -/
def field (width : Nat) : Inflate Nat := fun state =>
  match state.input.take width with
  | some (value, input) => (.ok value, { state with input })
  | none => (.error .truncated, state)

/-- Goes on to the next whole byte. -/
def align : Inflate Unit := fun state => (.ok (), { state with input := state.input.align })

/-- Produces a `byte`, if there is room for it under the `limit`. -/
def produce (limit : Nat) (byte : UInt8) : Inflate Unit := fun state =>
  if state.output.size < limit then (.ok (), { state with output := state.output.push byte })
  else (.error (.tooLarge limit), state)

/-- Produces once more the byte that was produced `distance` bytes ago. -/
def repeatByte (limit distance : Nat) : Inflate Unit := fun state =>
  match state.output[state.output.size - distance]? with
  | some byte => produce limit byte state
  | none => (.error .corrupt, state)

/-- Produces the last `distance` bytes again, over and over, up to `count` bytes. -/
def repeatBytes (limit distance : Nat) : (count : Nat) → Inflate Unit
  | 0 => pure ()
  | count + 1 => do
    repeatByte limit distance
    repeatBytes limit distance count

/-- The symbol whose code comes next. Where no code leads, the stream is `.corrupt`. -/
def symbol : CodeTree → Inflate Nat
  | .missing => throw .corrupt
  | .leaf symbol => pure symbol
  | .node zero one => do
    if ← bit then symbol one else symbol zero

/-- The number that a `range` stands for, its place read from the next bits. -/
def inRange (range : SymbolRange) : Inflate Nat := do
  return range.start + (← field range.width)

/-! ## Blocks -/

/-- The repetition that a length symbol begins. It must not go back behind the first byte
produced. -/
def repetition (limit : Nat) (distances : CodeTree) (lengths : SymbolRange) : Inflate Unit := do
  let count ← inRange lengths
  match distanceRanges[← symbol distances]? with
  | none => throw .corrupt
  | some range =>
    let distance ← inRange range
    if distance ≤ (← get).output.size then repeatBytes limit distance count
    else throw .corrupt

/-- The rest of a block with the given codes. `fuel` is no less than the number of bits ahead: each
symbol takes at least one. -/
def symbols (limit : Nat) (literals distances : CodeTree) : (fuel : Nat) → Inflate Unit
  | 0 => throw .truncated
  | fuel + 1 => do
    let found ← symbol literals
    if found < endOfBlock then
      produce limit (UInt8.ofNat found)
      symbols limit literals distances fuel
    else if found = endOfBlock then pure ()
    else
      match lengthRanges[found - endOfBlock - 1]? with
      | none => throw .corrupt
      | some range =>
        repetition limit distances range
        symbols limit literals distances fuel

/-- Produces the next `count` bytes as they are. -/
def copyBytes (limit : Nat) : (count : Nat) → Inflate Unit
  | 0 => pure ()
  | count + 1 => do
    produce limit (UInt8.ofNat (← field 8))
    copyBytes limit count

/-- A block of bytes as they are, after their number and its complement. -/
def storedBlock (limit : Nat) : Inflate Unit := do
  align
  let count ← field 16
  let complement ← field 16
  if count + complement = 0xFFFF then copyBytes limit count else throw .corrupt

/-- The numbers in the next `count` fields of `width` bits, behind those in `done`. -/
def fields (width : Nat) (done : Array Nat) : (count : Nat) → Inflate (Array Nat)
  | 0 => pure done
  | count + 1 => do fields width (done.push (← field width)) count

/-- Code lengths up to a number of `wanted`, after those in `done`. Three symbols repeat the last
length or zero. `fuel` is more than the number of lengths still wanted. -/
def codeLengths (code : CodeTree) (wanted : Nat) (done : Array Nat) :
    (fuel : Nat) → Inflate (Array Nat)
  | 0 => throw .corrupt
  | fuel + 1 => do
    if done.size > wanted then throw .corrupt
    else if done.size = wanted then pure done
    else
      match ← symbol code with
      | 16 =>
        match done.back? with
        | none => throw .corrupt
        | some last =>
          codeLengths code wanted (done ++ Array.replicate (3 + (← field 2)) last) fuel
      | 17 => codeLengths code wanted (done ++ Array.replicate (3 + (← field 3)) 0) fuel
      | 18 => codeLengths code wanted (done ++ Array.replicate (11 + (← field 7)) 0) fuel
      | length => codeLengths code wanted (done.push length) fuel

/-- The most codes of bytes and lengths, and of distances. -/
def maxCodes : Nat × Nat := (286, 30)

/-- The codes of a block that brings its own: how many there are, the `lengthCodeOrder` code of
their lengths, and the lengths. -/
def ownCodes : Inflate (CodeTree × CodeTree) := do
  let literals := 257 + (← field 5)
  let distances := 1 + (← field 5)
  let given := 4 + (← field 4)
  if literals > maxCodes.1 ∨ distances > maxCodes.2 then throw .corrupt
  else
    let found ← fields 3 #[] given
    let lengthOf := fun symbol => (lengthCodeOrder.idxOf? symbol).bind (found[·]?) |>.getD 0
    match CodeTree.ofLengths? false ((List.range lengthCodeOrder.length).map lengthOf) with
    | none => throw .corrupt
    | some code =>
      let wanted := literals + distances
      let lengths := (← codeLengths code wanted #[] (wanted + 1)).toList
      match CodeTree.ofLengths? true (lengths.drop literals),
          CodeTree.ofLengths? true (lengths.take literals) with
      | some distanceCode, some literalCode => pure (literalCode, distanceCode)
      | _, _ => throw .corrupt

/-- The blocks from here on, up to the last one. `fuel` is no less than the number of bits ahead
at the start of the stream. -/
def blocks (limit fuel : Nat) : (left : Nat) → Inflate Unit
  | 0 => throw .truncated
  | left + 1 => do
    let last ← bit
    match ← field 2 with
    | 0 => storedBlock limit
    | 1 => symbols limit fixedLiterals fixedDistances fuel
    | 2 =>
      let (literals, distances) ← ownCodes
      symbols limit literals distances fuel
    | _ => throw .corrupt
    if last then pure () else blocks limit fuel left

/-! ## The stream -/

/-- The largest window, as a power of two: 8 is added to what the header says. -/
def maxWindow : Nat := 7

/-- The header: the deflate method with a window of at most 32 KiB, no dictionary, and a check
that makes it a multiple of 31. -/
def header : Inflate Unit := do
  let method ← field 8
  let flags ← field 8
  let valid := (method * 256 + flags) % 31 = 0 ∧ method % 16 = 8 ∧ method / 16 ≤ maxWindow ∧
    flags / 32 % 2 = 0
  if valid then pure () else throw .corrupt

/-- The checksum, highest byte first, must be `adler32` of the bytes produced. -/
def checksum : Inflate Unit := do
  align
  let bytes ← fields 8 #[] 4
  let found := bytes.foldl (fun sum byte => sum * 256 + byte) 0
  if found = adler32 (← get).output.toList then pure () else throw .corrupt

/-- A whole stream. `fuel` is no less than the number of bits ahead. -/
def stream (limit fuel : Nat) : Inflate Unit := do
  header
  blocks limit fuel fuel
  checksum

end Inflate

/-- The bytes that a zlib stream stands for, at most `limit`. The stream takes up the whole input;
what is left behind it is counted by `.trailingBytes`. -/
def inflate (bytes : Bytes) (limit : Nat) : Except ZlibError Bytes :=
  let input := BitReader.new bytes
  match Inflate.stream limit input.remaining ⟨input, #[]⟩ with
  | (.error e, _) => .error e
  | (.ok (), state) =>
    if state.input.rest.isEmpty then .ok state.output.toList
    else .error (.trailingBytes state.input.rest.length)

end Zlib

end RoadTraffic
