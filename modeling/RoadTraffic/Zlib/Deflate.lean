import RoadTraffic.Bits.Writer
import RoadTraffic.Zlib.Adler
import RoadTraffic.Zlib.Symbols

/-!
# Deflating

Bytes are deflated into one block with the fixed codes. Eight equal fields of three bits take up
three bytes, so that a long stretch of equal fields is a long stretch of bytes that equal the
byte three places before them. Such stretches are written as repetitions, everything else byte by
byte.

* `deflate`: the zlib stream of a string of bytes.
-/

namespace RoadTraffic

namespace Zlib

/-- A piece of deflated data. -/
inductive Token where
  | literal (byte : UInt8)
  /-- The last `period` bytes again, over and over, up to `count` bytes. -/
  | again (count : Nat)
  deriving DecidableEq, Repr

/-- The distance of every repetition: eight fields of three bits. -/
def period : Nat := 3

/-- The shortest and the longest repetition. -/
def repetitionLengths : Nat × Nat := (3, 258)

/-! ## Cutting into pieces -/

/-- Each byte, and whether it equals the one `period` places before it. -/
def markRepeats (bytes : Bytes) : List (UInt8 × Bool) :=
  bytes.zipWith (fun byte earlier => (byte, earlier == some byte))
    (List.replicate period none ++ bytes.map some)

/-- Puts a `stretch` of repeating bytes behind the pieces in `done`: one repetition, or byte by byte
if it is too short for one. -/
def flush (done : Array Token) (stretch : Array UInt8) : Array Token :=
  if stretch.size < repetitionLengths.1 then done ++ stretch.map Token.literal
  else done.push (.again stretch.size)

/-- The pieces of marked bytes, behind those in `done` and the `stretch` of repeating bytes at
hand. -/
def tokensFrom (done : Array Token) (stretch : Array UInt8) : List (UInt8 × Bool) → Array Token
  | [] => flush done stretch
  | (byte, false) :: rest => tokensFrom ((flush done stretch).push (.literal byte)) #[] rest
  | (byte, true) :: rest =>
    if stretch.size + 1 = repetitionLengths.2 then
      tokensFrom (flush done (stretch.push byte)) #[] rest
    else tokensFrom done (stretch.push byte) rest

/-- The pieces of a string of `bytes`. -/
def tokens (bytes : Bytes) : List Token := (tokensFrom #[] #[] (markRepeats bytes)).toList

/-! ## Writing -/

/-- The fixed codes of bytes, of the end of a block and of lengths, by symbol. -/
def literalCodes : Array (List Bool) :=
  (Array.range (endOfBlock + 1 + lengthRanges.length)).map fun symbol =>
    (fixedLiterals.path? symbol).getD []

/-- The fixed code of the distance `period`, which every repetition has. -/
def periodCode : List Bool := (fixedDistances.path? (period - 1)).getD []

/-- The fixed code of a `symbol`, looked up in `literalCodes`. -/
def literalCode (symbol : Nat) : List Bool := literalCodes[symbol]?.getD []

/-- The bits of a length: the `literalCode` of its symbol, and its place in the range of the
symbol. -/
def lengthBits (count : Nat) : List Bool :=
  match lengthRanges.zipIdx.reverse.find? fun (range, _) => range.start ≤ count with
  | some (range, index) =>
    literalCode (endOfBlock + 1 + index) ++ Bits.ofNat range.width (count - range.start)
  | none => []

/-- The bits of a piece: one code, or those of a length and of `period`. -/
def Token.bits : Token → List Bool
  | literal byte => literalCode byte.toNat
  | again count => lengthBits count ++ periodCode

/-- The bits of a last block with the fixed codes. -/
def blockHeader : List Bool := [true, true, false]

/-- The header of every stream: a window of 32 KiB, best compression, and no dictionary. -/
def streamHeader : Bytes := [0x78, 0xDA]

/-- The number `n` as four bytes, highest first. -/
def bigEndian (n : Nat) : Bytes :=
  [UInt8.ofNat (n >>> 24), UInt8.ofNat (n >>> 16), UInt8.ofNat (n >>> 8), UInt8.ofNat n]

/-- The zlib stream of a string of `bytes`: one block with the fixed codes. -/
def deflate (bytes : Bytes) : Bytes :=
  let writer := (BitWriter.new streamHeader).append blockHeader
  let writer := (tokens bytes).foldl (fun writer token => writer.append token.bits) writer
  (writer.append (literalCode endOfBlock)).toBytes ++ bigEndian (adler32 bytes)

end Zlib

end RoadTraffic
