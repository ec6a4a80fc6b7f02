import RoadTraffic.Zlib.Inflate

/-!
# Calling a decompressor

A decompressor does not inflate a stream in one go. It is called again and again, each time with the
input that it has not taken yet and with room for some bytes of output, and hands out what fits. How
it does that is left open; what is fixed here is who calls it, with how much room, and what is made
of the pieces.

* `Piece`: what one call brings.
* `Decompressor.run`: the calls, one after the other, until the stream ends or they lead no further.
* `Decompressor.inflate`: the bytes of a stream that takes up the whole input.
-/

namespace RoadTraffic

namespace Zlib

/-- What one call brings: it takes bytes of the input, hands out bytes for which there is room, and
tells if that was the end of the stream. -/
structure Piece (State : Type) (input : Bytes) (room : Nat) where
  state : State
  /-- The number of bytes taken of the input. -/
  taken : Nat
  output : Bytes
  ended : Bool
  taken_le : taken ≤ input.length
  length_le : output.length ≤ room

/-- Something that inflates zlib streams piece by piece. -/
structure Decompressor where
  State : Type
  start : State
  /-- What a call with this input ahead and this much room brings, if the stream breaks no rule. -/
  call : State → (input : Bytes) → (room : Nat) → Option (Piece State input room)

namespace Decompressor

variable (decompressor : Decompressor) (bytes : Bytes) (limit : Nat)

/-- The most room that is asked for at a time: four times the input, but not less than for 64
bytes. -/
def chunk : Nat := max bytes.length 64 * 4

/-- Calls the `decompressor` until the stream ends, with `taken` bytes of the input taken and
`output` made so far, and room for `spare` bytes left over. Gives the number of bytes taken and the
output. -/
def run (state : decompressor.State) (taken : Nat) (output : Bytes) (spare : Nat) :
    Except ZlibError (Nat × Bytes) :=
  -- One byte more than is allowed is enough to tell that there are too many.
  let room := min Bits.maxWord (limit + 1) - output.length
  let spare := max spare (min room (chunk bytes))
  match decompressor.call state (bytes.drop taken) spare with
  | none => .error .corrupt
  | some piece =>
    if limit < (output ++ piece.output).length then .error (.tooLarge limit)
    else if piece.ended then .ok (taken + piece.taken, output ++ piece.output)
    -- There was room, so nothing but input can have been missing.
    else if piece.taken = 0 ∧ piece.output = [] then .error .truncated
    else
      run piece.state (taken + piece.taken) (output ++ piece.output)
        (spare - piece.output.length)
termination_by (bytes.length - taken) + (limit - output.length)
decreasing_by
  have htaken := piece.taken_le
  have hlength : piece.output = [] ↔ piece.output.length = 0 := List.length_eq_zero_iff.symm
  simp only [List.length_drop, List.length_append, hlength] at *
  omega

/-- The bytes that a zlib stream stands for, at most `limit`. The stream takes up the whole input;
what is left behind it is counted by `.trailingBytes`. -/
def inflate : Except ZlibError Bytes :=
  match decompressor.run bytes limit decompressor.start 0 [] 0 with
  | .error e => .error e
  | .ok (taken, output) =>
    if taken < bytes.length then .error (.trailingBytes (bytes.length - taken)) else .ok output

end Decompressor

end Zlib

end RoadTraffic
