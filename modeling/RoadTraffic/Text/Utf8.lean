import RoadTraffic.Bits.Basic

/-!
# Reading UTF-8

Bytes are read as characters by a machine that knows how many bytes a character still owes and
between which bounds the next one must lie. A byte that does not fit ends the character that was
begun, which is malformed, and is looked at afresh.

* `Utf8.scan`: the characters of a string of bytes, with the malformed stretches between them.
* `Utf8.decode?`: the text, if nothing is malformed.
* `Utf8.decodeLossy`: the text with a replacement character for each malformed stretch.
-/

namespace RoadTraffic

namespace Utf8

/-- A character that was begun. -/
structure Begun where
  /-- The number spelled so far. -/
  value : Nat
  /-- How many bytes come after the next one. -/
  owed : Nat
  /-- The least the next byte may be. -/
  low : Nat := 0x80
  /-- The most the next byte may be. -/
  high : Nat := 0xBF
  deriving DecidableEq, Repr

/-- What a first byte is. -/
inductive First where
  | char (c : Char)
  | begun (character : Begun)
  | malformed

/-- What a `byte` is, where a character starts. The bounds keep out what has a shorter spelling, the
surrogates, and what is above the last character. -/
def first (byte : Nat) : First :=
  if byte < 0x80 then .char (Char.ofNat byte)
  else if byte < 0xC2 then .malformed
  else if byte < 0xE0 then .begun { value := byte - 0xC0, owed := 0 }
  else if byte = 0xE0 then .begun { value := 0, owed := 1, low := 0xA0 }
  else if byte = 0xED then .begun { value := 0xD, owed := 1, high := 0x9F }
  else if byte < 0xF0 then .begun { value := byte - 0xE0, owed := 1 }
  else if byte = 0xF0 then .begun { value := 0, owed := 2, low := 0x90 }
  else if byte < 0xF4 then .begun { value := byte - 0xF0, owed := 2 }
  else if byte = 0xF4 then .begun { value := 4, owed := 2, high := 0x8F }
  else .malformed

/-- A piece of a string of bytes: a character, or `none` for a malformed stretch. -/
abbrev Piece := Option Char

/-- What there is before a byte: the pieces so far, last one first, and a character that was
begun. -/
structure Progress where
  done : List Piece := []
  begun : Option Begun := none

namespace Progress

/-- One `byte` further, where a character starts. -/
def start (done : List Piece) (byte : Nat) : Progress :=
  match first byte with
  | .char c => { done := some c :: done }
  | .begun character => { done, begun := some character }
  | .malformed => { done := none :: done }

/-- One `byte` further. One that does not fit ends the character that was begun, and starts
another. -/
def step (progress : Progress) (byte : UInt8) : Progress :=
  let byte := byte.toNat
  match progress.begun with
  | none => start progress.done byte
  | some character =>
    if character.low ≤ byte ∧ byte ≤ character.high then
      let value := character.value * 64 + (byte - 0x80)
      match character.owed with
      | 0 => { done := some (Char.ofNat value) :: progress.done }
      | owed + 1 => { done := progress.done, begun := some { value, owed } }
    else start (none :: progress.done) byte

/-- The pieces at the end of the bytes, where a character that was begun is malformed. -/
def pieces (progress : Progress) : List Piece :=
  (if progress.begun.isSome then none :: progress.done else progress.done).reverse

end Progress

/-- The pieces of a string of `bytes`, each of them of one byte at least. -/
def scan (bytes : Bytes) : List Piece := (bytes.foldl Progress.step {}).pieces

/-- The text of a string of `bytes`, if it is UTF-8. -/
def decode? (bytes : Bytes) : Option String :=
  let pieces := scan bytes
  if pieces.all Option.isSome then some (String.ofList (pieces.filterMap id)) else none

/-- What stands for a malformed stretch. -/
def replacement : Char := '\uFFFD'

/-- The text of a string of `bytes`, whatever they are, with `replacement` for each malformed
stretch. -/
def decodeLossy (bytes : Bytes) : String :=
  String.ofList ((scan bytes).map (·.getD replacement))

end Utf8

end RoadTraffic
