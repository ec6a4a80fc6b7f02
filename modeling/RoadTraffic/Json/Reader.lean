import RoadTraffic.Json.Value
import RoadTraffic.Text.Utf8

/-!
# Reading JSON

A JSON text is bytes: one value with blanks around it and around its parts. A string is malformed,
which is no fault of the text, if its bytes are no UTF-8 or if it spells half of a surrogate pair.

* `Json.parse?`: the value of a text.
-/

namespace RoadTraffic

namespace Json

/-! ## Blanks and numbers -/

/-- The byte of an ASCII character. -/
def asciiByte (c : Char) : UInt8 := UInt8.ofNat c.toNat

/-- Whether a byte is blank between the parts of a text. -/
def isBlankByte (byte : UInt8) : Bool :=
  byte == asciiByte ' ' || byte == asciiByte '\n' || byte == asciiByte '\t' ||
    byte == asciiByte '\r'

/-- The bytes after the blanks at their head. -/
def skipBlanks (bytes : Bytes) : Bytes := bytes.dropWhile isBlankByte

/-- Whether a byte is a decimal digit. -/
def isDigitByte (byte : UInt8) : Bool := asciiByte '0' ≤ byte && byte ≤ asciiByte '9'

/-- The digits at the head of the `bytes`, and the bytes after them. -/
def digits (bytes : Bytes) : Bytes × Bytes :=
  (bytes.takeWhile isDigitByte, bytes.dropWhile isDigitByte)

/-- The bytes after the character `head`, if it is at their head. -/
def after? (head : Char) : Bytes → Option Bytes
  | byte :: rest => if byte == asciiByte head then some rest else none
  | [] => none

/-- The bytes after a fraction, and whether there is one. A point without a digit is a fault. -/
def fraction? (bytes : Bytes) : Option (Bool × Bytes) :=
  match after? '.' bytes with
  | none => some (false, bytes)
  | some rest =>
    match digits rest with
    | ([], _) => none
    | (_, rest) => some (true, rest)

/-- The bytes after a power of ten, and whether there is one. -/
def exponent? (bytes : Bytes) : Option (Bool × Bytes) :=
  match (after? 'e' bytes).orElse fun _ => after? 'E' bytes with
  | none => some (false, bytes)
  | some rest =>
    let unsigned := ((after? '+' rest).orElse fun _ => after? '-' rest).getD rest
    match digits unsigned with
    | ([], _) => none
    | (_, rest) => some (true, rest)

/-- The number with the given `digits`, highest first. -/
def ofDigits (digits : Bytes) : Nat :=
  digits.foldl (fun n byte => 10 * n + (byte.toNat - '0'.toNat)) 0

/-- A number at the head of the bytes. Its digits do not start with a zero that is not the only
one. It is a whole number if it has neither fraction nor power and is not a negative zero. -/
def number? (bytes : Bytes) : Option (Json × Bytes) :=
  let (negative, unsigned) := match after? '-' bytes with
    | some rest => (true, rest)
    | none => (false, bytes)
  match digits unsigned with
  | ([], _) => none
  | (whole, rest) =>
    if whole.head? == some (asciiByte '0') && whole.length > 1 then none
    else
      match fraction? rest with
      | none => none
      | some (hasFraction, rest) =>
        match exponent? rest with
        | none => none
        | some (hasExponent, rest) =>
          let magnitude : Int := ofDigits whole
          if hasFraction || hasExponent || (negative && magnitude == 0) then
            some (.number none, rest)
          else some (.number (some (if negative then -magnitude else magnitude)), rest)

/-! ## Strings -/

/-- A piece of a string: a byte that stands for itself, or an escape that gives a UTF-16 unit. -/
inductive StringPiece where
  | byte (byte : UInt8)
  | unit (value : Nat)

/-- The UTF-16 unit of an escape of one character. -/
def shortEscape? (byte : UInt8) : Option Nat :=
  [('"', 0x22), ('\\', 0x5C), ('/', 0x2F), ('b', 0x08), ('f', 0x0C), ('n', 0x0A), ('r', 0x0D),
    ('t', 0x09)].findSome? fun (c, unit) => if asciiByte c == byte then some unit else none

/-- The value of a hexadecimal digit. -/
def hexValue? (byte : UInt8) : Option Nat :=
  if isDigitByte byte then some (byte.toNat - '0'.toNat)
  else if asciiByte 'a' ≤ byte && byte ≤ asciiByte 'f' then some (byte.toNat - 'a'.toNat + 10)
  else if asciiByte 'A' ≤ byte && byte ≤ asciiByte 'F' then some (byte.toNat - 'A'.toNat + 10)
  else none

/-- The value of the four hexadecimal digits `a`, `b`, `c` and `d`. -/
def hexUnit? (a b c d : UInt8) : Option Nat :=
  match hexValue? a, hexValue? b, hexValue? c, hexValue? d with
  | some a, some b, some c, some d => some (((a * 16 + b) * 16 + c) * 16 + d)
  | _, _, _, _ => none

/-- The pieces of a string up to its closing quote, after those in `done`, last one first, and the
bytes after it. -/
def stringPieces? (done : List StringPiece) : Bytes → Option (List StringPiece × Bytes)
  | [] => none
  | byte :: rest =>
    if byte == asciiByte '"' then some (done.reverse, rest)
    else if byte == asciiByte '\\' then
      match rest with
      | [] => none
      | escape :: rest =>
        if escape == asciiByte 'u' then
          match rest with
          | a :: b :: c :: d :: rest =>
            match hexUnit? a b c d with
            | some unit => stringPieces? (.unit unit :: done) rest
            | none => none
          | _ => none
        else
          match shortEscape? escape with
          | some unit => stringPieces? (.unit unit :: done) rest
          | none => none
    else if byte < asciiByte ' ' then none
    else stringPieces? (.byte byte :: done) rest

/-- Whether a UTF-16 `unit` is the first half of a surrogate pair. -/
def isHighSurrogate (unit : Nat) : Bool := 0xD800 ≤ unit && unit < 0xDC00

/-- Whether a UTF-16 `unit` is the second half of a surrogate pair. -/
def isLowSurrogate (unit : Nat) : Bool := 0xDC00 ≤ unit && unit < 0xE000

/-- The UTF-8 bytes of the character of the given number. -/
def charBytes (value : Nat) : Bytes := (String.singleton (Char.ofNat value)).toUTF8.data.toList

/-- The bytes that pieces stand for, after those in `done`, last ones first; there are none if
half of a surrogate pair is missing. -/
def pieceBytes? (done : Bytes) : List StringPiece → Option Bytes
  | [] => some done.reverse
  | .byte byte :: rest => pieceBytes? (byte :: done) rest
  | .unit high :: .unit low :: rest =>
    if isHighSurrogate high then
      if isLowSurrogate low then
        pieceBytes? ((charBytes (0x10000 + (high - 0xD800) * 0x400 + (low - 0xDC00))).reverse ++
          done) rest
      else none
    else if isLowSurrogate high then none
    else pieceBytes? ((charBytes high).reverse ++ done) (.unit low :: rest)
  | .unit unit :: rest =>
    if isHighSurrogate unit || isLowSurrogate unit then none
    else pieceBytes? ((charBytes unit).reverse ++ done) rest

/-- A string after its opening quote, as the text it spells, and the bytes after it. -/
def string? (bytes : Bytes) : Option (Option String × Bytes) :=
  match stringPieces? [] bytes with
  | none => none
  | some (pieces, rest) => some ((pieceBytes? [] pieces).bind Utf8.decode?, rest)

/-! ## Values -/

/-- The `bytes` after a `word`, if it is at their head. -/
def word? (word : String) (bytes : Bytes) : Option Bytes :=
  word.toList.foldlM (fun bytes c => after? c bytes) bytes

mutual

/-- A value at the head of the bytes, blanks before it included. Each of these three takes at least
a byte or hands over to another that does, so that fuel of twice the bytes is enough. -/
def value? : (fuel : Nat) → Bytes → Option (Json × Bytes)
  | 0, _ => none
  | fuel + 1, bytes =>
    match skipBlanks bytes with
    | [] => none
    | byte :: rest =>
      if byte == asciiByte '"' then (string? rest).map fun (text, rest) => (.string text, rest)
      else if byte == asciiByte '[' then
        match after? ']' (skipBlanks rest) with
        | some rest => some (.array [], rest)
        | none => items? fuel [] rest
      else if byte == asciiByte '\x7b' then
        match after? '\x7d' (skipBlanks rest) with
        | some rest => some (.object [], rest)
        | none => members? fuel [] rest
      else if byte == asciiByte 'n' then (word? "ull" rest).map fun rest => (.null, rest)
      else if byte == asciiByte 't' then (word? "rue" rest).map fun rest => (.bool true, rest)
      else if byte == asciiByte 'f' then (word? "alse" rest).map fun rest => (.bool false, rest)
      else number? (byte :: rest)

/-- The items of an array from here on, after those in `done`, last one first. -/
def items? : (fuel : Nat) → (done : List Json) → Bytes → Option (Json × Bytes)
  | 0, _, _ => none
  | fuel + 1, done, bytes =>
    match value? fuel bytes with
    | none => none
    | some (item, rest) =>
      match after? ',' (skipBlanks rest) with
      | some rest => items? fuel (item :: done) rest
      | none =>
        match after? ']' (skipBlanks rest) with
        | some rest => some (.array (item :: done).reverse, rest)
        | none => none

/-- The members of an object from here on, after those in `done`, last one first. -/
def members? : (fuel : Nat) → (done : List (Option String × Json)) → Bytes → Option (Json × Bytes)
  | 0, _, _ => none
  | fuel + 1, done, bytes =>
    match (after? '"' (skipBlanks bytes)).bind string? with
    | none => none
    | some (name, rest) =>
      match (after? ':' (skipBlanks rest)).bind (value? fuel) with
      | none => none
      | some (value, rest) =>
        match after? ',' (skipBlanks rest) with
        | some rest => members? fuel ((name, value) :: done) rest
        | none =>
          match after? '\x7d' (skipBlanks rest) with
          | some rest => some (.object ((name, value) :: done).reverse, rest)
          | none => none

end

/-- The value of a JSON text, which takes up all of the `bytes` but blanks. -/
def parse? (bytes : Bytes) : Option Json :=
  match value? (2 * bytes.length + 2) bytes with
  | none => none
  | some (value, rest) => if (skipBlanks rest).isEmpty then some value else none

end Json

end RoadTraffic
