import RoadTraffic.Http.Status
import RoadTraffic.Http.Url

/-!
# Requests and responses as bytes

A request goes out as a head of lines. A response comes in as a head of lines and a body, whose
length is told by the head, or by the body itself if it comes in chunks, or else by the end of the
connection. Interim responses may come before it and do not count.

* `Outgoing.bytes`: a request as bytes.
* `Incoming.parse?`: the response in all bytes of a connection.
-/

namespace RoadTraffic

/-- What goes out to a server: a request for what is under an address. -/
structure Outgoing where
  url : Url
  /-- The host and its port. -/
  server : String
  headers : List (String × String)

/-- What comes in from a server. -/
structure Incoming where
  status : Status
  /-- Names in lower case, and values. -/
  headers : List (String × Bytes)
  body : Bytes
  /-- Whether the connection lasted to the end of the body. -/
  complete : Bool

namespace Outgoing

/-- The host without brackets, and the port. -/
def hostAndPort (outgoing : Outgoing) : String × Nat :=
  let (host, port) := Url.splitPort outgoing.server.toList
  (String.ofList (host.filter fun c => c != '[' && c != ']'),
    if port.isEmpty then (Url.webSchemes.lookup outgoing.url.scheme).getD 80
    else Number.ofDigits port)

/-- The line a request starts with. -/
def requestLine (outgoing : Outgoing) : String := s!"GET {outgoing.url.target} HTTP/1.1"

/-- The lines of the head of a request made by `agent`. The connection ends with the response. -/
def lines (agent : String) (outgoing : Outgoing) : List String :=
  [outgoing.requestLine, s!"Host: {outgoing.server}", s!"User-Agent: {agent}", "Accept: */*",
    "Connection: close"] ++ outgoing.headers.map fun (name, value) => s!"{name}: {value}"

/-- A request made by `agent` as bytes: its `lines`, and an empty one. -/
def bytes (agent : String) (outgoing : Outgoing) : Bytes :=
  Percent.bytesOf (String.join ((outgoing.lines agent).map (· ++ "\r\n")) ++ "\r\n")

end Outgoing

namespace Incoming

/-! ## Heads -/

/-- The lines of a head behind those in `lines`, last one first, and the bytes after it. The `line`
at hand starts with the byte read last. -/
def headLines (lines : List Bytes) (line : Bytes) : Bytes → Option (List Bytes × Bytes)
  | [] => none
  | byte :: rest =>
    if byte == 10 then
      match line.dropWhile (· == 13), lines with
      | [], [] => headLines [] [] rest
      | [], lines => some (lines.reverse, rest)
      | line, lines => headLines (line.reverse :: lines) [] rest
    else headLines lines (byte :: line) rest

/-- The character of an ASCII byte. -/
def charOf (byte : UInt8) : Char := Char.ofNat byte.toNat

/-- Whether a byte may stand in the name of a header. -/
def isNameByte (byte : UInt8) : Bool :=
  (charOf byte).isAlphanum || "!#$%&'*+-.^_|~".contains (charOf byte) || byte == 0x60

/-- Whether a byte may stand in the value of a header. -/
def isValueByte (byte : UInt8) : Bool := byte == 9 || (byte ≥ 0x20 && byte != 0x7F)

/-- Whether a byte is a blank around the value of a header. -/
def isBlankByte (byte : UInt8) : Bool := byte == 9 || byte == 0x20

/-- The name and the value of the header in a `line`, if it is one. -/
def header? (line : Bytes) : Option (String × Bytes) :=
  let name := line.takeWhile isNameByte
  match line.dropWhile isNameByte with
  | 0x3A :: value =>
    let value := ((value.dropWhile isBlankByte).reverse.dropWhile isBlankByte).reverse
    if !name.isEmpty && value.all isValueByte then
      some (String.ofList (name.map fun byte => (charOf byte).toLower), value)
    else none
  | _ => none

/-- The number that `digits` in a `base` up to sixteen spell. -/
def number? (base : Nat) (digits : Bytes) : Option Nat :=
  if digits.isEmpty then none
  else digits.foldlM (fun n byte =>
    (Url.digitValue? base (charOf byte).toLower).map (base * n + ·)) 0

/-- The status in the `line` a response starts with. -/
def status? (line : Bytes) : Option Status :=
  let isVersion := ["HTTP/1.1 ", "HTTP/1.0 "].contains (String.ofList ((line.take 9).map charOf))
  let code := (line.drop 9).takeWhile (· != 0x20)
  if isVersion && code.length = 3 then (number? 10 code).bind Status.ofCode? else none

/-- Whether a response comes before the one that counts. -/
def isInterim (status : Status) : Bool := status.code < 200 && status.code != 101

/-- Whether a response has no body, whatever its head says. -/
def isBodyless (status : Status) : Bool :=
  status.code < 200 || status.code = 204 || status.code = 304

/-! ## Bodies -/

/-- Whether a byte ends the size of a chunk. -/
def endsSize (byte : UInt8) : Bool := byte == 10 || byte == 13 || byte == 0x20 || byte == 0x3B

/-- The `bytes` after the end of the line at hand, if it ends. -/
def nextLine? (bytes : Bytes) : Option Bytes :=
  match bytes.dropWhile (· != 10) with
  | [] => none
  | _ :: rest => some rest

/-- The bytes of chunks, and whether the last chunk is among them. Each chunk has a line with its
size before it and a line end after it, so that fuel of the number of bytes is enough. -/
def chunks : (fuel : Nat) → (done : List Bytes) → Bytes → Bytes × Bool
  | 0, done, _ => (done.reverse.flatten, false)
  | fuel + 1, done, bytes =>
    match number? 16 (bytes.takeWhile (!endsSize ·)), nextLine? bytes with
    | some 0, some _ => (done.reverse.flatten, true)
    | some size, some rest =>
      match nextLine? (rest.drop size) with
      | some next => chunks fuel (rest.take size :: done) next
      | none => ((rest.take size :: done).reverse.flatten, false)
    | _, _ => (done.reverse.flatten, false)

/-- The values of the headers of the given `name`, in order. -/
def valuesOf (name : String) (headers : List (String × Bytes)) : List Bytes :=
  (headers.filter (·.1 == name)).map (·.2)

/-- The body at the head of the `bytes`, and whether it is complete, if the head makes sense. A
length that is told by chunks counts before one in the `headers`. -/
def body? (status : Status) (headers : List (String × Bytes)) (bytes : Bytes) :
    Option (Bytes × Bool) :=
  if isBodyless status then some ([], true)
  else if !(valuesOf "transfer-encoding" headers).isEmpty then
    some (chunks bytes.length [] bytes)
  else
    match (valuesOf "content-length" headers).eraseDups with
    | [] => some (bytes, true)
    | [length] =>
      (number? 10 length).map fun length => (bytes.take length, length ≤ bytes.length)
    | _ => none

/-! ## Responses -/

/-- The response at the head of the `bytes`, after those that are `isInterim`. Each of them takes a
byte at least, so that as much `fuel` as there are bytes is enough. -/
def parseFrom : (fuel : Nat) → Bytes → Option Incoming
  | 0, _ => none
  | fuel + 1, bytes =>
    match headLines [] [] bytes with
    | some (first :: lines, rest) =>
      match status? first, lines.mapM header? with
      | some status, some headers =>
        if isInterim status then parseFrom fuel rest
        else (body? status headers rest).map fun (body, complete) =>
          { status, headers, body, complete }
      | _, _ => none
    | _ => none

/-- The response in all `bytes` of a connection. -/
def parse? (bytes : Bytes) : Option Incoming := parseFrom bytes.length bytes

end Incoming

end RoadTraffic
