import RoadTraffic.Http.Message
import RoadTraffic.Http.Wire

/-!
# Making requests

A request is turned into what goes out to a server, and what comes in is turned into a response.
Names of headers come in in lower case and are looked up as they are usually written, so each part
of a name between dashes is given a capital. Values that are not plain text are dropped, and of
values of one name the last one counts.

* `Client.outgoing`: what goes out for a request, or why nothing does.
* `Client.reply`: the reply made of what came in.
* `Client.send`: makes a request over a given connection.
-/

namespace RoadTraffic

namespace Client

/-! ## Going out -/

/-- Whether a text may be the value of a header: it has no controls but tabs. -/
def isHeaderValue (value : String) : Bool :=
  value.toList.all fun c => c == '\t' || (c.toNat ≥ 0x20 && c.toNat != 0x7F)

/-- What is said of a request that cannot go out. -/
def cannotBuild : String := "builder error"

/-- What is said of a request to an address that cannot be asked. -/
def cannotAsk (url : Url) : String := s!"{cannotBuild} for url ({url.text})"

/-- What is said of a request that no response came in for. -/
def notAnswered (url : Url) : String := s!"error sending request for url ({url.text})"

/-- What is said of a response that came in in part. -/
def cutShort : String := "error decoding response body"

/-- The schemes that can be asked. -/
def schemes : List String := ["http", "https"]

/-- What goes out for a `request`, or why nothing does. The URL is looked at first, then the values
of headers, then the scheme. -/
def outgoing (request : Request) : Except String Outgoing :=
  match Url.parse? request.url with
  | none => .error cannotBuild
  | some url =>
    match url.server? with
    | none => .error (cannotAsk url)
    | some server =>
      if !request.headers.all fun (_, value) => isHeaderValue value then .error cannotBuild
      else if !schemes.contains url.scheme then .error (cannotAsk url)
      else .ok { url, server, headers := request.headers }

/-! ## Coming in -/

/-- A name with capitals: at its start if `atStart`, and after each dash. -/
def capitalize (atStart : Bool) : List Char → List Char
  | [] => []
  | c :: rest => (if atStart then c.toUpper else c) :: capitalize (c == '-') rest

/-- The usual way to write the `name` of a header, such as `Content-Length`. -/
def canonicalName (name : String) : String := String.ofList (capitalize true name.toList)

/-- Whether a byte is a visible ASCII character, a space or a tab. -/
def isPlain (byte : UInt8) : Bool := (0x20 ≤ byte && byte < 0x7F) || byte == 9

/-- The text of the `value` of a header, if all of it `isPlain`. -/
def plainText? (value : Bytes) : Option String :=
  if value.all isPlain then some (String.ofList (value.map fun byte => Char.ofNat byte.toNat))
  else none

/-- The headers as they are looked up, by their `canonicalName`. The last plain value of a name
counts. -/
def headers (incoming : List (String × Bytes)) : Std.ExtTreeMap String String :=
  incoming.foldl (fun headers (name, value) =>
    match plainText? value with
    | some text => headers.insert (canonicalName name) text
    | none => headers) ∅

/-- The reply made of what came in for a `request`, if it is `complete`. -/
def reply (request : Request) (url : Url) : Option Incoming → Reply
  | none => .error ⟨request.url, notAnswered url⟩
  | some incoming =>
    if incoming.complete then
      .ok { status := incoming.status, headers := headers incoming.headers, body := incoming.body }
    else .error ⟨request.url, cutShort⟩

/-- Makes a `request`. `exchange` lets bytes go out to a server and yields all that come in. -/
def send {m : Type → Type} [Monad m] (exchange : Outgoing → m Bytes) (request : Request) :
    m Reply :=
  match outgoing request with
  | .error text => pure (.error ⟨request.url, text⟩)
  | .ok outgoing => do return reply request outgoing.url (Incoming.parse? (← exchange outgoing))

end Client

end RoadTraffic
