import Std.Data.ExtTreeMap
import RoadTraffic.Bits.Basic
import RoadTraffic.Http.Status

/-!
# Requests and responses

A request asks for what is under a URL; a response has a status, headers and a body. A request may
also fail before any response comes in. The names of headers are looked up as they are written.
-/

namespace RoadTraffic

/-- A request for what is under a URL. -/
structure Request where
  url : String
  /-- Names and values, in the order in which they were added. -/
  headers : List (String × String) := []
  deriving DecidableEq, Repr

namespace Request

/-- The `request` with one header more. -/
def withHeader (request : Request) (name value : String) : Request :=
  { request with headers := request.headers ++ [(name, value)] }

/-- The first value of the header of the given `name`. -/
def header? (request : Request) (name : String) : Option String := request.headers.lookup name

end Request

/-- What came back for a request. -/
structure Response where
  status : Status
  headers : Std.ExtTreeMap String String := ∅
  body : Bytes := []

namespace Response

/-- The `response` with a header set to a `value`, in place of the one it may have. -/
def withHeader (response : Response) (name value : String) : Response :=
  { response with headers := response.headers.insert name value }

/-- The value of the header of the given `name`, which is looked up as it is written. -/
def header? (response : Response) (name : String) : Option String := response.headers[name]?

end Response

/-- A request to which no response came in. -/
structure TransportError where
  url : String
  /-- What went wrong. -/
  text : String
  deriving DecidableEq, Repr

/-- The wording of the fault, which names the URL before the `text`. -/
def TransportError.message (e : TransportError) : String :=
  s!"Request to {e.url} failed: {e.text}"

/-- How a request ends. -/
abbrev Reply := Except TransportError Response

/-- The request header that names the revision at hand. -/
def ifNoneMatch : String := "If-None-Match"

/-- The response header that names the revision of what was sent. -/
def revisionHeader : String := "Etag"

end RoadTraffic
