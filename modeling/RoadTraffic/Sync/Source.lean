import RoadTraffic.Keys.Codec
import RoadTraffic.Remote
import RoadTraffic.Sync.Error
import RoadTraffic.Text.Blank
import RoadTraffic.Text.Number
import RoadTraffic.Text.Utf8
import RoadTraffic.Values.Codec
import RoadTraffic.Availability
import RoadTraffic.Telemetry

/-!
# Sources of traffic data

A source is an edition and the server to ask for its traffic. It says which requests to make, and
what to make of what comes back; it keeps nothing.

* `Source.judgeKeys`: the keys in a reply.
* `Source.judgeValues`: what a reply says about values, with the verdict, the event and the revision
  token that follow from it.
-/

namespace RoadTraffic

/-- Where the traffic of an edition comes from. -/
structure Source where
  edition : Edition
  /-- The newest data format that is understood. -/
  dataVersion : Int
  remote : Remote
  deriving DecidableEq, Repr

/-- What a request for values found. -/
inductive ValuesAnswer where
  /-- New values, in the order of the keys. -/
  | new (values : List SpeedGroup)
  /-- The values of the given revision are still current. -/
  | notChanged
  /-- There are no values for the edition. -/
  | notFound
  | failed (cause : SyncError)
  deriving DecidableEq, Repr

/-- What follows from a reply to a request for values. -/
structure ValuesJudgement where
  answer : ValuesAnswer
  availability : Availability
  event : Option TrafficEvent := none
  /-- The revision token to go on with. -/
  token : String
  records : List LogRecord := []

namespace Source

/-- The part of the program that log records about synchronization name. -/
def logTarget : String := "mwm_traffic::traffic_info"

/-- A log record about synchronization, from `logTarget`. -/
def record (level : LogLevel) (message : String) (fields : List (String × String)) : LogRecord :=
  { level, target := logTarget, message := some message, fields }

/-- The edition as one value of a log record. -/
def editionField (source : Source) : String × String := ("mwm", source.edition.description)

/-- The edition as two values of a log record. -/
def editionFields (source : Source) : List (String × String) :=
  [("mwm", source.edition.region), ("version", toString source.edition.version)]

/-! ## Keys -/

/-- The request for keys, if there is a server, made without headers. -/
def keysRequest? (source : Source) : Option Request :=
  (source.remote.keysUrl? source.edition).map fun url => { url }

/-- The keys in a reply, and what is logged about it. Only a response with status `.ok` holds
keys. -/
def judgeKeys (source : Source) (request : Request) :
    Reply → Except SyncError (List SegmentId) × List LogRecord
  | .error e =>
    (.error (.transport e), [record .info "Couldn't run traffic keys request"
      [("url", request.url), ("error", e.message)]])
  | .ok response =>
    if response.status ≠ .ok then
      (.error (.unexpectedStatus response.status),
        [record .warn "Network error when reading keys"
          [("url", request.url), ("status", response.status.description)]])
    else
      match Keys.decode response.body with
      | .ok keys => (.ok keys, [])
      | .error e =>
        (.error (.keys e), [record .info "Could not read traffic keys received from server"
          (source.editionFields ++ [("error", e.message)])])

/-! ## Values -/

/-- The request for values that differ from those of revision `token`, if there is a server. The
empty token stands for no revision. -/
def valuesRequest? (source : Source) (token : String) : Option Request :=
  (source.remote.valuesUrl? source.edition).map fun url =>
    let request : Request := { url }
    if token.isEmpty then request else request.withHeader ifNoneMatch token

/-- The newest edition there is data for, as told by the `body` of a response that there is none for
the edition at hand: one number, and blanks around it. -/
def serverVersion? (body : Bytes) : Option Int :=
  (Utf8.decode? body).bind fun text => Number.parse? (Blank.trim text.toList)

/-- What follows if there are no values for the edition. A `body` that tells no edition counts as
edition zero. -/
def judgeMissing (source : Source) (token : String) (body : Bytes) : ValuesJudgement :=
  let server := (serverVersion? body).getD 0
  let availability := Availability.ofMissing server source.edition.version source.dataVersion
  { answer := .notFound
    availability
    token
    records :=
      (if (serverVersion? body).isSome then []
        else [record .debug "Unparseable server version" [("body", Utf8.decodeLossy body)]]) ++
      [record .debug "No traffic data" [source.editionField, ("server_version", toString server),
        ("availability", availability.name)]] }

/-- What follows from values that were sent. The revision token is that of the `response`, if it has
one, and else `token`. -/
def judgeBody (source : Source) (token : String) (response : Response) : ValuesJudgement :=
  match Values.decode response.body with
  | .ok values =>
    { answer := .new values
      availability := .available
      token := (response.header? revisionHeader).getD token }
  | .error e =>
    { answer := .failed (.values e)
      availability := .noData
      event := some (.readError source.edition.region source.edition.version)
      token
      records := [record .warn "Could not read traffic values received from server"
        (source.editionFields ++ [("error", e.message)])] }

/-- What follows from a reply to a request for values that differ from those of revision `token`,
told by the status: `judgeBody` for `.ok`, `judgeMissing` for `.notFound`. -/
def judgeValues (source : Source) (request : Request) (token : String) : Reply → ValuesJudgement
  | .error e =>
    { answer := .failed (.transport e)
      availability := .unknown
      event := some (.networkError none)
      token
      records := [record .info "Couldn't run traffic request"
        [("url", request.url), ("error", e.message)]] }
  | .ok response =>
    if response.status = .ok then source.judgeBody token response
    else if response.status = .notFound then source.judgeMissing token response.body
    else if response.status = .notModified then
      { answer := .notChanged, availability := .available, token }
    else
      { answer := .failed (.unexpectedStatus response.status)
        availability := .unknown
        event := some (.networkError (some response.status))
        token
        records := [record .info "Traffic request failed"
          [source.editionField, ("status", response.status.description)]] }

end Source

end RoadTraffic
