import RoadTraffic.Http.Status
import RoadTraffic.Log

/-!
# Telemetry

Events tell of failures that concern the service as a whole. Where nobody listens to them they are
written to the log.
-/

namespace RoadTraffic

/-- A failure worth reporting. -/
inductive TrafficEvent where
  /-- Values were received that cannot be unpacked. -/
  | readError (region : String) (version : Int)
  /-- Values were received that are more or fewer than the keys. -/
  | updateError (keys values : Nat)
  /-- Values were refused with the given status, or no response came in. -/
  | networkError (status : Option Status)
  deriving DecidableEq, Repr

namespace TrafficEvent

/-- The name of an event, as reports spell it. -/
def name : TrafficEvent → String
  | readError .. => "TrafficReadError"
  | updateError .. => "TrafficUpdateError"
  | networkError .. => "TrafficNetworkError"

/-- The text of an event: its name, and what is known of it in braces. -/
def description (event : TrafficEvent) : String :=
  let facts := match event with
    | readError region version => s!"mwm: {region}, version: {version}"
    | updateError keys values => s!"keysCount: {keys}, valuesCount: {values}"
    | networkError (some status) => s!"code: {status.code}"
    | networkError none => "code: none"
  event.name ++ " \x7b" ++ facts ++ "\x7d"

/-- The values of an event, by name, for the log. -/
def fields : TrafficEvent → List (String × String)
  | readError region version => [("region", region), ("version", toString version)]
  | updateError keys values =>
    [("keys_count", toString keys), ("values_count", toString values)]
  | networkError (some status) => [("code", toString status.code)]
  | networkError none => []

/-- The log record of an event. It has no text, and its name is a field of it. -/
def record (event : TrafficEvent) : LogRecord where
  level := .warn
  target := "telemetry"
  message := none
  fields := ("event", event.name) :: event.fields

end TrafficEvent

end RoadTraffic
