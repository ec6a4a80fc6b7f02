import RoadTraffic.Availability
import RoadTraffic.Coloring
import RoadTraffic.Http.Message
import RoadTraffic.Telemetry

/-!
# Sessions

A session is what is known of the traffic of one edition at a moment, together with what has
happened so far: requests, events and log records, in order. An operation is a step of a session;
what goes on around it, such as waiting for a response, is the business of the monad `m`.
-/

namespace RoadTraffic

/-- What a reader sees: keys, the coloring, and whether it can be trusted. All of it is seen
together. -/
structure Snapshot where
  keys : List SegmentId := []
  coloring : Coloring := .empty
  availability : Availability := .unknown
  /-- How many colorings have been put in place of the one before. -/
  published : Nat := 0

/-- Something that happened in a session, in the order of `Session.trace`. -/
inductive Occurrence where
  | request (request : Request)
  /-- An event, and what a reader sees when it is reported. -/
  | event (event : TrafficEvent) (seen : Snapshot)
  | record (record : LogRecord)

/-- What is known, and what has happened. -/
structure Session where
  snapshot : Snapshot := {}
  trace : List Occurrence := []

/-- A step of a session, which may do what `m` does besides. -/
abbrev SessionT (m : Type → Type) (α : Type) := StateT Session m α

namespace Session

variable {m : Type → Type} [Monad m]

/-- Adds an `occurrence` to the trace. -/
def note (occurrence : Occurrence) : SessionT m Unit :=
  modify fun session => { session with trace := session.trace ++ [occurrence] }

/-- Adds log `records` to the trace. -/
def log (records : List LogRecord) : SessionT m Unit :=
  modify fun session => { session with trace := session.trace ++ records.map .record }

/-- Changes what a reader sees, the whole of it at once. -/
def publish (change : Snapshot → Snapshot) : SessionT m Unit :=
  modify fun session => { session with snapshot := change session.snapshot }

/-- Reports an `event`, together with what a reader sees now. -/
def report (event : TrafficEvent) : SessionT m Unit :=
  modify fun session =>
    { session with trace := session.trace ++ [.event event session.snapshot] }

/-- Replaces the keys and nothing else. -/
def replaceKeys (keys : List SegmentId) : SessionT m Unit :=
  publish fun snapshot => { snapshot with keys }

/-- Replaces the verdict and nothing else. -/
def setAvailability (availability : Availability) : SessionT m Unit :=
  publish fun snapshot => { snapshot with availability }

end Session

namespace Occurrence

/-- The requests among the occurrences of a `trace`. -/
def requests (trace : List Occurrence) : List Request :=
  trace.filterMap fun
    | .request made => some made
    | _ => none

/-- The events among the occurrences of a `trace`, and what a reader saw when they were reported. -/
def events (trace : List Occurrence) : List (TrafficEvent × Snapshot) :=
  trace.filterMap fun
    | .event reported seen => some (reported, seen)
    | _ => none

/-- The log of a `trace`. Events are part of it if they are written to the log, as
`TrafficEvent.record` tells them. -/
def records (withEvents : Bool) (trace : List Occurrence) : List LogRecord :=
  trace.filterMap fun
    | .record written => some written
    | .event reported _ => if withEvents then some reported.record else none
    | .request _ => none

end Occurrence

end RoadTraffic
