import RoadTraffic.Availability
import RoadTraffic.Coloring
import RoadTraffic.Report

/-!
# Summaries

What is reported of a key list, of speed groups and of a coloring.
-/

namespace RoadTraffic

/-- A segment in a report. -/
def SegmentId.report (id : SegmentId) : Report :=
  .record [("feature_id", .number id.featureId.toNat), ("point_index", .number id.pointIndex.toNat),
    ("direction", .text id.direction.name)]

/-- What is said of a key list. -/
structure KeysSummary where
  segments : Nat
  /-- The number of stretches of keys of one road. -/
  features : Nat
  /-- How many of them have a segment against the direction of the points. -/
  twoWay : Nat
  first : Option SegmentId
  last : Option SegmentId
  deriving DecidableEq, Repr

namespace KeysSummary

/-- The stretches of `keys` of one road. -/
def stretches (keys : List SegmentId) : List (List SegmentId) :=
  keys.splitBy fun a b => a.featureId == b.featureId

/-- What is said of the list of `keys`. -/
def of (keys : List SegmentId) : KeysSummary :=
  let roads := stretches keys
  { segments := keys.length
    features := roads.length
    twoWay := roads.countP fun road => road.any (·.direction == .backward)
    first := keys.head?
    last := keys.getLast? }

/-- A segment in a report, if there is one. -/
def optional : Option SegmentId → Report
  | some id => id.report
  | none => .null

/-- The `summary` in a report. -/
def report (summary : KeysSummary) : Report :=
  .record [("segments", .number summary.segments), ("features", .number summary.features),
    ("one_way_features", .number (summary.features - summary.twoWay)),
    ("two_way_features", .number summary.twoWay), ("first", optional summary.first),
    ("last", optional summary.last)]

end KeysSummary

namespace SpeedGroup

/-- How often groups have occurred so far, for those that have. -/
abbrev Counts : Type := Std.ExtTreeMap SpeedGroup Nat

/-- Counts one more occurrence of a `group`. -/
def tally (counts : Counts) (group : SpeedGroup) : Counts :=
  counts.alter group fun count => some (count.getD 0 + 1)

/-- How often each group occurs among those that do, in the order of their names: one `tally` for
each of the `groups`. -/
def histogram (groups : List SpeedGroup) : List (SpeedGroup × Nat) :=
  (groups.foldl tally ∅).toList

/-- The frequencies of `groups` in a report. -/
def histogramReport (groups : List SpeedGroup) : Report :=
  .record ((histogram groups).map fun (group, count) => (group.name, .number count))

end SpeedGroup

/-- A `coloring` in a report: how many segments have a group, and how many each group. -/
def Coloring.report (coloring : Coloring) : Report :=
  .record [("segments", .number coloring.size),
    ("speed_groups", SpeedGroup.histogramReport (coloring.toList.map (·.2)))]

end RoadTraffic
