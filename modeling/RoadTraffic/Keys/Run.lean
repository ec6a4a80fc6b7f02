import RoadTraffic.Keys.Error
import RoadTraffic.Segment

/-!
# Runs of keys

The keys of one road follow from three facts: the road, how many segments it has, and whether it is
one-way. A key list that consists of such runs, of roads in rising order, is canonical.

* `Run.keys`: the keys that a run stands for.
* `Keys.runs`: the runs of a canonical list, or why it is none.
-/

namespace RoadTraffic

/-- The segments of one road, from its first point on. -/
structure Run where
  featureId : UInt32
  /-- The point at which the last segment starts; there is one segment more than that. -/
  lastIndex : UInt16
  oneWay : Bool
  deriving DecidableEq, Repr

namespace Run

/-- The directions in which a road is travelled: one-way with its points only. -/
def directionsOf (oneWay : Bool) : List Direction :=
  if oneWay then [.forward] else [.forward, .backward]

/-- The number of segments, not counting directions: `lastIndex + 1`. -/
def segmentCount (run : Run) : Nat := run.lastIndex.toNat + 1

/-- The number of keys: one for every segment and direction. -/
def size (run : Run) : Nat := run.segmentCount * (directionsOf run.oneWay).length

/-- The keys of a run: every segment in order, in every direction. -/
def keys (run : Run) : List SegmentId :=
  (List.range run.segmentCount).flatMap fun index =>
    (directionsOf run.oneWay).map fun direction => ⟨run.featureId, UInt16.ofNat index, direction⟩

theorem length_keys (run : Run) : run.keys.length = run.size := by
  rw [keys, size, List.length_flatMap]
  simp only [List.length_map]
  induction run.segmentCount with
  | zero => exact (Nat.zero_mul _).symm
  | succ count ih =>
    rw [List.range_succ, List.map_append, List.sum_append, ih, Nat.succ_mul]
    rfl

/-- The run that consists of the given `keys`, all of road `featureId`. A road is one-way if none of
its keys goes backward. -/
def ofKeys (featureId : UInt32) (keys : List SegmentId) : Except KeysError Run :=
  let oneWay := keys.all (·.direction == .forward)
  let directions := (directionsOf oneWay).length
  let run : Run := ⟨featureId, UInt16.ofNat (keys.length / directions - 1), oneWay⟩
  if keys.length % directions ≠ 0 then
    .error (.inconsistentRun featureId keys.length directions)
  else if keys = run.keys then .ok run
  else .error (.nonCanonicalRun featureId)

end Run

namespace Keys

/-- Collects runs block by block: the blocks from index `start` on, behind the runs in `done`, last
one first. -/
def runsFrom (start : Nat) (done : List Run) : List (List SegmentId) → Except KeysError (List Run)
  | [] => .ok done.reverse
  | [] :: blocks => runsFrom start done blocks
  | (first :: others) :: blocks =>
    if done.head?.any (·.featureId ≥ first.featureId) then .error (.unsorted start)
    else
      match Run.ofKeys first.featureId (first :: others) with
      | .error e => .error e
      | .ok run => runsFrom (start + (first :: others).length) (run :: done) blocks

/-- The runs of a canonical key list. The first block of equal `featureId` that is out of order or
is no run decides the fault. -/
def runs (keys : List SegmentId) : Except KeysError (List Run) :=
  runsFrom 0 [] (keys.splitBy fun a b => a.featureId == b.featureId)

end Keys

end RoadTraffic
