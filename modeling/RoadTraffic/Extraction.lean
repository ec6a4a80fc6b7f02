import RoadTraffic.Keys.Run

/-!
# Extracting the key list of a map

The features of a map come in rising order. Those that are roads yield a segment for every two
neighbouring points; a one-way road is travelled with its points only.

* `Feature.keys`: the keys of one feature, which are those of a `Run`.
* `Extraction.keys`: the keys of all features, and which of them are refused.
-/

namespace RoadTraffic

/-- A feature of a map, with what its classification says of it. -/
structure Feature where
  id : UInt32
  pointCount : Nat
  isRoad : Bool
  oneWay : Bool
  deriving DecidableEq, Repr

/-- Why no key list can be extracted. -/
inductive ExtractionError where
  /-- The feature `featureId` comes after `previous`, which is not below it. -/
  | unsorted (previous featureId : UInt32)
  /-- A road has more than `maxSegments` segments, which point numbers of 16 bits cannot tell
  apart. -/
  | tooManyPoints (featureId : UInt32) (pointCount : Nat)
  deriving DecidableEq, Repr

/-- The wording of a fault. -/
def ExtractionError.message : ExtractionError → String
  | .unsorted previous featureId =>
    s!"Feature {featureId.toNat} follows feature {previous.toNat}; " ++
      "features must be in ascending order"
  | .tooManyPoints featureId pointCount =>
    s!"Road feature {featureId.toNat} has {pointCount} points, which is too many to index"

namespace Feature

/-- The most segments of a road: as many as a `UInt16` has values. -/
def maxSegments : Nat := 0x10000

/-- The number of segments, were it a road: one less than it has points, and none without points. -/
def segmentCount (feature : Feature) : Nat := feature.pointCount - 1

/-- The keys of a feature: none if it is no road or has no two points, else those of a `Run`. -/
def keys (feature : Feature) : Except ExtractionError (List SegmentId) :=
  if !feature.isRoad then .ok []
  else if feature.segmentCount > maxSegments then
    .error (.tooManyPoints feature.id feature.pointCount)
  else if feature.segmentCount = 0 then .ok []
  else .ok (Run.mk feature.id (UInt16.ofNat (feature.segmentCount - 1)) feature.oneWay).keys

end Feature

namespace Extraction

/-- Extracts keys feature by feature, after the feature `previous` and the keys in `done`, last
feature first. -/
def keysFrom (previous : Option UInt32) (done : List (List SegmentId)) :
    List Feature → Except ExtractionError (List SegmentId)
  | [] => .ok done.reverse.flatten
  | feature :: features =>
    match previous.filter (· ≥ feature.id) with
    | some previous => .error (.unsorted previous feature.id)
    | none =>
      match feature.keys with
      | .error e => .error e
      | .ok keys => keysFrom (some feature.id) (keys :: done) features

/-- The key list of the `features` of a map. -/
def keys (features : List Feature) : Except ExtractionError (List SegmentId) :=
  keysFrom none [] features

end Extraction

end RoadTraffic
