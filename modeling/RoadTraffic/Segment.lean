/-!
# Road segments

A road is a line of points. Each stretch between two neighbouring points is a segment, named by the
road, the first of its two points and a direction of travel. Segments are ordered by road, then by
point, then forward before backward; the list of all segments of a map is kept in that order.
-/

namespace RoadTraffic

/-- The direction of travel along a segment, relative to the order of the points. -/
inductive Direction where
  /-- With the points; a one-way road has only this direction. -/
  | forward
  /-- Against the points. -/
  | backward
  deriving DecidableEq, Repr, Inhabited

namespace Direction

/-- The place of a direction in the order: `.forward` comes first. -/
def rank : Direction → Nat
  | .forward => 0
  | .backward => 1

/-- The name of a direction, as messages spell it. -/
def name : Direction → String
  | .forward => "Forward"
  | .backward => "Backward"

theorem rank_injective {a b : Direction} (h : a.rank = b.rank) : a = b := by
  cases a <;> cases b <;> first | rfl | cases h

end Direction

/-- A directed segment of a road. -/
structure SegmentId where
  /-- The road. -/
  featureId : UInt32
  /-- The first of the two points. -/
  pointIndex : UInt16
  direction : Direction
  deriving DecidableEq, Repr, Inhabited

namespace SegmentId

/-- By `featureId`, then by `pointIndex`, then by `direction`. -/
def order : SegmentId → SegmentId → Ordering :=
  compareLex (compareOn (·.featureId.toNat))
    (compareLex (compareOn (·.pointIndex.toNat)) (compareOn (·.direction.rank)))

instance : Ord SegmentId := ⟨order⟩

instance : LT SegmentId := ltOfOrd

instance : LE SegmentId := leOfOrd

instance : Std.TransOrd SegmentId :=
  inferInstanceAs (Std.TransCmp (compareLex (compareOn fun id : SegmentId => id.featureId.toNat)
    (compareLex (compareOn fun id : SegmentId => id.pointIndex.toNat)
      (compareOn fun id : SegmentId => id.direction.rank))))

instance : Std.LawfulEqOrd SegmentId where
  eq_of_compare {a b} h := by
    change order a b = .eq at h
    simp only [order, compareLex, compareOn, Ordering.then_eq_eq, Nat.compare_eq_eq] at h
    obtain ⟨hfeature, hpoint, hdirection⟩ := h
    cases a
    cases b
    simp only [SegmentId.mk.injEq]
    exact ⟨UInt32.toNat_inj.1 hfeature, UInt16.toNat_inj.1 hpoint,
      Direction.rank_injective hdirection⟩

/-- The text of a segment, as messages spell it. -/
def description (id : SegmentId) : String :=
  s!"RoadSegmentId [ fid = {id.featureId.toNat} idx = {id.pointIndex.toNat} " ++
    s!"dir = {id.direction.name} ]"

/-- A list that never steps down. The same segment may follow itself. -/
def isSorted : List SegmentId → Bool
  | a :: b :: rest => compare a b != .gt && isSorted (b :: rest)
  | _ => true

/-- The `ids` in order, those that are equal side by side. -/
def sort (ids : List SegmentId) : List SegmentId := ids.mergeSort (compare · · != .gt)

end SegmentId

end RoadTraffic
