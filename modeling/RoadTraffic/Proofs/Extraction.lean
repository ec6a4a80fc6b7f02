import Mathlib
import RoadTraffic.Extraction
import RoadTraffic.Proofs.KeyAcceptance

/-!
# What can be extracted

The keys of a map are those of its roads that have a segment, each of them a run.

* `Feature.run?`: the run of a feature, if it is a road with a segment.
* `Feature.keys_eq_ok_iff`: the keys of one feature are those of its run, if it has one.
* `Extraction.keys_eq_ok_iff`: when keys are extracted from features, and which.
* `Extraction.exists_encode_of_keys`: the lists that are extracted are those that can be packed.
-/

namespace RoadTraffic

namespace Feature

/-- The run of a feature: only a road with two points or more (`segmentCount ≠ 0`) has one. -/
def run? (feature : Feature) : Option Run :=
  if feature.isRoad ∧ feature.segmentCount ≠ 0 then
    some ⟨feature.id, UInt16.ofNat (feature.segmentCount - 1), feature.oneWay⟩
  else none

/-- The points of a road can be told apart by a `pointIndex` of 16 bits. -/
def IsIndexable (feature : Feature) : Prop :=
  feature.isRoad → feature.pointCount ≤ maxSegments + 1

theorem featureId_of_run? {feature : Feature} {run : Run} (h : feature.run? = some run) :
    run.featureId = feature.id := by
  unfold run? at h
  split at h <;> cases h
  rfl

theorem keys_eq_ok_iff {feature : Feature} {ids : List SegmentId} :
    feature.keys = .ok ids ↔ feature.IsIndexable ∧ ids = feature.run?.toList.flatMap Run.keys := by
  obtain ⟨id, pointCount, isRoad, oneWay⟩ := feature
  cases isRoad with
  | false => simp [keys, run?, IsIndexable, eq_comm]
  | true =>
    by_cases hmany : pointCount - 1 > maxSegments
    · have : ¬ pointCount ≤ maxSegments + 1 := by omega
      simp [keys, IsIndexable, segmentCount, hmany, this]
    · have hfew : pointCount ≤ maxSegments + 1 := by omega
      by_cases hnone : pointCount - 1 = 0
      · simp [keys, run?, IsIndexable, segmentCount, hnone, hfew, eq_comm]
      · simp [keys, run?, IsIndexable, segmentCount, hmany, hnone, hfew, eq_comm]

/-- The road that has the segments of `run`, with one point more than segments. -/
def ofRun (run : Run) : Feature := ⟨run.featureId, run.segmentCount + 1, true, run.oneWay⟩

theorem run?_ofRun (run : Run) : (ofRun run).run? = some run := by
  simp [run?, ofRun, segmentCount, Run.segmentCount]

theorem isIndexable_ofRun (run : Run) : (ofRun run).IsIndexable := by
  intro _
  have := run.lastIndex.toNat_lt
  simp only [ofRun, Run.segmentCount, maxSegments]
  omega

end Feature

namespace Extraction

variable {features : List Feature} {ids : List SegmentId}

/-- The loop `keysFrom` goes through `features` as long as each is above the last one and can be
indexed. The keys of earlier features stand in `done`, the last ones first. -/
theorem keysFrom_eq_ok_iff {previous : Option UInt32} {done : List (List SegmentId)} :
    keysFrom previous done features = .ok ids ↔
      (previous.toList ++ features.map (·.id)).IsChain (· < ·) ∧
      (∀ feature ∈ features, feature.IsIndexable) ∧
      ids = done.reverse.flatten ++ (features.filterMap Feature.run?).flatMap Run.keys := by
  induction features generalizing previous done with
  | nil => cases previous <;> simp [keysFrom, eq_comm]
  | cons feature features ih =>
    -- The check against the previous feature, as a statement about it.
    have habove : previous.filter (· ≥ feature.id) = none ↔
        ∀ last ∈ previous, last < feature.id := by
      cases previous <;> simp [Option.filter]
    have hkeys : (feature :: features).filterMap Feature.run? =
        feature.run?.toList ++ features.filterMap Feature.run? := by
      cases h : feature.run? <;> simp [h]
    rw [List.map_cons, Keys.isChain_toList_append_cons, List.forall_mem_cons, hkeys,
      List.flatMap_append]
    unfold keysFrom
    constructor
    · intro h
      split at h
      · cases h
      · next hnone =>
        split at h
        · cases h
        · next own hown =>
          obtain ⟨hindexable, rfl⟩ := Feature.keys_eq_ok_iff.mp hown
          obtain ⟨hchain, hall, rfl⟩ := ih.mp h
          exact ⟨⟨habove.mp hnone, hchain⟩, ⟨hindexable, hall⟩, by simp⟩
    · rintro ⟨⟨hlast, hchain⟩, ⟨hindexable, hall⟩, rfl⟩
      rw [habove.mpr hlast, Feature.keys_eq_ok_iff.mpr ⟨hindexable, rfl⟩]
      exact ih.mpr ⟨hchain, hall, by simp⟩

/-- The `keys features` are extracted if the features are in rising order and no road has too many
points. They are those of the runs of the features. -/
theorem keys_eq_ok_iff : keys features = .ok ids ↔
    (features.map (·.id)).IsChain (· < ·) ∧ (∀ feature ∈ features, feature.IsIndexable) ∧
      ids = (features.filterMap Feature.run?).flatMap Run.keys := by
  simp [keys, keysFrom_eq_ok_iff]

theorem ascending_filterMap_run? (h : (features.map (·.id)).IsChain (· < ·)) :
    Keys.Ascending (features.filterMap Feature.run?) := by
  have : IsTrans UInt32 (· < ·) := ⟨fun _ _ _ => UInt32.lt_trans⟩
  have hpairwise := List.pairwise_map.mp (List.isChain_iff_pairwise.mp h)
  rw [Keys.ascending_iff_pairwise, List.pairwise_filterMap]
  refine hpairwise.imp fun hlt run hrun run' hrun' => ?_
  rwa [Feature.featureId_of_run? hrun, Feature.featureId_of_run? hrun']

/-! ## Lists that are extracted and lists that are packed -/

theorem keys_map_ofRun {rs : List Run} (h : Keys.Ascending rs) :
    keys (rs.map Feature.ofRun) = .ok (rs.flatMap Run.keys) := by
  refine keys_eq_ok_iff.mpr ⟨?_, ?_, ?_⟩
  · rw [List.map_map]
    exact (List.isChain_map _).mpr h
  · intro feature hfeature
    obtain ⟨run, -, rfl⟩ := List.mem_map.mp hfeature
    exact Feature.isIndexable_ofRun run
  · have hruns : Feature.run? ∘ Feature.ofRun = some := funext Feature.run?_ofRun
    rw [List.filterMap_map, hruns, List.filterMap_some]

/-- The roads in `rs.flatMap Run.keys` are those of the runs `rs`, once each. -/
theorem dedup_featureId_flatMap_keys {rs : List Run} (h : Keys.Ascending rs) :
    ((rs.flatMap Run.keys).map (·.featureId)).dedup = rs.map (·.featureId) := by
  have hroads := SegmentId.pairwise_lt_dedup_featureId (Keys.pairwise_lt_flatMap_keys h)
  have hruns : (rs.map (·.featureId)).Pairwise (· < ·) :=
    List.pairwise_map.mpr (Keys.ascending_iff_pairwise.mp h)
  have hmem (road : UInt32) : road ∈ ((rs.flatMap Run.keys).map (·.featureId)).dedup ↔
      road ∈ rs.map (·.featureId) := by
    simp only [List.mem_dedup, List.mem_map, List.mem_flatMap]
    constructor
    · rintro ⟨id, ⟨run, hrun, hid⟩, rfl⟩
      exact ⟨run, hrun, (Run.mem_keys.mp hid).1.symm⟩
    · rintro ⟨run, hrun, rfl⟩
      have hhead := List.head_mem run.keys_ne_nil
      exact ⟨_, ⟨run, hrun, hhead⟩, (Run.mem_keys.mp hhead).1⟩
  exact ((List.perm_ext_iff_of_nodup hroads.nodup hruns.nodup).mpr hmem).eq_of_pairwise
    (fun _ _ _ _ hlt hgt => absurd hgt (UInt32.lt_asymm hlt)) hroads hruns

/-- **What is extracted can be packed, and only that.** Whatever mix of `features` it is that `ids`
are extracted from, `Keys.encode ids` succeeds. A list that can be packed is what is extracted from
roads alone, one for each road that it names. -/
theorem exists_encode_of_keys (ids : List SegmentId) :
    (∀ features, keys features = .ok ids → ∃ bytes, Keys.encode ids = .ok bytes) ∧
    ∀ bytes, Keys.encode ids = .ok bytes → ∃ roads, keys roads = .ok ids ∧
      (∀ road ∈ roads, road.isRoad) ∧ roads.map (·.id) = (ids.map (·.featureId)).dedup := by
  constructor
  · intro features h
    obtain ⟨hchain, -, rfl⟩ := keys_eq_ok_iff.mp h
    exact Keys.exists_encode_iff.mpr
      (Keys.isCanonical_flatMap_keys (ascending_filterMap_run? hchain))
  · intro bytes h
    obtain ⟨rs, hasc, rfl, -⟩ := Keys.exists_decodeRuns_of_encode h
    refine ⟨rs.map Feature.ofRun, keys_map_ofRun hasc, ?_, ?_⟩
    · intro road hroad
      obtain ⟨run, -, rfl⟩ := List.mem_map.mp hroad
      rfl
    · rw [dedup_featureId_flatMap_keys hasc, List.map_map]
      rfl

/-- A one-way road, a building, a road with a single point, and a road with as many points as can be
told apart. -/
theorem exists_encode_of_keys_mixed :
    let features : List Feature :=
      [⟨1, 4, true, true⟩, ⟨2, 10, false, false⟩, ⟨4, 1, true, false⟩, ⟨7, 65537, true, false⟩]
    let ids := [⟨1, 2, true⟩, ⟨7, 0xFFFF, false⟩].flatMap Run.keys
    keys features = .ok ids ∧ ∃ bytes, Keys.encode ids = .ok bytes ∧
      ∃ roads, keys roads = .ok ids ∧ roads.map (·.id) = [1, 7] := by
  intro features ids
  have hkeys : keys features = .ok ids := keys_eq_ok_iff.mpr
    ⟨by decide, by simp [features, Feature.IsIndexable, Feature.maxSegments], rfl⟩
  obtain ⟨hencode, hroads⟩ := exists_encode_of_keys ids
  obtain ⟨bytes, hbytes⟩ := hencode features hkeys
  obtain ⟨roads, hroads, -, hids⟩ := hroads bytes hbytes
  rw [dedup_featureId_flatMap_keys (by simp [Keys.Ascending])] at hids
  exact ⟨hkeys, bytes, hbytes, roads, hroads, hids⟩

end Extraction

end RoadTraffic
