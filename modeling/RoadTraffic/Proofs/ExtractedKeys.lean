import Mathlib
import RoadTraffic.Proofs.Extraction

/-!
# Which keys are extracted, and when none are

The features of a map are gone through one by one, up to the first one that does not come after the
one before it or is a road with too many points.

* `Feature.exists_mem_keys_iff`: the keys of one feature.
* `Feature.FaultAfter last? feature e`: `feature` is refused with `e` when `last?` came before.
* `Extraction.keysFrom_cons_cases`: what one feature does, whatever came before it.
* `Extraction.keysFrom_eq_error_iff`: `keysFrom` fails with `e` exactly if it `EndsAt` a feature.
* `Extraction.keys_eq_iff`: when keys are extracted, which ones, and what is told otherwise.
-/

namespace RoadTraffic

namespace SegmentId

/-- A list that always steps up never steps down, which is what `isSorted` looks at. -/
theorem isSorted_of_pairwise_lt {ids : List SegmentId} (h : ids.Pairwise (· < ·)) :
    isSorted ids = true := by
  induction ids with
  | nil => rfl
  | cons first others ih =>
    obtain ⟨hfirst, hothers⟩ := List.pairwise_cons.mp h
    cases others with
    | nil => rfl
    | cons second rest =>
      have hlt : compare first second = .lt := hfirst second List.mem_cons_self
      rw [isSorted, hlt, ih hothers]
      rfl

end SegmentId

namespace Feature

variable {feature : Feature} {id : SegmentId}

/-- A road has a key for each `pointIndex` but that of its last point, forward and, unless it is
`oneWay`, backward. What is no road has none. -/
theorem exists_mem_keys_iff (h : feature.IsIndexable) :
    (∃ run, feature.run? = some run ∧ id ∈ run.keys) ↔
      feature.isRoad ∧ id.featureId = feature.id ∧
        id.pointIndex.toNat + 1 < feature.pointCount ∧
        (id.direction = .forward ∨ feature.oneWay = false) := by
  have hdirection : id.direction ∈ Run.directionsOf feature.oneWay ↔
      id.direction = .forward ∨ feature.oneWay = false := by
    cases feature.oneWay <;> cases id.direction <;> decide
  by_cases hrun : feature.isRoad ∧ feature.segmentCount ≠ 0
  · obtain ⟨hroad, hsegments⟩ := hrun
    have hfew : feature.pointCount ≤ 65537 := h hroad
    rw [segmentCount] at hsegments
    -- With at most 65537 points the index of the last segment does not wrap around in `UInt16`.
    have hpoint : id.pointIndex ≤ UInt16.ofNat (feature.segmentCount - 1) ↔
        id.pointIndex.toNat + 1 < feature.pointCount := by
      rw [UInt16.le_iff_toNat_le, UInt16.toNat_ofNat', segmentCount,
        Nat.mod_eq_of_lt (by omega)]
      omega
    simp only [run?, hroad, segmentCount, ne_eq, hsegments, not_false_eq_true, and_self,
      ↓reduceIte, Option.some.injEq, exists_eq_left', Run.mem_keys, hdirection, true_and]
    rw [← hpoint, segmentCount]
  -- No segment: the feature is no road, or has no two points.
  · have hnone : feature.run? = none := if_neg hrun
    have hshort : feature.isRoad → feature.pointCount ≤ 1 := fun hroad => by
      have := not_and.mp hrun hroad
      rw [segmentCount] at this
      omega
    constructor
    · rintro ⟨run, hsome, -⟩
      cases hnone.symm.trans hsome
    · rintro ⟨hroad, -, hpoint, -⟩
      have := hshort hroad
      omega

/-- What is told of `feature` if the one with the number `last?` came before it, or none did. -/
inductive FaultAfter (last? : Option UInt32) (feature : Feature) : ExtractionError → Prop where
  /-- It does not come after it. That counts before anything else does. -/
  | unsorted {last : UInt32} (hlast : last ∈ last?) (hbelow : feature.id ≤ last) :
      FaultAfter last? feature (.unsorted last feature.id)
  /-- It is a road with too many points. -/
  | tooManyPoints (habove : ∀ last ∈ last?, last < feature.id) (hroad : feature.isRoad)
      (hmany : 65537 < feature.pointCount) :
      FaultAfter last? feature (.tooManyPoints feature.id feature.pointCount)

variable {last? : Option UInt32} {e e' : ExtractionError}

theorem FaultAfter.unique (h : FaultAfter last? feature e) (h' : FaultAfter last? feature e') :
    e = e' := by
  cases h with
  | unsorted hlast hbelow =>
    cases h' with
    | unsorted hlast' => rw [Option.some.inj (hlast.symm.trans hlast')]
    | tooManyPoints habove => exact absurd (habove _ hlast) (UInt32.not_lt.mpr hbelow)
  | tooManyPoints habove =>
    cases h' with
    | unsorted hlast hbelow => exact absurd (habove _ hlast) (UInt32.not_lt.mpr hbelow)
    | tooManyPoints => rfl

/-- A feature that comes after `last?` and can be indexed is not at fault. -/
theorem not_faultAfter (habove : ∀ last ∈ last?, last < feature.id)
    (hindexable : feature.IsIndexable) : ¬ FaultAfter last? feature e := by
  intro h
  cases h with
  | unsorted hlast hbelow => exact absurd (habove _ hlast) (UInt32.not_lt.mpr hbelow)
  | tooManyPoints _ hroad hmany => exact absurd (hindexable hroad) (Nat.not_le.mpr hmany)

end Feature

namespace Extraction

variable {features before after : List Feature} {feature : Feature} {ids : List SegmentId}
  {previous : Option UInt32} {e : ExtractionError}

/-! ## Where extraction ends -/

/-- A feature at fault ends the extraction; any other adds the keys of its `run?`. -/
theorem keysFrom_cons_cases (previous : Option UInt32) (done : List (List SegmentId))
    (feature : Feature) (features : List Feature) :
    (∃ e, Feature.FaultAfter previous feature e ∧
      keysFrom previous done (feature :: features) = .error e) ∨
    (∀ last ∈ previous, last < feature.id) ∧ feature.IsIndexable ∧
      keysFrom previous done (feature :: features) =
        keysFrom (some feature.id) (feature.run?.toList.flatMap Run.keys :: done) features := by
  rw [keysFrom]
  split
  · next last hlast =>
    obtain ⟨hmem, hbelow⟩ := Option.filter_eq_some_iff.mp hlast
    -- The order is checked before the feature is looked at.
    exact .inl ⟨_, .unsorted hmem (of_decide_eq_true hbelow), rfl⟩
  · next hnone =>
    have habove : ∀ last ∈ previous, last < feature.id := fun last hlast =>
      UInt32.not_le.mp fun hbelow =>
        Option.filter_eq_none_iff.mp hnone last hlast (decide_eq_true hbelow)
    by_cases hindexable : feature.IsIndexable
    · rw [Feature.keys_eq_ok_iff.mpr ⟨hindexable, rfl⟩]
      exact .inr ⟨habove, hindexable, rfl⟩
    · obtain ⟨hroad, hmany⟩ := Classical.not_imp.mp hindexable
      have hkeys : feature.keys = .error (.tooManyPoints feature.id feature.pointCount) := by
        have : feature.segmentCount > Feature.maxSegments := by
          rw [Feature.segmentCount]
          omega
        simp [Feature.keys, hroad, this]
      rw [hkeys]
      exact .inl ⟨_, .tooManyPoints habove hroad (Nat.not_le.mp hmany), rfl⟩

/-- All features `before` are in order, and `feature` is at fault with `e`. -/
def EndsAt (previous : Option UInt32) (e : ExtractionError) (before : List Feature)
    (feature : Feature) : Prop :=
  (previous.toList ++ before.map (·.id)).IsChain (· < ·) ∧
    (∀ feature ∈ before, feature.IsIndexable) ∧
    Feature.FaultAfter (previous.toList ++ before.map (·.id)).getLast? feature e

theorem endsAt_nil : EndsAt previous e [] feature ↔ Feature.FaultAfter previous feature e := by
  cases previous <;> simp [EndsAt]

theorem endsAt_cons {first : Feature} : EndsAt previous e (first :: before) feature ↔
    (∀ last ∈ previous, last < first.id) ∧ first.IsIndexable ∧
      EndsAt (some first.id) e before feature := by
  have hlast : (previous.toList ++ (first :: before).map (·.id)).getLast? =
      ((some first.id).toList ++ before.map (·.id)).getLast? :=
    List.getLast?_append_of_ne_nil _ (List.cons_ne_nil _ _)
  rw [EndsAt, hlast, List.map_cons, Keys.isChain_toList_append_cons, List.forall_mem_cons]
  exact ⟨fun ⟨⟨habove, hchain⟩, ⟨hfirst, hall⟩, he⟩ => ⟨habove, hfirst, hchain, hall, he⟩,
    fun ⟨habove, hfirst, hchain, hall, he⟩ => ⟨⟨habove, hchain⟩, ⟨hfirst, hall⟩, he⟩⟩

/-- The `feature` looked for is `first`, or one of the others. -/
theorem exists_eq_append_cons_iff {first : Feature} {P : List Feature → Feature → Prop} :
    (∃ before feature after, first :: features = before ++ feature :: after ∧ P before feature) ↔
      P [] first ∨
        ∃ before feature after, features = before ++ feature :: after ∧
          P (first :: before) feature := by
  constructor
  · rintro ⟨_ | ⟨_, before⟩, feature, after, hsplit, h⟩
    · obtain ⟨rfl, rfl⟩ := List.cons.inj hsplit
      exact .inl h
    · obtain ⟨rfl, rfl⟩ := List.cons.inj hsplit
      exact .inr ⟨before, feature, after, rfl, h⟩
  · rintro (h | ⟨before, feature, after, rfl, h⟩)
    · exact ⟨[], first, features, rfl, h⟩
    · exact ⟨first :: before, feature, after, rfl, h⟩

/-- The loop `keysFrom` fails at the first feature at fault, with what is told of it. -/
theorem keysFrom_eq_error_iff {done : List (List SegmentId)} :
    keysFrom previous done features = .error e ↔
      ∃ before feature after, features = before ++ feature :: after ∧
        EndsAt previous e before feature := by
  induction features generalizing previous done with
  | nil => simp [keysFrom]
  | cons first features ih =>
    rw [exists_eq_append_cons_iff, endsAt_nil]
    simp only [endsAt_cons]
    -- Either `first` is at fault, and what comes after it is not looked at, or the rest decides.
    rcases keysFrom_cons_cases previous done first features with
      ⟨fault, hfault, hrun⟩ | ⟨habove, hindexable, hrun⟩
    · rw [hrun]
      constructor
      · rintro ⟨⟩
        exact .inl hfault
      · rintro (he | ⟨_, _, _, -, habove, hindexable, -⟩)
        · rw [hfault.unique he]
        · exact absurd hfault (Feature.not_faultAfter habove hindexable)
    · rw [hrun, ih]
      constructor
      · rintro ⟨before, feature, after, hsplit, he⟩
        exact .inr ⟨before, feature, after, hsplit, habove, hindexable, he⟩
      · rintro (he | ⟨before, feature, after, hsplit, -, -, he⟩)
        · exact absurd he (Feature.not_faultAfter habove hindexable)
        · exact ⟨before, feature, after, hsplit, he⟩

/-! ## Which keys are extracted -/

/-- Features from which keys can be extracted. -/
structure IsAdmissible (features : List Feature) : Prop where
  /-- Every feature, road or not, comes after the one before it. -/
  ascending : (features.map (·.id)).Pairwise (· < ·)
  /-- No road has too many points. -/
  indexable : ∀ feature ∈ features, feature.isRoad → feature.pointCount ≤ 65537

theorem isAdmissible_iff : IsAdmissible features ↔
    (features.map (·.id)).IsChain (· < ·) ∧ ∀ feature ∈ features, feature.IsIndexable := by
  have : IsTrans UInt32 (· < ·) := ⟨fun _ _ _ => UInt32.lt_trans⟩
  rw [List.isChain_iff_pairwise]
  exact ⟨fun h => ⟨h.ascending, h.indexable⟩, fun h => ⟨h.1, h.2⟩⟩

theorem exists_keys_iff : (∃ ids, keys features = .ok ids) ↔ IsAdmissible features := by
  simp only [keys_eq_ok_iff, isAdmissible_iff, exists_and_left, exists_eq, and_true]

theorem mem_keys_iff (h : keys features = .ok ids) {id : SegmentId} :
    id ∈ ids ↔ ∃ feature ∈ features, feature.isRoad ∧ id.featureId = feature.id ∧
      id.pointIndex.toNat + 1 < feature.pointCount ∧
      (id.direction = .forward ∨ feature.oneWay = false) := by
  obtain ⟨-, hindexable, rfl⟩ := keys_eq_ok_iff.mp h
  have hrun : id ∈ (features.filterMap Feature.run?).flatMap Run.keys ↔
      ∃ feature ∈ features, ∃ run, feature.run? = some run ∧ id ∈ run.keys := by
    simp only [List.mem_flatMap, List.mem_filterMap]
    exact ⟨fun ⟨run, ⟨feature, hfeature, hrun⟩, hid⟩ => ⟨feature, hfeature, run, hrun, hid⟩,
      fun ⟨feature, hfeature, run, hrun, hid⟩ => ⟨run, ⟨feature, hfeature, hrun⟩, hid⟩⟩
  rw [hrun]
  exact exists_congr fun feature => and_congr_right fun hfeature =>
    Feature.exists_mem_keys_iff (hindexable feature hfeature)

/-- **What is extracted.** `keys features` are extracted if every feature comes after the one before
it and no road has too many points (`IsAdmissible`). They are in order and none occurs twice; a road
has one for each point but the last and for each direction. Otherwise the first feature at fault is
told, and whether it comes after the one before it is looked at first (`FaultAfter`). -/
theorem keys_eq_iff (features : List Feature) :
    ((∃ ids, keys features = .ok ids) ↔ IsAdmissible features) ∧
    (∀ ids, keys features = .ok ids →
      ids.Pairwise (· < ·) ∧ SegmentId.isSorted ids = true ∧
      ∀ id, id ∈ ids ↔ ∃ feature ∈ features, feature.isRoad ∧ id.featureId = feature.id ∧
        id.pointIndex.toNat + 1 < feature.pointCount ∧
        (id.direction = .forward ∨ feature.oneWay = false)) ∧
    ∀ e, keys features = .error e ↔
      ∃ before feature after, features = before ++ feature :: after ∧ IsAdmissible before ∧
        Feature.FaultAfter (before.map (·.id)).getLast? feature e := by
  refine ⟨exists_keys_iff, fun ids h => ?_, fun e => ?_⟩
  · obtain ⟨hchain, -, hids⟩ := keys_eq_ok_iff.mp h
    have hascending : ids.Pairwise (· < ·) :=
      hids ▸ Keys.pairwise_lt_flatMap_keys (ascending_filterMap_run? hchain)
    exact ⟨hascending, SegmentId.isSorted_of_pairwise_lt hascending, fun _ => mem_keys_iff h⟩
  · rw [keys, keysFrom_eq_error_iff]
    simp only [EndsAt, isAdmissible_iff, Option.toList_none, List.nil_append, and_assoc]

/-- A two-way road between a building and a road with a single point, and the same features with a
building in the wrong place before a road with too many points. -/
theorem keys_eq_iff_building :
    let features : List Feature :=
      [⟨2, 10, false, false⟩, ⟨4, 3, true, false⟩, ⟨9, 1, true, true⟩]
    let misplaced : List Feature := features ++ [⟨9, 5, false, true⟩, ⟨10, 70000, true, true⟩]
    (∃ ids, keys features = .ok ids ∧ SegmentId.isSorted ids = true ∧
      (⟨4, 1, .backward⟩ : SegmentId) ∈ ids ∧ (⟨4, 2, .forward⟩ : SegmentId) ∉ ids) ∧
    keys misplaced = .error (.unsorted 9 9) := by
  intro features misplaced
  have hadmissible : IsAdmissible features := ⟨by decide, by decide⟩
  obtain ⟨hok, hids, -⟩ := keys_eq_iff features
  obtain ⟨ids, hkeys⟩ := hok.mpr hadmissible
  obtain ⟨-, hsorted, hmem⟩ := hids ids hkeys
  exact ⟨⟨ids, hkeys, hsorted, (hmem _).mpr (by decide),
      fun h => absurd ((hmem _).mp h) (by decide)⟩,
    ((keys_eq_iff misplaced).2.2 _).mpr ⟨features, ⟨9, 5, false, true⟩, [⟨10, 70000, true, true⟩],
      rfl, hadmissible, .unsorted rfl (UInt32.le_refl 9)⟩⟩

end Extraction

end RoadTraffic
