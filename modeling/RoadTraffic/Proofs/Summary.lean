import Mathlib
import RoadTraffic.CommandLine.Summary
import RoadTraffic.Proofs.Coloring
import RoadTraffic.Proofs.Extraction

/-!
# What summaries count

* `KeysSummary.report_of_keys`: the keys of a map are summarized as its features are counted
  (`Feature.keysReport`).
* `SpeedGroup.getElem?_foldl_tally`: counting a list group by group comes to `List.count` for each
  group that occurs, and to no entry for any other.
* `SpeedGroup.isHistogram_histogram`: `histogram groups` says how often groups occur.
* `Coloring.sum_histogram_toList`: the segments of a coloring are the ones that are counted.
* `Coloring.size_zip`: the coloring of an ascending key list has as many segments as there are keys.
-/

namespace RoadTraffic

/-! ## Key lists -/

namespace Feature

/-- Whether a feature is a road with a segment, for which it takes two points. -/
def hasSegments (feature : Feature) : Bool := feature.isRoad && 2 ≤ feature.pointCount

/-- The number of keys of a feature: a road has one for every two neighbouring points, and another
one unless it is `oneWay`. -/
def keyCount (feature : Feature) : Nat :=
  if feature.isRoad then (feature.pointCount - 1) * (if feature.oneWay then 1 else 2) else 0

variable {feature : Feature}

/-- The run of a feature has `keyCount` keys, and there is one if the feature `hasSegments`. -/
theorem run?_cases (h : feature.IsIndexable) :
    (feature.run? = none ∧ feature.hasSegments = false ∧ feature.keyCount = 0) ∨
      ∃ run, feature.run? = some run ∧ feature.hasSegments = true ∧
        run.oneWay = feature.oneWay ∧ run.size = feature.keyCount := by
  by_cases hrun : feature.isRoad ∧ feature.segmentCount ≠ 0
  · obtain ⟨hroad, hsegments⟩ := hrun
    have hfew : feature.pointCount ≤ 65537 := h hroad
    refine .inr ⟨_, if_pos ⟨hroad, hsegments⟩, ?_, rfl, ?_⟩
    · rw [segmentCount] at hsegments
      simp only [hasSegments, hroad, Bool.true_and, decide_eq_true_eq]
      omega
    · rw [segmentCount] at *
      -- The index of the last segment fits in 16 bits, so that the run is as long as the road.
      have hlast : (UInt16.ofNat (feature.pointCount - 1 - 1)).toNat + 1 =
          feature.pointCount - 1 := by
        rw [UInt16.toNat_ofNat', Nat.mod_eq_of_lt (by omega)]
        omega
      rw [Run.size, Run.segmentCount, hlast, keyCount, if_pos hroad]
      cases feature.oneWay <;> rfl
  · have hshort (hroad : feature.isRoad) : feature.pointCount - 1 = 0 :=
      not_not.mp (not_and.mp hrun hroad)
    refine .inl ⟨if_neg hrun, ?_, ?_⟩
    · rw [hasSegments, Bool.and_eq_false_imp]
      intro hroad
      have := hshort hroad
      simp only [decide_eq_false_iff_not]
      omega
    · unfold keyCount
      split
      · next hroad => rw [hshort hroad, Nat.zero_mul]
      · rfl

/-- What is reported of the keys of features, counted feature by feature. -/
def keysReport (features : List Feature) (ids : List SegmentId) : Report :=
  let oneWay := features.countP fun feature => feature.hasSegments && feature.oneWay
  let twoWay := features.countP fun feature => feature.hasSegments && !feature.oneWay
  .record [("segments", .number (features.map keyCount).sum),
    ("features", .number (oneWay + twoWay)), ("one_way_features", .number oneWay),
    ("two_way_features", .number twoWay), ("first", KeysSummary.optional ids.head?),
    ("last", KeysSummary.optional ids.getLast?)]

end Feature

namespace KeysSummary

variable {features : List Feature} {ids : List SegmentId} {rs : List Run}

/-- What is said of the keys of runs. The stretches of keys of one road are the runs again, and one
of them is two-way if not all its keys are forward. -/
theorem of_flatMap_keys (h : Keys.Ascending rs) :
    let ids := rs.flatMap Run.keys
    KeysSummary.of ids =
      { segments := ids.length
        features := rs.length
        twoWay := rs.countP (!·.oneWay)
        first := ids.head?
        last := ids.getLast? } := by
  have hbackward (run : Run) : run.keys.any (·.direction == .backward) = !run.oneWay := by
    rw [← run.all_forward_keys, List.not_all_eq_any_not]
    congr 1
    funext id
    cases id.direction <;> rfl
  simp only [KeysSummary.of, stretches, Keys.splitBy_flatMap_keys h, List.length_map,
    List.countP_map, Function.comp_def, hbackward]

/-- Runs are counted feature by feature: a feature without segments has none. -/
theorem counts_filterMap_run? (h : ∀ feature ∈ features, feature.IsIndexable) :
    let rs := features.filterMap Feature.run?
    (rs.flatMap Run.keys).length = (features.map Feature.keyCount).sum ∧
      rs.countP (·.oneWay) =
        features.countP (fun feature => feature.hasSegments && feature.oneWay) ∧
      rs.countP (!·.oneWay) =
        features.countP (fun feature => feature.hasSegments && !feature.oneWay) := by
  induction features with
  | nil => exact ⟨rfl, rfl, rfl⟩
  | cons feature features ih =>
    obtain ⟨hfeature, hfeatures⟩ := List.forall_mem_cons.mp h
    obtain ⟨hkeys, honeWay, htwoWay⟩ := ih hfeatures
    rcases feature.run?_cases hfeature with
      ⟨hrun, hsegments, hcount⟩ | ⟨run, hrun, hsegments, hdirection, hcount⟩
    · simp [hrun, hsegments, hcount, hkeys, honeWay, htwoWay]
    · simp [hrun, hsegments, hcount, hkeys, honeWay, htwoWay, hdirection, Run.length_keys,
        List.countP_cons]

theorem length_of_keys (h : Extraction.keys features = .ok ids) :
    ids.length = (features.map Feature.keyCount).sum := by
  obtain ⟨-, hindexable, rfl⟩ := Extraction.keys_eq_ok_iff.mp h
  exact (counts_filterMap_run? hindexable).1

/-- The keys are regrouped to be counted, and that gives the roads of which they are. -/
theorem report_of_keys (h : Extraction.keys features = .ok ids) :
    (KeysSummary.of ids).report = Feature.keysReport features ids := by
  have hlength := length_of_keys h
  obtain ⟨hchain, hindexable, rfl⟩ := Extraction.keys_eq_ok_iff.mp h
  obtain ⟨-, honeWay, htwoWay⟩ := counts_filterMap_run? hindexable
  have hroads : (features.filterMap Feature.run?).length =
      (features.filterMap Feature.run?).countP (·.oneWay) +
        (features.filterMap Feature.run?).countP (!·.oneWay) := by
    simpa using List.length_eq_countP_add_countP (fun run : Run => run.oneWay)
  rw [of_flatMap_keys (Extraction.ascending_filterMap_run? hchain)]
  simp only [report, Feature.keysReport, hlength, hroads, honeWay, htwoWay, Nat.add_sub_cancel]

end KeysSummary

/-! ## Speed groups -/

namespace SpeedGroup

variable {counts : Counts} {group other : SpeedGroup} {groups : List SpeedGroup}

theorem getElem?_tally_self : (tally counts group)[group]? = some (counts[group]?.getD 0 + 1) := by
  simp [tally]

theorem getElem?_tally_of_ne (h : group ≠ other) :
    (tally counts group)[other]? = counts[other]? := by
  simp [tally, Std.ExtTreeMap.getElem?_alter, h]

/-- The induction is from the end of the list: counting one group more raises the entry of that
group, which there is if the group occurred before, and leaves every other entry as it was. -/
theorem getElem?_foldl_tally (groups : List SpeedGroup) (group : SpeedGroup) :
    (groups.foldl tally ∅)[group]? =
      if group ∈ groups then some (groups.count group) else none := by
  induction groups using List.reverseRecOn with
  | nil => simp
  | append_singleton groups last ih =>
    rw [List.foldl_concat]
    by_cases h : last = group
    · subst h
      rw [getElem?_tally_self, ih]
      by_cases hmem : last ∈ groups
      · simp [hmem]
      · simp [hmem, List.count_eq_zero.mpr hmem]
    · rw [getElem?_tally_of_ne h, ih]
      simp [h, Ne.symm h]

/-- The `entries` say how often each of `groups` occurs. -/
structure IsHistogram (entries : List (SpeedGroup × Nat)) (groups : List SpeedGroup) : Prop where
  /-- No group is named twice. -/
  nodup : (entries.map (·.1.name)).Nodup
  /-- There is an entry for each group that occurs, with its number of occurrences, and no other. -/
  mem_iff (group : SpeedGroup) (count : Nat) :
    (group, count) ∈ entries ↔ group ∈ groups ∧ count = groups.count group
  sum : (entries.map Prod.snd).sum = groups.length

theorem name_injective : Function.Injective name := by
  intro a b h
  cases a <;> cases b <;> first | rfl | simp [name] at h

theorem mem_histogram_iff {count : Nat} :
    (group, count) ∈ histogram groups ↔ group ∈ groups ∧ count = groups.count group := by
  rw [histogram, Std.ExtTreeMap.mem_toList_iff_getElem?_eq_some, getElem?_foldl_tally]
  by_cases h : group ∈ groups <;> simp [h, eq_comm]

theorem nodup_map_fst_histogram (groups : List SpeedGroup) :
    ((histogram groups).map Prod.fst).Nodup := by
  rw [List.Nodup, List.pairwise_map]
  refine Std.ExtTreeMap.distinct_keys_toList.imp fun h => ?_
  rwa [Std.LawfulEqOrd.compare_eq_iff_eq] at h

/-- The entries are those of the groups that occur, each of them once. -/
theorem perm_histogram (groups : List SpeedGroup) :
    (histogram groups).Perm (groups.dedup.map fun group => (group, groups.count group)) := by
  refine (List.perm_ext_iff_of_nodup (.of_map Prod.fst (nodup_map_fst_histogram groups))
    (groups.nodup_dedup.map fun _ _ h => congrArg Prod.fst h)).mpr fun entry => ?_
  rw [mem_histogram_iff]
  simp [Prod.ext_iff, eq_comm]

theorem sum_histogram (groups : List SpeedGroup) :
    ((histogram groups).map Prod.snd).sum = groups.length := by
  rw [((perm_histogram groups).map Prod.snd).sum_nat, List.map_map]
  exact groups.sum_map_count_dedup_eq_length

theorem isHistogram_histogram (groups : List SpeedGroup) :
    IsHistogram (histogram groups) groups where
  nodup := by
    rw [← Function.comp_def, ← List.map_map]
    exact (nodup_map_fst_histogram groups).map name_injective
  mem_iff _ _ := mem_histogram_iff
  sum := sum_histogram groups

end SpeedGroup

/-! ## Colorings -/

namespace Coloring

variable {keys : List SegmentId} {values : List SpeedGroup}

theorem length_toList (coloring : Coloring) : coloring.toList.length = coloring.size :=
  Std.ExtTreeMap.length_toList

@[simp] theorem size_empty : empty.size = 0 := rfl

theorem size_zip (hkeys : keys.Pairwise (· < ·)) (hlength : keys.length = values.length) :
    (ofList (keys.zip values)).size = keys.length := by
  rw [← length_toList, toList_zip hkeys hlength, List.length_zip, ← hlength, Nat.min_self]

theorem sum_histogram_toList (coloring : Coloring) :
    ((SpeedGroup.histogram (coloring.toList.map (·.2))).map Prod.snd).sum = coloring.size := by
  rw [SpeedGroup.sum_histogram, List.length_map, length_toList]

end Coloring

end RoadTraffic
