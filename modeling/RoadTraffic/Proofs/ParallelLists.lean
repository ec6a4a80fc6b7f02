import Mathlib
import RoadTraffic.Proofs.CarryOver

/-!
# Colorings of keys and values side by side

A value belongs to the key at its place, and to nothing else. A key list may come in any order and
hold a segment in several places; of the values there, the one at the last place counts.

* `Coloring.places keys id`: where `keys` hold the segment `id`.
* `Coloring.get?_ofList_of_isGreatest`: the group given last is the one that is looked up.
* `Coloring.ofParallel_last_counts`: what `ofParallel keys values` says.
-/

namespace RoadTraffic

namespace Coloring

variable {keys : List SegmentId} {values : List SpeedGroup} {id : SegmentId}

/-! ## Places in a key list -/

/-- Where `keys` hold the segment `id`. -/
def places (keys : List SegmentId) (id : SegmentId) : Set Nat := {i | keys[i]? = some id}

theorem mem_places {i : Nat} : i ∈ places keys id ↔ keys[i]? = some id := Iff.rfl

theorem lt_length_of_mem_places {i : Nat} (h : i ∈ places keys id) : i < keys.length :=
  (List.getElem?_eq_some_iff.mp h).1

theorem nonempty_places : (places keys id).Nonempty ↔ id ∈ keys :=
  List.mem_iff_getElem?.symm

theorem exists_isGreatest_places (h : id ∈ keys) : ∃ i, IsGreatest (places keys id) i := by
  have hbounded : BddAbove (places keys id) :=
    ⟨keys.length, fun _ hi => (lt_length_of_mem_places hi).le⟩
  exact ⟨sSup (places keys id), Nat.sSup_mem (nonempty_places.mpr h) hbounded,
    fun _ hi => le_csSup hbounded hi⟩

/-- A segment put at the end of a key list is in its last place there: `keys.length`. -/
theorem isGreatest_places_concat_self (keys : List SegmentId) (id : SegmentId) :
    IsGreatest (places (keys ++ [id]) id) keys.length := by
  refine ⟨List.getElem?_concat_length, fun i hi => ?_⟩
  have hlt := lt_length_of_mem_places hi
  rw [List.length_append, List.length_singleton] at hlt
  omega

/-- Another segment at the end of a key list makes no difference. -/
theorem places_concat_of_ne {key : SegmentId} (h : key ≠ id) :
    places (keys ++ [key]) id = places keys id := by
  ext i
  rw [mem_places, mem_places, List.getElem?_append]
  split
  · rfl
  · next hi =>
    rw [List.getElem?_eq_none (l := keys) (by omega), List.getElem?_singleton]
    split <;> simp [h]

/-! ## The last group counts -/

theorem mem_segments_ofList (entries : List (SegmentId × SpeedGroup)) :
    id ∈ (ofList entries).segments ↔ id ∈ entries.map Prod.fst := by
  rw [mem_segments]
  induction entries using List.reverseRecOn with
  | nil => simp [ofList]
  | append_singleton entries entry ih =>
    rw [get?_ofList_concat, List.map_append, List.mem_append, ← ih]
    by_cases heq : entry.1 = id
    · simp [heq]
    · simp [heq, Ne.symm heq]

/-- The induction is from the end of the list: each group takes the place of the one before, so that
the one at the greatest of `places` is looked up. -/
theorem get?_ofList_of_isGreatest {entries : List (SegmentId × SpeedGroup)} {i : Nat}
    (h : IsGreatest (places (entries.map Prod.fst) id) i) :
    (ofList entries).get? id = (entries.map Prod.snd)[i]? := by
  induction entries using List.reverseRecOn with
  | nil => exact absurd (lt_length_of_mem_places h.1) (Nat.not_lt_zero i)
  | append_singleton entries entry ih =>
    rw [List.map_append, List.map_singleton] at h
    rw [get?_ofList_concat, List.map_append, List.map_singleton]
    by_cases heq : entry.1 = id
    · rw [heq] at h
      have hlast : i = (entries.map Prod.fst).length :=
        h.unique (isGreatest_places_concat_self _ id)
      rw [if_pos heq, hlast, List.length_map, ← List.length_map (f := Prod.snd),
        List.getElem?_concat_length]
    · rw [places_concat_of_ne heq] at h
      have hlt : i < (entries.map Prod.snd).length := by
        simpa using lt_length_of_mem_places h.1
      rw [if_neg heq, ih h, List.getElem?_append_left hlt]

/-! ## Keys with values -/

theorem mem_toList {coloring : Coloring} {group : SpeedGroup} :
    (id, group) ∈ coloring.toList ↔ coloring.get? id = some group :=
  Std.ExtTreeMap.mem_toList_iff_getElem?_eq_some

/-- The list `toList` has the segments in strictly ascending order. -/
theorem pairwise_lt_toList (coloring : Coloring) :
    coloring.toList.Pairwise (fun a b => a.1 < b.1) :=
  Std.ExtTreeMap.ordered_keys_toList

theorem ofParallel_eq_error_iff {mismatch : LengthMismatch} :
    ofParallel keys values = .error mismatch ↔
      keys.length ≠ values.length ∧ mismatch = ⟨keys.length, values.length⟩ := by
  unfold ofParallel
  split <;> simp [*, eq_comm]

section Parallel

variable (h : keys.length = values.length)

include h

theorem mem_segments_zip : id ∈ (ofList (keys.zip values)).segments ↔ id ∈ keys := by
  rw [mem_segments_ofList, List.map_fst_zip h.le]

theorem get?_zip_of_isGreatest {i : Nat} (hi : IsGreatest (places keys id) i) :
    (ofList (keys.zip values)).get? id = values[i]? := by
  have hplaces : IsGreatest (places ((keys.zip values).map Prod.fst) id) i := by
    rwa [List.map_fst_zip h.le]
  rw [get?_ofList_of_isGreatest hplaces, List.map_snd_zip h.ge]

theorem size_zip_eq : (ofList (keys.zip values)).size = keys.dedup.length :=
  size_of_mem_segments fun _ => mem_segments_zip h

theorem group_zip_of_isGreatest {i : Nat} (hi : IsGreatest (places keys id) i) :
    values[i]? = some ((ofList (keys.zip values)).group id) := by
  have hlt : i < values.length := h ▸ lt_length_of_mem_places hi.1
  rw [group, get?_zip_of_isGreatest h hi, List.getElem?_eq_getElem hlt, Option.getD_some]

theorem mem_toList_zip {group : SpeedGroup} : (id, group) ∈ (ofList (keys.zip values)).toList ↔
    id ∈ keys ∧ group = (ofList (keys.zip values)).group id := by
  rw [mem_toList, ← mem_segments_zip h, mem_segments, Coloring.group]
  cases (ofList (keys.zip values)).get? id <;> simp [eq_comm]

end Parallel

theorem length_dedup_eq_iff : keys.dedup.length = keys.length ↔ keys.Nodup :=
  ⟨fun h => List.dedup_eq_self.mp (keys.dedup_sublist.eq_of_length h),
    fun h => congrArg List.length h.dedup⟩

/-- **The last value counts.** `ofParallel keys values` fails, and both numbers are told, exactly if
`keys.length ≠ values.length`. Else each segment of `keys` has the value at the last of its `places`
there and no other segment has any, each segment is counted once however often the list holds it,
and `toList` has them in strictly ascending order. -/
theorem ofParallel_last_counts (keys : List SegmentId) (values : List SpeedGroup) :
    (∀ mismatch, ofParallel keys values = .error mismatch ↔
      keys.length ≠ values.length ∧ mismatch = ⟨keys.length, values.length⟩) ∧
    (keys.length = values.length → ∃ coloring, ofParallel keys values = .ok coloring ∧
      (∀ id ∈ keys, ∃ i, IsGreatest (places keys id) i ∧
        values[i]? = some (coloring.group id)) ∧
      (∀ id ∉ keys, coloring.group id = .unknown) ∧
      coloring.size = keys.dedup.length ∧ (coloring.size = keys.length ↔ keys.Nodup) ∧
      coloring.toList.Pairwise (fun a b => a.1 < b.1) ∧
      ∀ id group, (id, group) ∈ coloring.toList ↔ id ∈ keys ∧ group = coloring.group id) := by
  refine ⟨fun _ => ofParallel_eq_error_iff, fun h => ?_⟩
  refine ⟨ofList (keys.zip values), if_pos h, fun id hid => ?_, fun id hid => ?_, size_zip_eq h, ?_,
    pairwise_lt_toList _, fun _ _ => mem_toList_zip h⟩
  · obtain ⟨i, hi⟩ := exists_isGreatest_places hid
    exact ⟨i, hi, group_zip_of_isGreatest h hi⟩
  · rw [group, get?_of_notMem_segments (mt (mem_segments_zip h).mp hid), Option.getD_none]
  · rw [size_zip_eq h, length_dedup_eq_iff]

/-- A segment that comes up twice, before and after one that is behind it in the order of keys. -/
theorem ofParallel_last_counts_repeated :
    let keys : List SegmentId := [⟨5, 0, .forward⟩, ⟨7, 3, .backward⟩, ⟨5, 0, .forward⟩]
    keys.length = 3 ∧
    (∃ coloring, ofParallel keys [.g1, .g2, .tempBlock] = .ok coloring ∧
      coloring.group ⟨5, 0, .forward⟩ = .tempBlock ∧
      coloring.group ⟨7, 3, .forward⟩ = .unknown ∧ coloring.size = 2) ∧
    ofParallel keys [.g1, .g2] = .error ⟨3, 2⟩ := by
  intro keys
  have hkey : ⟨5, 0, .forward⟩ ∈ keys := by decide
  obtain ⟨coloring, hcoloring, hkeys, hothers, hsize, -⟩ :=
    (ofParallel_last_counts keys [.g1, .g2, .tempBlock]).2 rfl
  obtain ⟨i, hi, hvalue⟩ := hkeys _ hkey
  obtain rfl : i = 2 := hi.unique (isGreatest_places_concat_self (keys.take 2) _)
  refine ⟨rfl, ⟨coloring, hcoloring, ?_, hothers _ (by decide), hsize⟩, ?_⟩
  · exact (Option.some.inj hvalue).symm
  · exact ((ofParallel_last_counts keys [.g1, .g2]).1 _).mpr ⟨by decide, rfl⟩

end Coloring

end RoadTraffic
