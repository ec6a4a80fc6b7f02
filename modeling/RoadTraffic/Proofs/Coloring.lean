import Mathlib
import RoadTraffic.Coloring
import RoadTraffic.Proofs.CanonicalList

/-!
# Colorings of key lists

* `Coloring.get?_ofList`: entries for different segments are all looked up as they were given.
* `Coloring.group_getElem`/`group_of_notMem`: `keys[i]` has the group `values[i]`, and nothing else
  has any.
* `Coloring.toList_zip`: `(ofList (keys.zip values)).toList = keys.zip values` for ascending `keys`.
* `Coloring.ofList_zip_inj`: the coloring tells `keys` and `values`.
-/

namespace RoadTraffic

namespace Coloring

/-! ## Look-ups -/

theorem get?_ofList {entries : List (SegmentId × SpeedGroup)}
    (h : (entries.map Prod.fst).Nodup) {id : SegmentId} {group : SpeedGroup} :
    (ofList entries).get? id = some group ↔ (id, group) ∈ entries := by
  induction entries using List.reverseRecOn with
  | nil => simp [ofList]
  | append_singleton entries entry ih =>
    obtain ⟨id', group'⟩ := entry
    rw [List.map_append, List.nodup_append] at h
    obtain ⟨hentries, -, hnew⟩ := h
    rw [get?_ofList_concat, List.mem_append, ← ih hentries]
    by_cases heq : id' = id
    · subst heq
      have hnone : ¬ (ofList entries).get? id' = some group := fun hget =>
        hnew id' (List.mem_map_of_mem ((ih hentries).mp hget)) id' (by simp) rfl
      simp [hnone, eq_comm]
    · have hne : ¬ id = id' := fun h => heq h.symm
      simp [heq, hne]

section Parallel

variable {keys keys' : List SegmentId} {values values' : List SpeedGroup}

theorem get?_zip (hkeys : keys.Nodup) (hlength : keys.length = values.length)
    {id : SegmentId} {group : SpeedGroup} :
    (ofList (keys.zip values)).get? id = some group ↔ (id, group) ∈ keys.zip values :=
  get?_ofList (by rwa [List.map_fst_zip hlength.le])

theorem group_getElem (hkeys : keys.Nodup) (hlength : keys.length = values.length) {i : Nat}
    (hi : i < keys.length) : (ofList (keys.zip values)).group keys[i] = values[i] := by
  have hmem : (keys[i], values[i]) ∈ keys.zip values :=
    List.mem_iff_getElem.mpr ⟨i, by rw [List.length_zip]; omega, List.getElem_zip⟩
  rw [group, (get?_zip hkeys hlength).mpr hmem, Option.getD_some]

theorem group_of_notMem (hkeys : keys.Nodup) (hlength : keys.length = values.length)
    {id : SegmentId} (h : id ∉ keys) : (ofList (keys.zip values)).group id = .unknown := by
  cases hget : (ofList (keys.zip values)).get? id with
  | none => rw [group, hget, Option.getD_none]
  | some found => exact absurd (List.of_mem_zip ((get?_zip hkeys hlength).mp hget)).1 h

/-- The coloring of ascending `keys` holds each key once, with the value at its place. -/
theorem toList_zip (hkeys : keys.Pairwise (· < ·)) (hlength : keys.length = values.length) :
    (ofList (keys.zip values)).toList = keys.zip values := by
  have hsorted : (keys.zip values).Pairwise (fun a b => a.1 < b.1) := by
    rwa [← List.pairwise_map, List.map_fst_zip hlength.le]
  have hordered : (ofList (keys.zip values)).toList.Pairwise (fun a b => a.1 < b.1) :=
    Std.ExtTreeMap.ordered_keys_toList
  have hnodup {entries : List (SegmentId × SpeedGroup)}
      (h : entries.Pairwise (fun a b => a.1 < b.1)) : entries.Nodup :=
    .of_map Prod.fst (List.pairwise_map.mpr h).nodup
  have hmem (entry : SegmentId × SpeedGroup) :
      entry ∈ (ofList (keys.zip values)).toList ↔ entry ∈ keys.zip values :=
    Std.ExtTreeMap.mem_toList_iff_getElem?_eq_some.trans (get?_zip hkeys.nodup hlength)
  have hperm := (List.perm_ext_iff_of_nodup (hnodup hordered) (hnodup hsorted)).mpr hmem
  exact hperm.eq_of_pairwise (fun _ _ _ _ hlt hgt => absurd hgt (SegmentId.lt_asymm hlt))
    hordered hsorted

/-- Ascending `keys` and the `values` on them can be told from the coloring. -/
theorem ofList_zip_inj (hkeys : keys.Pairwise (· < ·)) (hkeys' : keys'.Pairwise (· < ·))
    (hlength : keys.length = values.length) (hlength' : keys'.length = values'.length) :
    ofList (keys.zip values) = ofList (keys'.zip values') ↔ keys = keys' ∧ values = values' := by
  constructor
  · intro h
    have hentries : keys.zip values = keys'.zip values' := by
      rw [← toList_zip hkeys hlength, h, toList_zip hkeys' hlength']
    constructor
    · rw [← List.map_fst_zip hlength.le, hentries, List.map_fst_zip hlength'.le]
    · rw [← List.map_snd_zip hlength.ge, hentries, List.map_snd_zip hlength'.ge]
  · rintro ⟨rfl, rfl⟩
    rfl

end Parallel

end Coloring

end RoadTraffic
