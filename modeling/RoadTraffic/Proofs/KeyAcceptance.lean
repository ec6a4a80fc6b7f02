import Mathlib
import RoadTraffic.Proofs.KeyRoundTrip

/-!
# Which key lists are packed

A list can be packed exactly if it is canonical, which is said of the list as a whole: what order
its keys are in, and which keys a road has if it has some.

* `Keys.IsCanonical keys`: what a list is like that is made of the roads of a map.
* `Keys.isCanonical_iff`: the canonical lists are `rs.flatMap Run.keys` for `Ascending rs`.
* `Keys.IsFirstFault`/`FaultOf`: the first road at which a list is not canonical, and what is said
  of it.
* `Keys.exists_firstFault`: a list that has no runs has a first fault, which decides the error.
* `Keys.encode_isCanonical`: which lists are packed, and what is said of the others.
-/

namespace RoadTraffic

namespace SegmentId

theorem le_iff_not_lt {a b : SegmentId} : a ≤ b ↔ ¬ b < a := by
  change (compare a b).isLE = true ↔ ¬ compare b a = .lt
  rw [← Std.OrientedCmp.gt_iff_lt, Ordering.isLE_iff_ne_gt]

theorem featureId_le_of_lt {a b : SegmentId} (h : a < b) : a.featureId ≤ b.featureId := by
  obtain hlt | ⟨heq, -⟩ := lt_iff.mp h
  · exact UInt32.le_of_lt hlt
  · exact UInt32.le_of_eq heq

/-- The roads of ascending `ids`, each of them once, are in rising order too. -/
theorem pairwise_lt_dedup_featureId {ids : List SegmentId} (h : ids.Pairwise (· < ·)) :
    (ids.map (·.featureId)).dedup.Pairwise (· < ·) := by
  have hsorted : (ids.map (·.featureId)).Pairwise (· ≤ ·) :=
    List.pairwise_map.mpr (h.imp featureId_le_of_lt)
  refine ((hsorted.sublist (List.dedup_sublist _)).and (List.nodup_dedup _)).imp ?_
  exact fun hle => UInt32.lt_of_le_of_ne hle.1 hle.2

/-- An ascending list can be told from its members: `ids = ids'`. -/
theorem eq_of_pairwise_lt {ids ids' : List SegmentId} (h : ids.Pairwise (· < ·))
    (h' : ids'.Pairwise (· < ·)) (hmem : ∀ id, id ∈ ids ↔ id ∈ ids') : ids = ids' :=
  ((List.perm_ext_iff_of_nodup h.nodup h'.nodup).mpr hmem).eq_of_pairwise
    (fun _ _ _ _ hlt hgt => absurd hgt (lt_asymm hlt)) h h'

end SegmentId

namespace Keys

/-! ## Canonical lists -/

/-- The points of road `featureId` at which segments start. -/
def pointIndexes (keys : List SegmentId) (featureId : UInt32) : Set UInt16 :=
  {index | ∃ id ∈ keys, id.featureId = featureId ∧ id.pointIndex = index}

/-- What a key list is like that is made of the roads of a map. -/
structure IsCanonical (keys : List SegmentId) : Prop where
  /-- The keys are in order, and none of them occurs twice. -/
  ascending : keys.Pairwise (· < ·)
  /-- A road can be travelled forward from every point up to the last one of them. -/
  forward : ∀ featureId last, IsGreatest (pointIndexes keys featureId) last →
    ∀ index ≤ last, ⟨featureId, index, .forward⟩ ∈ keys
  /-- Either no segment of a road is travelled backward or all of them are. -/
  backward : ∀ featureId last, IsGreatest (pointIndexes keys featureId) last →
    (∀ id ∈ keys, id.featureId = featureId → id.direction ≠ .backward) ∨
      ∀ index ≤ last, ⟨featureId, index, .backward⟩ ∈ keys

variable {keys before block after : List SegmentId} {rs : List Run}

theorem exists_isGreatest_pointIndexes {id : SegmentId} (h : id ∈ keys) :
    ∃ last, IsGreatest (pointIndexes keys id.featureId) last := by
  have hfinite : {other | other ∈ keys ∧ other.featureId = id.featureId}.Finite :=
    (List.finite_toSet keys).subset fun _ hother => hother.1
  obtain ⟨greatest, ⟨hmem, hroad⟩, hmax⟩ :=
    Set.exists_max_image _ (fun other => other.pointIndex.toNat) hfinite ⟨id, h, rfl⟩
  refine ⟨greatest.pointIndex, ⟨greatest, hmem, hroad, rfl⟩, ?_⟩
  rintro index ⟨other, hother, hother', rfl⟩
  exact UInt16.le_iff_toNat_le.mpr (hmax other ⟨hother, hother'⟩)

/-- The keys of road `featureId` in a canonical list are those of a run. -/
theorem IsCanonical.exists_run (h : IsCanonical keys) {featureId : UInt32}
    (hroad : ∃ id ∈ keys, id.featureId = featureId) : ∃ run : Run, run.featureId = featureId ∧
      ∀ id, id ∈ run.keys ↔ id ∈ keys ∧ id.featureId = featureId := by
  obtain ⟨id, hid, rfl⟩ := hroad
  obtain ⟨last, hlast⟩ := exists_isGreatest_pointIndexes hid
  have hforward := h.forward _ last hlast
  -- The road is one-way if none of its keys goes backward.
  let oneWay := decide (∀ other ∈ keys, other.featureId = id.featureId →
    other.direction ≠ .backward)
  refine ⟨⟨id.featureId, last, oneWay⟩, rfl, fun other => ?_⟩
  rw [Run.mem_keys]
  constructor
  · rintro ⟨hfeature, hindex, hdirection⟩
    obtain ⟨featureId, index, direction⟩ := other
    obtain rfl : featureId = id.featureId := hfeature
    refine ⟨?_, rfl⟩
    cases direction with
    | forward => exact hforward index hindex
    | backward =>
      obtain hnone | hall := h.backward _ last hlast
      · have honeWay : oneWay = true := decide_eq_true hnone
        simp [Run.directionsOf, honeWay] at hdirection
      · exact hall index hindex
  · rintro ⟨hother, hfeature⟩
    refine ⟨hfeature, hlast.2 ⟨other, hother, hfeature, rfl⟩, ?_⟩
    cases hdirection : other.direction with
    | forward =>
      unfold Run.directionsOf
      split <;> simp
    | backward =>
      -- A key that goes backward makes it a two-way road.
      have htwoWay : oneWay = false :=
        decide_eq_false fun hnone => hnone other hother hfeature hdirection
      simp [Run.directionsOf, htwoWay]

/-- The keys of a road in `rs.flatMap Run.keys` are those of its `run`. -/
theorem mem_flatMap_keys_iff (h : Ascending rs) {run : Run} (hrun : run ∈ rs) {id : SegmentId}
    (hid : id.featureId = run.featureId) : id ∈ rs.flatMap Run.keys ↔ id ∈ run.keys := by
  rw [List.mem_flatMap]
  constructor
  · rintro ⟨other, hother, hmem⟩
    have hsame : other.featureId = run.featureId := (Run.mem_keys.mp hmem).1.symm.trans hid
    have hnodup : (rs.map (·.featureId)).Nodup :=
      List.pairwise_map.mpr ((ascending_iff_pairwise.mp h).imp UInt32.ne_of_lt)
    exact List.inj_on_of_nodup_map hnodup hother hrun hsame ▸ hmem
  · exact fun hmem => ⟨run, hrun, hmem⟩

theorem isCanonical_flatMap_keys (h : Ascending rs) : IsCanonical (rs.flatMap Run.keys) := by
  -- The greatest point of a road is that of a key in its run, and lies in it.
  have hrun : ∀ featureId last, IsGreatest (pointIndexes (rs.flatMap Run.keys) featureId) last →
      ∃ run ∈ rs, run.featureId = featureId ∧ last ≤ run.lastIndex := by
    rintro featureId last ⟨⟨id, hid, rfl, rfl⟩, -⟩
    obtain ⟨run, hmem, hkeys⟩ := List.mem_flatMap.mp hid
    obtain ⟨hfeature, hindex, -⟩ := Run.mem_keys.mp hkeys
    exact ⟨run, hmem, hfeature.symm, hindex⟩
  refine ⟨pairwise_lt_flatMap_keys h, ?_, ?_⟩
  · intro featureId last hlast index hindex
    obtain ⟨run, hmem, rfl, hle⟩ := hrun featureId last hlast
    rw [mem_flatMap_keys_iff h hmem rfl, Run.mem_keys]
    refine ⟨rfl, UInt16.le_trans hindex hle, ?_⟩
    unfold Run.directionsOf
    split <;> simp
  · intro featureId last hlast
    obtain ⟨run, hmem, rfl, hle⟩ := hrun featureId last hlast
    cases honeWay : run.oneWay with
    | true =>
      refine .inl fun id hid hfeature => ?_
      rw [mem_flatMap_keys_iff h hmem hfeature, Run.mem_keys, honeWay] at hid
      simp [List.mem_singleton.mp hid.2.2]
    | false =>
      refine .inr fun index hindex => ?_
      rw [mem_flatMap_keys_iff h hmem rfl, Run.mem_keys, honeWay]
      exact ⟨rfl, UInt16.le_trans hindex hle, by simp [Run.directionsOf]⟩

/-- The canonical lists are those that consist of runs of roads in rising order. -/
theorem isCanonical_iff :
    IsCanonical keys ↔ ∃ rs, Ascending rs ∧ keys = rs.flatMap Run.keys := by
  constructor
  · intro h
    let roads := (keys.map (·.featureId)).dedup
    have hroads : ∀ featureId, featureId ∈ roads ↔ ∃ id ∈ keys, id.featureId = featureId := by
      simp [roads]
    have : Nonempty Run := ⟨⟨0, 0, true⟩⟩
    -- A run for each road, in the order of the roads, has the same members as the list.
    choose! runOf hfeature hkeys using fun featureId (hroad : featureId ∈ roads) =>
      h.exists_run ((hroads featureId).mp hroad)
    have hrising : roads.Pairwise (· < ·) := SegmentId.pairwise_lt_dedup_featureId h.ascending
    have hasc : Ascending (roads.map runOf) := by
      rw [ascending_iff_pairwise, List.pairwise_map]
      refine hrising.imp_of_mem fun ha hb hlt => ?_
      rwa [hfeature _ ha, hfeature _ hb]
    refine ⟨roads.map runOf, hasc, SegmentId.eq_of_pairwise_lt h.ascending
      (pairwise_lt_flatMap_keys hasc) fun id => ?_⟩
    simp only [List.mem_flatMap, List.mem_map, exists_exists_and_eq_and]
    constructor
    · intro hid
      have hroad := (hroads _).mpr ⟨id, hid, rfl⟩
      exact ⟨id.featureId, hroad, (hkeys _ hroad id).mpr ⟨hid, rfl⟩⟩
    · rintro ⟨featureId, hroad, hid⟩
      exact ((hkeys _ hroad id).mp hid).1
  · rintro ⟨rs, hasc, rfl⟩
    exact isCanonical_flatMap_keys hasc

theorem exists_encode_iff : (∃ bytes, encode keys = .ok bytes) ↔ IsCanonical keys := by
  rw [isCanonical_iff]
  constructor
  · rintro ⟨bytes, h⟩
    obtain ⟨rs, -, hasc, hkeys, -, -⟩ := encode_eq_ok_iff.mp h
    exact ⟨rs, hasc, hkeys⟩
  · rintro ⟨rs, hasc, hkeys⟩
    obtain ⟨body, -, hbody⟩ := exists_encodeRuns rs
    exact ⟨_, encode_eq_ok_iff.mpr ⟨rs, body, hasc, hkeys, rfl, hbody⟩⟩

/-! ## The first fault of a list -/

/-- The `block` holds all keys of road `featureId` in a row: its neighbours, in `before` and
`after`, are of other roads. -/
structure IsBlock (before block after : List SegmentId) (featureId : UInt32) : Prop where
  ne_nil : block ≠ []
  eq_of_mem : ∀ id ∈ block, id.featureId = featureId
  ne_before : ∀ id ∈ before.getLast?, id.featureId ≠ featureId
  ne_after : ∀ id ∈ after.head?, id.featureId ≠ featureId

/-- The places of a list at which it does not step up: `keys[i] ≤ keys[i - 1]`. -/
def descents (keys : List SegmentId) : Set Nat :=
  {i | 0 < i ∧ ∃ h : i < keys.length, keys[i] ≤ keys[i - 1]}

/-- What is said of a list in which the keys `block` of road `featureId`, after those `before` them,
are the first to be at fault. -/
inductive FaultOf (keys before block : List SegmentId) (featureId : UInt32) : KeysError → Prop where
  /-- The road is below the one before it. -/
  | unsorted {last : SegmentId} (hlast : last ∈ before.getLast?)
      (hbelow : featureId < last.featureId) {index : Nat} (hindex : IsLeast (descents keys) index) :
      FaultOf keys before block featureId (.unsorted index)
  /-- The road is not one-way and the keys do not come in pairs. -/
  | inconsistentRun (habove : ∀ last ∈ before.getLast?, ¬ featureId < last.featureId)
      (hbackward : ∃ id ∈ block, id.direction = .backward) (hodd : Odd block.length) :
      FaultOf keys before block featureId (.inconsistentRun featureId block.length 2)
  /-- Everything else that can be wrong with the keys of a road. -/
  | nonCanonicalRun (habove : ∀ last ∈ before.getLast?, ¬ featureId < last.featureId)
      (hrest : ¬ ((∃ id ∈ block, id.direction = .backward) ∧ Odd block.length)) :
      FaultOf keys before block featureId (.nonCanonicalRun featureId)

variable {featureId : UInt32} {e : KeysError}

theorem ofKeys_eq_error (h : Run.ofKeys featureId keys = .error e) :
    (∀ run : Run, run.featureId = featureId → keys ≠ run.keys) ∧
      (((∃ id ∈ keys, id.direction = .backward) ∧ Odd keys.length ∧
          e = .inconsistentRun featureId keys.length 2) ∨
        ¬ ((∃ id ∈ keys, id.direction = .backward) ∧ Odd keys.length) ∧
          e = .nonCanonicalRun featureId) := by
  constructor
  · rintro run rfl rfl
    rw [Run.ofKeys_keys] at h
    cases h
  · have hall : keys.all (·.direction == .forward) = false ↔
        ∃ id ∈ keys, id.direction = .backward := by
      rw [List.all_eq_false]
      refine exists_congr fun id => and_congr_right fun _ => ?_
      cases id.direction <;> simp
    rw [← hall, Nat.odd_iff]
    simp only [Run.ofKeys] at h
    cases honeWay : keys.all (·.direction == .forward) with
    | true =>
      rw [honeWay] at h
      -- One key for each segment: any number of keys is a whole number of segments.
      simp only [Run.directionsOf, ↓reduceIte, List.length_singleton, Nat.mod_one, ne_eq,
        not_true_eq_false] at h
      split at h <;> cases h
      exact .inr ⟨by simp, rfl⟩
    | false =>
      rw [honeWay] at h
      -- Two keys for each segment: their number may be odd.
      simp only [Run.directionsOf, Bool.false_eq_true, ↓reduceIte, List.length_cons,
        List.length_nil] at h
      split at h
      · next hodd =>
        cases h
        exact .inl ⟨rfl, by omega, rfl⟩
      · next heven =>
        split at h <;> cases h
        exact .inr ⟨fun hodd => heven (by omega), rfl⟩

/-- Blocks are given up at the first one that is not of a road above the last one (`.unsorted`), or
is no run (`Run.ofKeys` fails). -/
theorem runsFrom_eq_error {start : Nat} {done : List Run} {blocks : List (List SegmentId)}
    (hne : [] ∉ blocks) (h : runsFrom start done blocks = .error e) :
    ∃ new first others rest, blocks = new.map Run.keys ++ (first :: others) :: rest ∧
      Ascending (done.head?.toList ++ new) ∧
      ((∃ run ∈ (done.head?.toList ++ new).getLast?, first.featureId ≤ run.featureId) ∧
          e = .unsorted (start + (new.flatMap Run.keys).length) ∨
        (∀ run ∈ (done.head?.toList ++ new).getLast?, run.featureId < first.featureId) ∧
          Run.ofKeys first.featureId (first :: others) = .error e) := by
  induction blocks generalizing start done with
  | nil => cases h
  | cons block blocks ih =>
    rw [List.mem_cons, not_or] at hne
    cases block with
    | nil => exact (hne.1 rfl).elim
    | cons first others =>
      have hhead : Ascending (done.head?.toList ++ []) := by cases done <;> simp [Ascending]
      simp only [runsFrom] at h
      split at h
      · next hbelow =>
        cases h
        -- The road does not come after the last one.
        refine ⟨[], first, others, blocks, rfl, hhead, .inl ⟨?_, rfl⟩⟩
        cases done with
        | nil => cases hbelow
        | cons run done => exact ⟨run, rfl, by simpa using hbelow⟩
      · next habove =>
        have hlast : ∀ run ∈ done.head?, run.featureId < first.featureId := by
          cases done with
          | nil => simp
          | cons run done => simpa using habove
        split at h
        · next hrun =>
          cases h
          -- The road comes after the last one, and its keys are no run.
          refine ⟨[], first, others, blocks, rfl, hhead, .inr ⟨fun run hmem => hlast run ?_, hrun⟩⟩
          cases done with
          | nil => simp at hmem
          | cons last done => simpa using hmem
        · next run hrun =>
          obtain ⟨hkeys, hfeature⟩ := Run.eq_of_ofKeys hrun
          -- The block is a run, which is done from here on.
          obtain ⟨new, first', others', rest, rfl, hasc, hfault⟩ := ih hne.2 h
          have hgetLast : (done.head?.toList ++ run :: new).getLast? =
              ((run :: done).head?.toList ++ new).getLast? := by
            rw [List.getLast?_append_of_ne_nil _ (List.cons_ne_nil _ _)]
            rfl
          refine ⟨run :: new, first', others', rest, by rw [hkeys]; rfl,
            isChain_toList_append_cons.mpr ⟨hfeature ▸ hlast, hasc⟩, ?_⟩
          rw [hgetLast]
          rw [List.flatMap_cons, List.length_append, ← hkeys, ← Nat.add_assoc]
          exact hfault

/-- The last key of a list of runs is of the road of the last run. -/
theorem getLast?_flatMap_keys (rs : List Run) :
    (rs.flatMap Run.keys).getLast?.map (·.featureId) = rs.getLast?.map (·.featureId) := by
  obtain rfl | ⟨others, run, rfl⟩ := rs.eq_nil_or_concat'
  · rfl
  · rw [List.flatMap_append, List.flatMap_singleton,
      List.getLast?_append_of_ne_nil _ run.keys_ne_nil, List.getLast?_concat,
      List.getLast?_eq_some_getLast run.keys_ne_nil, Option.map_some, Option.map_some,
      (Run.mem_keys.mp (List.getLast_mem run.keys_ne_nil)).1]

/-- The list is canonical up to a `block` of keys of one road, and not up to the end of that. -/
structure IsFirstFault (keys before block after : List SegmentId) (featureId : UInt32) : Prop
    extends IsBlock before block after featureId where
  eq_append : keys = before ++ block ++ after
  isCanonical : IsCanonical before
  not_isCanonical : ¬ IsCanonical (before ++ block)

theorem isBlock_of_splitBy {good rest : List (List SegmentId)} {first : SegmentId}
    {others : List SegmentId}
    (h : keys.splitBy (fun a b => a.featureId == b.featureId) = good ++ (first :: others) :: rest) :
    IsBlock good.flatten (first :: others) rest.flatten first.featureId := by
  have hblocks := List.isChain_getLast_head_splitBy (fun a b => a.featureId == b.featureId) keys
  rw [h, List.isChain_append] at hblocks
  obtain ⟨-, hrest, hgood⟩ := hblocks
  have hchain : (first :: others).IsChain fun a b => a.featureId = b.featureId := by
    have hmem : first :: others ∈ keys.splitBy fun a b => a.featureId == b.featureId := by
      rw [h]
      exact List.mem_append_right _ List.mem_cons_self
    simpa using List.isChain_of_mem_splitBy hmem
  have hsame : ∀ id ∈ first :: others, id.featureId = first.featureId := by
    have : IsTrans SegmentId fun a b => a.featureId = b.featureId := ⟨fun _ _ _ => Eq.trans⟩
    intro id hid
    obtain rfl | hid := List.mem_cons.mp hid
    · rfl
    · exact (List.rel_of_pairwise_cons hchain.pairwise hid).symm
  -- Where `splitBy` parts two blocks, the keys on both sides are of different roads.
  refine ⟨List.cons_ne_nil _ _, hsame, fun id hid => ?_, fun id hid => ?_⟩
  · obtain rfl | ⟨others', last, rfl⟩ := good.eq_nil_or_concat'
    · cases hid
    · obtain ⟨hne, _, hlast⟩ := hgood last (by simp) (first :: others) (by simp)
      rw [List.flatten_concat, List.getLast?_append_of_ne_nil _ hne,
        List.getLast?_eq_some_getLast hne] at hid
      obtain rfl := Option.some.inj hid
      exact beq_eq_false_iff_ne.mp hlast
  · cases rest with
    | nil => cases hid
    | cons next rest =>
      obtain ⟨_, hne, hnext⟩ := List.rel_of_isChain_cons_cons hrest
      rw [List.flatten_cons, List.head?_append_of_ne_nil _ hne, List.head?_eq_some_head hne] at hid
      obtain rfl := Option.some.inj hid
      rw [hsame _ (List.getLast_mem _), beq_eq_false_iff_ne] at hnext
      exact hnext.symm

/-- Between canonical keys and a road below the `last` of them the list steps down for the first
time. -/
theorem isLeast_descents {last first : SegmentId} {rest : List SegmentId}
    (hbefore : before.Pairwise (· < ·)) (hlast : last ∈ before.getLast?)
    (hbelow : first.featureId < last.featureId) :
    IsLeast (descents (before ++ first :: rest)) before.length := by
  obtain ⟨init, rfl⟩ := List.getLast?_eq_some_iff.mp hlast
  constructor
  · have hdown : first ≤ last := by
      rw [SegmentId.le_iff_not_lt]
      exact SegmentId.lt_asymm (SegmentId.lt_iff.mpr (.inl hbelow))
    refine ⟨by simp, by simp, ?_⟩
    simpa [List.getElem_append] using hdown
  · rintro i ⟨hpos, hi, hle⟩
    by_contra hlt
    rw [Nat.not_le] at hlt
    have hup := List.pairwise_iff_getElem.mp hbefore (i - 1) i (by omega) hlt (by omega)
    rw [SegmentId.le_iff_not_lt, List.getElem_append_left hlt,
      List.getElem_append_left (by omega)] at hle
    exact hle hup

/-- Where the roads of a list rise, none of them comes again later: no key `before` the block is of
its road. -/
theorem IsBlock.ne_of_mem_before (h : IsBlock before block after featureId)
    (hasc : (before ++ block).Pairwise (· < ·)) {id : SegmentId} (hid : id ∈ before) :
    id.featureId ≠ featureId := by
  obtain ⟨init, last, rfl⟩ := before.eq_nil_or_concat'.resolve_left (List.ne_nil_of_mem hid)
  have hlast : last.featureId ≠ featureId := h.ne_before last (by simp)
  obtain hinit | hid := List.mem_append.mp hid
  · have hfirst := List.head_mem h.ne_nil
    rw [List.pairwise_append, List.pairwise_append] at hasc
    obtain ⟨⟨-, -, hrise⟩, -, hrise'⟩ := hasc
    have hle := SegmentId.featureId_le_of_lt (hrise id hinit last (by simp))
    have hle' := SegmentId.featureId_le_of_lt (hrise' last (by simp) _ hfirst)
    rw [h.eq_of_mem _ hfirst] at hle'
    rintro rfl
    exact hlast (UInt32.le_antisymm hle' hle)
  · rwa [List.mem_singleton.mp hid]

/-- A list that has no runs has a first fault, which is the one that is told. -/
theorem exists_firstFault (h : runs keys = .error e) : ∃ before block after featureId,
    IsFirstFault keys before block after featureId ∧ FaultOf keys before block featureId e := by
  obtain ⟨new, first, others, rest, hblocks, hasc, hfault⟩ :=
    runsFrom_eq_error (List.nil_notMem_splitBy _ _) h
  have hkeys : keys = new.flatMap Run.keys ++ first :: (others ++ rest.flatten) := by
    rw [← List.flatten_splitBy (fun a b : SegmentId => a.featureId == b.featureId) keys, hblocks,
      List.flatten_append, List.flatten_cons, ← List.flatMap_def, List.cons_append]
  have happend : keys = new.flatMap Run.keys ++ (first :: others) ++ rest.flatten := by
    rw [hkeys, List.append_assoc, List.cons_append]
  have hblock := isBlock_of_splitBy hblocks
  rw [← List.flatMap_def] at hblock
  have hbefore : IsCanonical (new.flatMap Run.keys) := isCanonical_flatMap_keys hasc
  have hlast := getLast?_flatMap_keys new
  refine ⟨new.flatMap Run.keys, first :: others, rest.flatten, first.featureId, ?_⟩
  obtain ⟨⟨run, hrun, hle⟩, rfl⟩ | ⟨habove, hrun⟩ := hfault
  · -- The road is not above the last one, and the last one is another.
    obtain ⟨last, hmem, hfeature⟩ : ∃ last ∈ (new.flatMap Run.keys).getLast?,
        last.featureId = run.featureId := by
      have hrun : new.getLast? = some run := hrun
      simpa [hrun] using hlast
    have hbelow : first.featureId < last.featureId :=
      UInt32.lt_of_le_of_ne (hfeature ▸ hle) (hblock.ne_before last hmem).symm
    refine ⟨⟨hblock, happend, hbefore, fun hcanonical => ?_⟩, ?_⟩
    · have hrise := (List.pairwise_append.mp hcanonical.ascending).2.2 last
        (List.mem_of_getLast? hmem) first List.mem_cons_self
      exact UInt32.not_lt.mpr (SegmentId.featureId_le_of_lt hrise) hbelow
    · rw [Nat.zero_add]
      exact .unsorted hmem hbelow (hkeys ▸ isLeast_descents hbefore.ascending hmem hbelow)
  · -- The keys of the road are not those of a run.
    obtain ⟨hne, hfault⟩ := ofKeys_eq_error hrun
    have habove' : ∀ last ∈ (new.flatMap Run.keys).getLast?,
        ¬ first.featureId < last.featureId := by
      intro last hmem hbelow
      rw [Option.mem_def.mp hmem, Option.map_some] at hlast
      obtain ⟨run, hrun, hfeature⟩ := Option.map_eq_some_iff.mp hlast.symm
      exact UInt32.lt_asymm hbelow (hfeature ▸ habove run hrun)
    refine ⟨⟨hblock, happend, hbefore, fun hcanonical => ?_⟩, ?_⟩
    · obtain ⟨run, hfeature, hmem⟩ := hcanonical.exists_run
        ⟨first, List.mem_append_right _ List.mem_cons_self, rfl⟩
      have hrise := hcanonical.ascending
      refine hne run hfeature (SegmentId.eq_of_pairwise_lt (List.pairwise_append.mp hrise).2.1
        run.pairwise_lt_keys fun id => ?_)
      rw [hmem, List.mem_append]
      constructor
      · exact fun hid => ⟨.inr hid, hblock.eq_of_mem id hid⟩
      · rintro ⟨hid | hid, hroad⟩
        · exact absurd hroad (hblock.ne_of_mem_before hrise hid)
        · exact hid
    · obtain ⟨hbackward, hodd, rfl⟩ | ⟨hrest, rfl⟩ := hfault
      · exact .inconsistentRun habove' hbackward hodd
      · exact .nonCanonicalRun habove' hrest

theorem runs_eq_error_of_encode (h : encode keys = .error e) : runs keys = .error e := by
  unfold encode at h
  split at h
  · next hruns =>
    cases h
    exact hruns
  · next rs _ =>
    obtain ⟨body, hbytes, -⟩ := exists_encodeRuns rs
    rw [hbytes] at h
    cases h

/-- **The lists that are packed** are the canonical ones and no others. A list that is refused is
canonical up to a road whose keys are not, or do not belong after those before them
(`IsFirstFault`); the fault tells what is the matter with them (`FaultOf`). -/
theorem encode_isCanonical (keys : List SegmentId) :
    ((∃ bytes, encode keys = .ok bytes) ↔ IsCanonical keys) ∧
      ∀ e, encode keys = .error e → ∃ before block after featureId,
        IsFirstFault keys before block after featureId ∧ FaultOf keys before block featureId e :=
  ⟨exists_encode_iff, fun _ h => exists_firstFault (runs_eq_error_of_encode h)⟩

/-- A road that comes once more after another one, and a way back that has no way there. -/
theorem encode_isCanonical_refused :
    let again : List SegmentId := [⟨5, 0, .forward⟩, ⟨9, 0, .forward⟩, ⟨5, 1, .forward⟩]
    let wayBack : List SegmentId := [⟨5, 0, .forward⟩, ⟨9, 0, .backward⟩]
    encode again = .error (.unsorted 2) ∧ IsLeast (descents again) 2 ∧
      encode wayBack = .error (.inconsistentRun 9 1 2) ∧ ¬ IsCanonical wayBack := by
  intro again wayBack
  have hagain : encode again = .error (.unsorted 2) := rfl
  have hwayBack : encode wayBack = .error (.inconsistentRun 9 1 2) := rfl
  refine ⟨hagain, ?_, hwayBack, fun hcanonical => ?_⟩
  · obtain ⟨_, _, _, _, -, hfault⟩ := (encode_isCanonical again).2 _ hagain
    cases hfault with
    | unsorted _ _ hindex => exact hindex
  · obtain ⟨bytes, hbytes⟩ := (encode_isCanonical wayBack).1.mpr hcanonical
    rw [hwayBack] at hbytes
    cases hbytes

end Keys

end RoadTraffic
