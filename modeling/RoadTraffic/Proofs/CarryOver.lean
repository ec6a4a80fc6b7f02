import Mathlib
import RoadTraffic.Coloring

/-!
# Known groups on a new key list

A key list should hold every segment that is known. Whether it does is told by a count: of the
known segments, and of the keys that have a known group. A key that comes up twice is counted
twice, and so makes up for a segment that is missing.

* `Coloring.get?_carryOver`: what `(carryOver keys known).coloring` says of a segment.
* `Coloring.absentees`/`repetitions`: the known segments without a key, and the keys that repeat an
  earlier key of a known segment.
* `Coloring.missing_carryOver`: `missing = (absentees keys).length - repetitions keys`.
* `Coloring.checked_carryOver_iff`: when segments are told to be missing, and how many.
* `Coloring.carryThrough_concat`: steps in between make no difference.
* `Coloring.checked_carryOver_of_subset`: what is known is kept if `known.segments ⊆ keys`.
-/

namespace RoadTraffic

namespace Coloring

variable {known : Coloring} {keys : List SegmentId} {id : SegmentId}

/-! ## Segments with a group -/

/-- The segments that have a group, in order. -/
def segments (coloring : Coloring) : List SegmentId := coloring.groups.keys

theorem mem_segments {coloring : Coloring} :
    id ∈ coloring.segments ↔ (coloring.get? id).isSome :=
  Std.ExtTreeMap.mem_keys.trans Std.ExtTreeMap.mem_iff_isSome_getElem?

theorem nodup_segments (coloring : Coloring) : coloring.segments.Nodup :=
  Std.ExtTreeMap.nodup_keys

theorem length_segments (coloring : Coloring) : coloring.segments.length = coloring.size :=
  Std.ExtTreeMap.length_keys

theorem get?_of_notMem_segments {coloring : Coloring} (h : id ∉ coloring.segments) :
    coloring.get? id = none := by
  rwa [mem_segments, Bool.not_eq_true, Option.isSome_eq_false_iff, Option.isNone_iff_eq_none] at h

/-- A segment that `keys` hold twice has a group all the same, and only one. -/
theorem size_of_mem_segments {coloring : Coloring} (h : ∀ id, id ∈ coloring.segments ↔ id ∈ keys) :
    coloring.size = keys.dedup.length := by
  have hperm : coloring.segments.Perm keys.dedup :=
    (List.perm_ext_iff_of_nodup (nodup_segments coloring) keys.nodup_dedup).mpr fun id => by
      rw [h, List.mem_dedup]
  rw [← length_segments, hperm.length_eq]

/-! ## The new coloring -/

/-- Giving every key the group that `choose` has for it leaves none out and adds none. -/
theorem get?_ofList_map (keys : List SegmentId) (choose : SegmentId → SpeedGroup)
    (id : SegmentId) : (ofList (keys.map fun key => (key, choose key))).get? id =
      if id ∈ keys then some (choose id) else none := by
  induction keys using List.reverseRecOn with
  | nil => simp [ofList]
  | append_singleton keys key ih =>
    rw [List.map_append, List.map_singleton, get?_ofList_concat, ih]
    by_cases heq : key = id
    · simp [heq]
    · simp [heq, Ne.symm heq]

theorem get?_carryOver (keys : List SegmentId) (known : Coloring) (id : SegmentId) :
    (carryOver keys known).coloring.get? id = if id ∈ keys then some (known.group id) else none :=
  get?_ofList_map keys known.group id

theorem mem_segments_carryOver :
    id ∈ (carryOver keys known).coloring.segments ↔ id ∈ keys := by
  rw [mem_segments, get?_carryOver]
  split <;> simp [*]

theorem size_carryOver (keys : List SegmentId) (known : Coloring) :
    (carryOver keys known).coloring.size = keys.dedup.length :=
  size_of_mem_segments fun _ => mem_segments_carryOver

/-- If every known segment has a key, `group` cannot tell the new coloring from `known`. -/
theorem group_carryOver (h : known.segments ⊆ keys) (id : SegmentId) :
    (carryOver keys known).coloring.group id = known.group id := by
  rw [group, get?_carryOver]
  by_cases hkey : id ∈ keys
  · rw [if_pos hkey, Option.getD_some]
  · rw [if_neg hkey, group, get?_of_notMem_segments fun hknown => hkey (h hknown)]

/-- The coloring of `carryOver` makes use of `known.group` alone. -/
theorem coloring_carryOver_congr {a b : Coloring} (h : ∀ id, a.group id = b.group id) :
    (carryOver keys a).coloring = (carryOver keys b).coloring :=
  ext_get? fun id => by rw [get?_carryOver, get?_carryOver, h]

/-! ## Counting what is missing -/

/-- The known segments that have no key. -/
def absentees (known : Coloring) (keys : List SegmentId) : List SegmentId :=
  known.segments.filter (· ∉ keys)

/-- How many keys repeat an earlier key of a known segment: `Σ id, (keys.count id - 1)`. -/
def repetitions (known : Coloring) (keys : List SegmentId) : Nat :=
  (known.segments.map fun id => keys.count id - 1).sum

theorem mem_absentees : id ∈ known.absentees keys ↔ id ∈ known.segments ∧ id ∉ keys := by
  simp [absentees]

theorem sum_count_cons (ids keys : List SegmentId) (key : SegmentId) :
    (ids.map (key :: keys).count).sum = (ids.map keys.count).sum + ids.count key := by
  induction ids with
  | nil => rfl
  | cons id ids ih =>
    rw [List.map_cons, List.sum_cons, ih, List.count_cons, List.map_cons, List.sum_cons,
      List.count_cons]
    simp only [beq_iff_eq, eq_comm (a := key)]
    omega

/-- The keys that have a known group, counted key by key and segment by segment:
`Σ key, [key is known] = Σ id, keys.count id`. -/
theorem countP_isSome_get? (known : Coloring) (keys : List SegmentId) :
    keys.countP (fun key => (known.get? key).isSome) = (known.segments.map keys.count).sum := by
  induction keys with
  | nil => simp
  | cons key keys ih =>
    rw [List.countP_cons, ih, sum_count_cons, known.nodup_segments.count]
    simp only [mem_segments]

/-- Each of `ids` is either absent from `keys`, or comes up once and perhaps more often:
`Σ keys.count id + #absent = #ids + Σ (keys.count id - 1)`. -/
theorem sum_count_add_absent (ids keys : List SegmentId) :
    (ids.map keys.count).sum + (ids.filter (· ∉ keys)).length =
      ids.length + (ids.map fun id => keys.count id - 1).sum := by
  induction ids with
  | nil => rfl
  | cons id ids ih =>
    simp only [List.map_cons, List.sum_cons, List.length_cons, List.filter_cons]
    by_cases hkey : id ∈ keys
    · have hpos : 0 < keys.count id := List.count_pos_iff.mpr hkey
      simp only [hkey, not_true_eq_false, decide_false, Bool.false_eq_true, ↓reduceIte]
      omega
    · have hzero : keys.count id = 0 := List.count_eq_zero.mpr hkey
      simp only [hkey, not_false_eq_true, decide_true, ↓reduceIte, List.length_cons]
      omega

/-- Each repetition hides one segment that is missing. -/
theorem missing_carryOver (keys : List SegmentId) (known : Coloring) :
    (carryOver keys known).missing =
      (known.absentees keys).length - known.repetitions keys := by
  have hbalance := sum_count_add_absent known.segments keys
  rw [← countP_isSome_get?, length_segments] at hbalance
  change known.size - keys.countP (fun key => (known.get? key).isSome) = _
  rw [absentees, repetitions]
  omega

theorem absentees_eq_nil : known.absentees keys = [] ↔ known.segments ⊆ keys := by
  simp [absentees, List.filter_eq_nil_iff, List.subset_def]

theorem repetitions_eq_zero :
    known.repetitions keys = 0 ↔ ∀ id ∈ known.segments, keys.count id ≤ 1 := by
  simp [repetitions, List.sum_eq_zero_iff, Nat.sub_eq_zero_iff_le]

namespace Carried

variable {carried : Carried}

theorem checked_eq_error_iff {error : MissingSegments} :
    carried.checked = .error error ↔ 0 < carried.missing ∧ error.count = carried.missing := by
  obtain ⟨count⟩ := error
  rw [checked, Nat.pos_iff_ne_zero]
  split <;> simp [*, eq_comm]

/-- The only warning in `carried.records` is that segments are missing. -/
theorem mem_warnings_iff {record : LogRecord} :
    record ∈ carried.records.filter (·.level = .warn) ↔ 0 < carried.missing ∧
      record = ⟨.warn, logTarget, some "Known road segments are missing from the key list",
        [("missing", toString carried.missing)]⟩ := by
  rw [records, Nat.pos_iff_ne_zero]
  split <;> simp [*]

end Carried

/-- **What is told of missing segments.** `checked` fails, and a warning is logged, if more segments
are absent from `keys` (`absentees`) than known ones are repeated in it (`repetitions`). The number
told is the difference, so that it is right just if none is absent or none is repeated. Where no
known segment is repeated, this is how many known segments have no key, and something is told
exactly if there is one. -/
theorem checked_carryOver_iff (keys : List SegmentId) (known : Coloring) :
    (∀ error, (carryOver keys known).checked = .error error ↔
      known.repetitions keys < (known.absentees keys).length ∧
        error.count = (known.absentees keys).length - known.repetitions keys) ∧
    (∀ record, record ∈ (carryOver keys known).records.filter (·.level = .warn) ↔
      known.repetitions keys < (known.absentees keys).length ∧
        record = ⟨.warn, logTarget, some "Known road segments are missing from the key list",
          [("missing", toString (carryOver keys known).missing)]⟩) ∧
    ((carryOver keys known).missing = (known.absentees keys).length ↔
      known.segments ⊆ keys ∨ ∀ id ∈ known.segments, keys.count id ≤ 1) ∧
    ((∀ id ∈ known.segments, keys.count id ≤ 1) →
      ((∃ error, (carryOver keys known).checked = .error error) ↔
        ∃ id ∈ known.segments, id ∉ keys) ∧
      ∀ error, (carryOver keys known).checked = .error error →
        error.count = (known.absentees keys).length) := by
  have hmissing := missing_carryOver keys known
  have herror (error : MissingSegments) : (carryOver keys known).checked = .error error ↔
      known.repetitions keys < (known.absentees keys).length ∧
        error.count = (known.absentees keys).length - known.repetitions keys := by
    rw [Carried.checked_eq_error_iff, hmissing, Nat.sub_pos_iff_lt]
  refine ⟨herror, fun record => ?_, ?_, fun hunrepeated => ⟨?_, fun error h => ?_⟩⟩
  · rw [Carried.mem_warnings_iff, hmissing, Nat.sub_pos_iff_lt]
  -- The difference of two counts is the first one if either of them is zero.
  · rw [hmissing, ← absentees_eq_nil, ← repetitions_eq_zero, ← List.length_eq_zero_iff]
    omega
  · have hexists : (∃ id ∈ known.segments, id ∉ keys) ↔ 0 < (known.absentees keys).length := by
      rw [List.length_pos_iff_exists_mem]
      simp only [mem_absentees]
    rw [hexists]
    simp only [herror, repetitions_eq_zero.mpr hunrepeated]
    exact ⟨fun ⟨_, h, _⟩ => h, fun h => ⟨⟨_⟩, h, rfl⟩⟩
  · rw [((herror error).mp h).2, repetitions_eq_zero.mpr hunrepeated, Nat.sub_zero]

/-- Two known segments have a key and one has none; a key that nothing is known of comes up
twice. -/
theorem checked_carryOver_iff_one_absent :
    let known := ofList [(⟨1, 0, .forward⟩, .g1), (⟨2, 0, .forward⟩, .g4), (⟨9, 0, .forward⟩, .g2)]
    let keys : List SegmentId :=
      [⟨2, 0, .forward⟩, ⟨5, 0, .forward⟩, ⟨5, 0, .forward⟩, ⟨1, 0, .forward⟩]
    (∀ id ∈ known.segments, keys.count id ≤ 1) ∧
    (∃ error, (carryOver keys known).checked = .error error) ∧
    ∀ error, (carryOver keys known).checked = .error error → error.count = 1 := by
  intro known keys
  have hunrepeated : ∀ id ∈ known.segments, keys.count id ≤ 1 := by decide
  obtain ⟨hflagged, hcount⟩ := (checked_carryOver_iff keys known).2.2.2 hunrepeated
  exact ⟨hunrepeated, hflagged.mpr ⟨⟨9, 0, .forward⟩, by decide, by decide⟩, hcount⟩

/-- A key that comes up twice makes up for a known segment that has no key: `checked` succeeds and
the segment is dropped. -/
theorem checked_carryOver_repeated :
    let known := ofList [(⟨1, 0, .forward⟩, .g1), (⟨9, 0, .forward⟩, .g2)]
    let keys : List SegmentId := [⟨1, 0, .forward⟩, ⟨1, 0, .forward⟩]
    known.absentees keys = [⟨9, 0, .forward⟩] ∧
    (carryOver keys known).checked = .ok (ofList [(⟨1, 0, .forward⟩, .g1)]) ∧
    (carryOver keys known).records.filter (·.level = .warn) = [] := by
  intro known keys
  exact ⟨by decide, rfl, by decide⟩

/-! ## Carrying over once and again -/

theorem checked_carryOver (h : known.segments ⊆ keys) :
    (carryOver keys known).checked = .ok (carryOver keys known).coloring := by
  rw [Carried.checked, missing_carryOver, absentees_eq_nil.mpr h]
  exact if_pos (Nat.zero_sub _)

/-- Carries groups over from key list to key list, as long as none is missing. -/
def carryThrough (known : Coloring) (lists : List (List SegmentId)) :
    Except MissingSegments Coloring :=
  lists.foldlM (fun known keys => (carryOver keys known).checked) known

theorem isChain_cons_of_subset {ids ids' : List SegmentId} {lists : List (List SegmentId)}
    (h : ids ⊆ ids') (hchain : (ids' :: lists).IsChain (· ⊆ ·)) :
    (ids :: lists).IsChain (· ⊆ ·) := by
  cases lists with
  | nil => exact .singleton ids
  | cons next lists =>
    obtain ⟨hnext, hlists⟩ := List.isChain_cons_cons.mp hchain
    exact List.isChain_cons_cons.mpr ⟨List.Subset.trans h hnext, hlists⟩

/-- Lists in between that only ever gain segments make no difference to what is carried over: only
the last list, `keys`, does. -/
theorem carryThrough_concat {lists : List (List SegmentId)} {keys : List SegmentId}
    (h : (known.segments :: (lists ++ [keys])).IsChain (· ⊆ ·)) :
    carryThrough known (lists ++ [keys]) = .ok (carryOver keys known).coloring := by
  induction lists generalizing known with
  | nil =>
    obtain ⟨hkeys, -⟩ := List.isChain_cons_cons.mp h
    change (carryOver keys known).checked >>= pure = _
    rw [checked_carryOver hkeys]
    rfl
  | cons middle lists ih =>
    rw [List.cons_append] at h
    obtain ⟨hmiddle, hrest⟩ := List.isChain_cons_cons.mp h
    have hsegments : (carryOver middle known).coloring.segments ⊆ middle := fun id hid =>
      mem_segments_carryOver.mp hid
    change (carryOver middle known).checked >>=
      (fun between => carryThrough between (lists ++ [keys])) = _
    rw [checked_carryOver hmiddle]
    exact (ih (isChain_cons_of_subset hsegments hrest)).trans
      (congrArg _ (coloring_carryOver_congr (group_carryOver hmiddle)))

/-- **What is known is kept.** If `known.segments ⊆ keys`, the new coloring gives each key its known
group, or `.unknown`, and says nothing else, so that `group` agrees with `known` everywhere.
Carrying it over to the same keys changes nothing, and neither do key lists in between, each of
which holds the segments of the one before it. -/
theorem checked_carryOver_of_subset (h : known.segments ⊆ keys) :
    ∃ coloring, (carryOver keys known).checked = .ok coloring ∧
      (∀ id, id ∈ coloring.segments ↔ id ∈ keys) ∧ coloring.size = keys.dedup.length ∧
      (∀ id group, known.get? id = some group → coloring.get? id = some group) ∧
      (∀ id ∈ keys, id ∉ known.segments → coloring.get? id = some .unknown) ∧
      (∀ id, coloring.group id = known.group id) ∧
      (carryOver keys coloring).checked = .ok coloring ∧
      ∀ lists, (known.segments :: (lists ++ [keys])).IsChain (· ⊆ ·) →
        carryThrough known (lists ++ [keys]) = .ok coloring := by
  refine ⟨(carryOver keys known).coloring, checked_carryOver h, fun _ => mem_segments_carryOver,
    size_carryOver keys known, fun id found hfound => ?_, fun id hkey hunknown => ?_,
    group_carryOver h, ?_, fun lists => carryThrough_concat⟩
  · have hkey : id ∈ keys := h (mem_segments.mpr (by rw [hfound]; rfl))
    rw [get?_carryOver, if_pos hkey, group, hfound, Option.getD_some]
  · rw [get?_carryOver, if_pos hkey, group, get?_of_notMem_segments hunknown, Option.getD_none]
  · rw [checked_carryOver fun id hid => mem_segments_carryOver.mp hid,
      coloring_carryOver_congr (group_carryOver h)]

/-- Keys out of order, one of them twice, a known group that says nothing, and a list in between. -/
theorem checked_carryOver_of_subset_two_steps :
    let known := ofList [(⟨3, 0, .forward⟩, .tempBlock), (⟨1, 0, .forward⟩, .unknown)]
    let middle : List SegmentId := [⟨3, 0, .forward⟩, ⟨3, 0, .backward⟩, ⟨1, 0, .forward⟩]
    let keys : List SegmentId :=
      [⟨3, 0, .forward⟩, ⟨2, 7, .forward⟩, ⟨3, 0, .backward⟩, ⟨1, 0, .forward⟩, ⟨3, 0, .forward⟩]
    known.segments ⊆ keys ∧ ∃ coloring, (carryOver keys known).checked = .ok coloring ∧
      coloring.size = 4 ∧ coloring.get? ⟨3, 0, .forward⟩ = some .tempBlock ∧
      coloring.get? ⟨2, 7, .forward⟩ = some .unknown ∧
      carryThrough known [middle, keys] = .ok coloring := by
  intro known middle keys
  have hsubset : known.segments ⊆ keys := by decide
  obtain ⟨coloring, hchecked, -, hsize, hkept, hunknown, -, -, hthrough⟩ :=
    checked_carryOver_of_subset hsubset
  exact ⟨hsubset, coloring, hchecked, hsize.trans (by decide), hkept _ _ rfl,
    hunknown _ (by decide) (by decide),
    hthrough [middle] (.cons_cons (by decide) (.cons_cons (by decide) (.singleton _)))⟩

end Coloring

end RoadTraffic
