import Mathlib
import RoadTraffic.Keys.Run

/-!
# Canonical key lists

* `Keys.Ascending rs`: runs in strictly rising order of their `featureId`s.
* `Keys.runs_eq_ok_iff`: `runs keys = .ok rs` exactly if `keys = rs.flatMap Run.keys` and `rs` are
  ascending.
* `Keys.pairwise_lt_flatMap_keys`: a list of such runs is strictly ascending.
-/

namespace RoadTraffic

namespace SegmentId

/-! ## The order of segments -/

theorem lt_iff {a b : SegmentId} : a < b ↔ a.featureId < b.featureId ∨
    a.featureId = b.featureId ∧ (a.pointIndex < b.pointIndex ∨
      a.pointIndex = b.pointIndex ∧ a.direction.rank < b.direction.rank) := by
  change order a b = .lt ↔ _
  simp only [order, compareLex, compareOn, Ordering.then_eq_lt, Nat.compare_eq_lt,
    Nat.compare_eq_eq, UInt32.lt_iff_toNat_lt, UInt16.lt_iff_toNat_lt, UInt32.toNat_inj,
    UInt16.toNat_inj]

theorem lt_asymm {a b : SegmentId} (h : a < b) : ¬ b < a :=
  Std.OrientedCmp.not_lt_of_lt h

end SegmentId

namespace Run

/-! ## The keys of one run -/

theorem mem_keys {run : Run} {id : SegmentId} : id ∈ run.keys ↔ id.featureId = run.featureId ∧
    id.pointIndex ≤ run.lastIndex ∧ id.direction ∈ directionsOf run.oneWay := by
  have hlast := run.lastIndex.toNat_lt
  simp only [keys, List.mem_flatMap, List.mem_range, List.mem_map, segmentCount]
  constructor
  · rintro ⟨index, hindex, direction, hdirection, rfl⟩
    refine ⟨rfl, ?_, hdirection⟩
    rw [UInt16.le_iff_toNat_le, UInt16.toNat_ofNat', Nat.mod_eq_of_lt (by omega)]
    omega
  · rintro ⟨hfeature, hpoint, hdirection⟩
    rw [UInt16.le_iff_toNat_le] at hpoint
    refine ⟨id.pointIndex.toNat, by omega, id.direction, hdirection, ?_⟩
    rw [← hfeature, UInt16.ofNat_toNat]

theorem keys_ne_nil (run : Run) : run.keys ≠ [] := by
  apply List.ne_nil_of_mem (a := ⟨run.featureId, 0, .forward⟩)
  rw [mem_keys]
  refine ⟨rfl, UInt16.le_iff_toNat_le.mpr (Nat.zero_le _), ?_⟩
  unfold directionsOf
  split <;> simp

/-- A road has a segment for every `UInt16` at most, and two keys for each. -/
theorem size_le (run : Run) : run.size ≤ 2 ^ 17 := by
  have hlast := run.lastIndex.toNat_lt
  have hdirections : (directionsOf run.oneWay).length ≤ 2 := by
    unfold directionsOf
    split <;> simp
  have hsegments : run.segmentCount ≤ 2 ^ 16 := by
    rw [segmentCount]
    omega
  exact Nat.mul_le_mul hsegments hdirections

theorem all_forward_keys (run : Run) : run.keys.all (·.direction == .forward) = run.oneWay := by
  cases h : run.oneWay with
  | true =>
    rw [List.all_eq_true]
    intro id hid
    rw [mem_keys, h] at hid
    simpa [directionsOf] using hid.2.2
  | false =>
    rw [List.all_eq_false]
    refine ⟨⟨run.featureId, 0, .backward⟩, ?_, Bool.false_ne_true⟩
    rw [mem_keys, h]
    exact ⟨rfl, UInt16.le_iff_toNat_le.mpr (Nat.zero_le _),
      List.mem_cons_of_mem _ List.mem_cons_self⟩

theorem pairwise_lt_keys (run : Run) : run.keys.Pairwise (· < ·) := by
  have hlast := run.lastIndex.toNat_lt
  rw [keys, List.pairwise_flatMap]
  constructor
  · intro index _
    unfold directionsOf
    split <;> simp [SegmentId.lt_iff, Direction.rank]
  · refine List.pairwise_lt_range.imp_of_mem fun {i j} hi hj hij a ha b hb => ?_
    simp only [List.mem_map] at ha hb
    obtain ⟨_, -, rfl⟩ := ha
    obtain ⟨_, -, rfl⟩ := hb
    simp only [List.mem_range, segmentCount] at hi hj
    rw [SegmentId.lt_iff, UInt16.lt_iff_toNat_lt]
    simp only [UInt16.toNat_ofNat', Nat.mod_eq_of_lt (show i < 2 ^ 16 by omega),
      Nat.mod_eq_of_lt (show j < 2 ^ 16 by omega)]
    exact .inr ⟨trivial, .inl hij⟩

/-! ## The run of given keys -/

theorem ofKeys_keys (run : Run) : ofKeys run.featureId run.keys = .ok run := by
  have hdirections : 0 < (directionsOf run.oneWay).length := by
    unfold directionsOf
    split <;> decide
  have hrun : (⟨run.featureId,
      UInt16.ofNat (run.keys.length / (directionsOf run.oneWay).length - 1), run.oneWay⟩ : Run) =
        run := by
    rw [length_keys, size, Nat.mul_div_cancel _ hdirections, segmentCount, Nat.add_sub_cancel,
      UInt16.ofNat_toNat]
  simp only [ofKeys, all_forward_keys, hrun]
  rw [if_neg (by rw [length_keys, size, Nat.mul_mod_left]; simp), if_pos trivial]

theorem eq_of_ofKeys {featureId : UInt32} {keys : List SegmentId} {run : Run}
    (h : ofKeys featureId keys = .ok run) : keys = run.keys ∧ run.featureId = featureId := by
  simp only [ofKeys] at h
  split at h
  · cases h
  · split at h
    · next hkeys =>
      cases h
      exact ⟨hkeys, rfl⟩
    · cases h

end Run

namespace Keys

/-! ## Lists of runs -/

/-- Runs in strictly rising order of their roads. -/
def Ascending (runs : List Run) : Prop := runs.IsChain fun a b => a.featureId < b.featureId

theorem ascending_iff_pairwise {runs : List Run} :
    Ascending runs ↔ runs.Pairwise fun a b => a.featureId < b.featureId := by
  have : IsTrans Run fun a b => a.featureId < b.featureId := ⟨fun _ _ _ => UInt32.lt_trans⟩
  exact List.isChain_iff_pairwise

theorem pairwise_lt_flatMap_keys {runs : List Run} (h : Ascending runs) :
    (runs.flatMap Run.keys).Pairwise (· < ·) := by
  rw [List.pairwise_flatMap]
  refine ⟨fun run _ => run.pairwise_lt_keys, (ascending_iff_pairwise.mp h).imp ?_⟩
  intro a b hab x hx y hy
  rw [SegmentId.lt_iff, (Run.mem_keys.mp hx).1, (Run.mem_keys.mp hy).1]
  exact .inl hab

/-- Taking a list apart by `featureId` is the inverse of putting ascending runs together. -/
theorem splitBy_flatMap_keys {runs : List Run} (h : Ascending runs) :
    (runs.flatMap Run.keys).splitBy (fun a b => a.featureId == b.featureId) =
      runs.map Run.keys := by
  rw [List.flatMap_def]
  apply List.splitBy_flatten
  · intro hnil
    obtain ⟨run, -, hrun⟩ := List.mem_map.mp hnil
    exact run.keys_ne_nil hrun
  · intro block hblock
    obtain ⟨run, -, rfl⟩ := List.mem_map.mp hblock
    refine (List.pairwise_of_forall_mem_list fun a ha b hb => ?_).isChain
    simp [(Run.mem_keys.mp ha).1, (Run.mem_keys.mp hb).1]
  · rw [List.isChain_map]
    refine List.IsChain.imp (fun a b hab => ?_) h
    refine ⟨a.keys_ne_nil, b.keys_ne_nil, ?_⟩
    rw [(Run.mem_keys.mp (List.getLast_mem a.keys_ne_nil)).1,
      (Run.mem_keys.mp (List.head_mem b.keys_ne_nil)).1, beq_eq_false_iff_ne]
    exact UInt32.ne_of_lt hab

/-- A chain with `first?` in front, which may be there or not. -/
theorem isChain_toList_append_cons {α : Type} {R : α → α → Prop} {first? : Option α} {a : α}
    {l : List α} : (first?.toList ++ a :: l).IsChain R ↔
      (∀ first ∈ first?, R first a) ∧ (a :: l).IsChain R := by
  cases first? <;> simp [List.isChain_cons_cons]

/-- The loop `runsFrom` takes over `blocks` as long as each is a run of a road above the last one.
The runs that are `done` stand in reverse, the last one first. -/
theorem runsFrom_eq_ok_iff {start : Nat} {done result : List Run}
    {blocks : List (List SegmentId)} (hne : [] ∉ blocks) :
    runsFrom start done blocks = .ok result ↔ ∃ new, result = done.reverse ++ new ∧
      blocks = new.map Run.keys ∧ Ascending (done.head?.toList ++ new) := by
  induction blocks generalizing start done with
  | nil =>
    simp only [runsFrom, Except.ok.injEq]
    constructor
    · rintro rfl
      exact ⟨[], by simp, rfl, by cases done <;> simp [Ascending]⟩
    · rintro ⟨new, rfl, hnew, -⟩
      simp [List.map_eq_nil_iff.mp hnew.symm]
  | cons block blocks ih =>
    rw [List.mem_cons, not_or] at hne
    cases block with
    | nil => exact (hne.1 rfl).elim
    | cons first others =>
      -- The check against the last run, as a statement about it.
      have hfirst : done.head?.any (·.featureId ≥ first.featureId) = false ↔
          ∀ run ∈ done.head?, run.featureId < first.featureId := by
        cases done <;> simp
      simp only [runsFrom]
      constructor
      · intro h
        split at h
        · cases h
        · next habove =>
          split at h
          · cases h
          · next run hrun =>
            obtain ⟨hkeys, hfeature⟩ := Run.eq_of_ofKeys hrun
            obtain ⟨new, rfl, rfl, hasc⟩ := (ih hne.2).mp h
            refine ⟨run :: new, by simp, by rw [hkeys, List.map_cons], ?_⟩
            rw [Bool.not_eq_true, hfirst, ← hfeature] at habove
            exact isChain_toList_append_cons.mpr ⟨habove, hasc⟩
      · rintro ⟨new, rfl, hblocks, hasc⟩
        cases new with
        | nil => cases hblocks
        | cons run new =>
          rw [List.map_cons, List.cons.injEq] at hblocks
          obtain ⟨hkeys, rfl⟩ := hblocks
          have hfeature : first.featureId = run.featureId :=
            (Run.mem_keys.mp (hkeys ▸ List.mem_cons_self)).1
          obtain ⟨habove, hasc⟩ := isChain_toList_append_cons.mp hasc
          -- The block is that of `run`, so that neither check stops here.
          rw [hfirst.mpr (hfeature ▸ habove), hfeature, hkeys, Run.ofKeys_keys]
          simp only [Bool.false_eq_true, ↓reduceIte]
          exact (ih hne.2).mpr ⟨new, by simp, rfl, hasc⟩

/-- The function `runs` takes a list apart exactly if it consists of runs, in rising order of
roads. -/
theorem runs_eq_ok_iff {keys : List SegmentId} {rs : List Run} :
    runs keys = .ok rs ↔ Ascending rs ∧ keys = rs.flatMap Run.keys := by
  rw [runs, runsFrom_eq_ok_iff (List.nil_notMem_splitBy _ _)]
  constructor
  · rintro ⟨new, rfl, hblocks, hasc⟩
    refine ⟨hasc, ?_⟩
    rw [← List.flatten_splitBy (fun a b : SegmentId => a.featureId == b.featureId) keys, hblocks,
      ← List.flatMap_def]
  · rintro ⟨hasc, rfl⟩
    exact ⟨rs, rfl, splitBy_flatMap_keys hasc, hasc⟩

end Keys

end RoadTraffic
