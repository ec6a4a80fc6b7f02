import Mathlib
import RoadTraffic.Proofs.KeyAcceptance
import RoadTraffic.Proofs.Words.KeyReading
import RoadTraffic.Proofs.Words.Writer

/-!
# Packing key lists in machine words

No list makes the machine stop while it packs it, as long as a word can tell the number of its keys.
A key is checked against its place in its run instead of against the key that should be there; and
by the time a difference of two roads is taken, the second is known to be above the first.

* `Run.keys_eq_map`: the keys of a run, place by place (`Run.keyAt`).
* `Run.eq_keys_iff`: keys make up a run exactly if each of them `IsAt` its place.
* `CountedRun.runs_collect`: the runs that are found are the same, faults included.
* `Keys.runs_encodeInWords`: the machine goes through, and writes what `Keys.encode` writes.
-/

namespace RoadTraffic

namespace Run

/-! ## Keys and their places -/

theorem length_directionsOf (oneWay : Bool) :
    (directionsOf oneWay).length = 1 ∨ (directionsOf oneWay).length = 2 := by
  cases oneWay <;> decide

theorem length_directionsOf_pos (oneWay : Bool) : 0 < (directionsOf oneWay).length := by
  cases oneWay <;> decide

/-- The key at `place` of a run: all directions of one segment come before the next one. -/
def keyAt (run : Run) (place : Nat) : SegmentId where
  featureId := run.featureId
  pointIndex := UInt16.ofNat (place / (directionsOf run.oneWay).length)
  direction := if place % (directionsOf run.oneWay).length = 1 then .backward else .forward

theorem keys_eq_map (run : Run) : run.keys = (List.range run.size).map run.keyAt := by
  unfold keys size
  induction run.segmentCount with
  | zero => simp
  | succ count ih =>
    rw [List.range_succ, List.flatMap_append, ih, List.flatMap_singleton, Nat.succ_mul,
      List.range_add, List.map_append, List.map_map]
    congr 1
    cases h : run.oneWay with
    | true => simp [directionsOf, keyAt, h, Nat.mod_one]
    | false =>
      have hone : (count * 2 + 1) / 2 = count := by omega
      simp [directionsOf, keyAt, h, List.range_succ, hone]

/-- A key that is at its `place`, as its point number and its direction tell. -/
def IsAt (oneWay : Bool) (place : Nat) (id : SegmentId) : Prop :=
  id.pointIndex.toNat = place / (directionsOf oneWay).length ∧
    (id.direction = .backward ↔ place % (directionsOf oneWay).length = 1)

theorem eq_keyAt_iff (run : Run) {place : Nat} {id : SegmentId} (h : id.featureId = run.featureId)
    (hplace : place < run.size) : id = run.keyAt place ↔ IsAt run.oneWay place id := by
  have hlast := run.lastIndex.toNat_lt
  have hindex : place / (directionsOf run.oneWay).length < run.segmentCount :=
    Nat.div_lt_of_lt_mul (by rwa [Nat.mul_comm])
  have hnat : (UInt16.ofNat (place / (directionsOf run.oneWay).length)).toNat =
      place / (directionsOf run.oneWay).length := by
    rw [UInt16.toNat_ofNat', Nat.mod_eq_of_lt (by rw [segmentCount] at hindex; omega)]
  obtain ⟨featureId, pointIndex, direction⟩ := id
  rw [keyAt, SegmentId.mk.injEq, ← UInt16.toNat_inj, hnat, IsAt]
  cases direction <;> simp [show featureId = run.featureId from h]

theorem forall_isAt_cons_iff {oneWay : Bool} {place : Nat} {id : SegmentId} {ids : List SegmentId} :
    (∀ i (h : i < (id :: ids).length), IsAt oneWay (place + i) (id :: ids)[i]) ↔
      IsAt oneWay place id ∧ ∀ i (h : i < ids.length), IsAt oneWay (place + 1 + i) ids[i] := by
  constructor
  · intro h
    refine ⟨h 0 (Nat.succ_pos _), fun i hi => ?_⟩
    rw [Nat.add_right_comm, Nat.add_assoc]
    exact h (i + 1) (Nat.succ_lt_succ hi)
  · rintro ⟨hid, hids⟩ (_ | i) hi
    · exact hid
    · rw [← Nat.add_assoc, Nat.add_right_comm]
      exact hids i (Nat.lt_of_succ_lt_succ hi)

/-- The last key tells that there are no more segments than point numbers (`2 ^ 16`). -/
theorem length_div_le_of_isAt {oneWay : Bool} {keys : List SegmentId} (hne : keys ≠ [])
    (hwhole : keys.length % (directionsOf oneWay).length = 0)
    (hplaces : ∀ i (h : i < keys.length), IsAt oneWay i keys[i]) :
    keys.length / (directionsOf oneWay).length ≤ 2 ^ 16 := by
  have hsome : 0 < keys.length := List.length_pos_of_ne_nil hne
  have hindex := (hplaces (keys.length - 1) (by omega)).1
  have hlt := keys[keys.length - 1].pointIndex.toNat_lt
  rcases length_directionsOf oneWay with hone | htwo
  · rw [hone] at hindex ⊢
    omega
  · rw [htwo] at hindex hwhole ⊢
    omega

theorem size_of_length {featureId : UInt32} {oneWay : Bool} {length : Nat} (hsome : 0 < length)
    (hwhole : length % (directionsOf oneWay).length = 0)
    (hle : length / (directionsOf oneWay).length ≤ 2 ^ 16) :
    (⟨featureId, UInt16.ofNat (length / (directionsOf oneWay).length - 1), oneWay⟩ : Run).size =
      length := by
  have hdvd := Nat.dvd_of_mod_eq_zero hwhole
  have hcount : 0 < length / (directionsOf oneWay).length :=
    Nat.div_pos (Nat.le_of_dvd hsome hdvd) (length_directionsOf_pos oneWay)
  rw [size, segmentCount, UInt16.toNat_ofNat', Nat.mod_eq_of_lt (by omega),
    Nat.sub_add_cancel hcount, Nat.div_mul_cancel hdvd]

/-- The `keys` make up a run exactly if each of them is at its place. -/
theorem eq_keys_iff {featureId : UInt32} {oneWay : Bool} {keys : List SegmentId} (hne : keys ≠ [])
    (hroad : ∀ id ∈ keys, id.featureId = featureId)
    (hwhole : keys.length % (directionsOf oneWay).length = 0) :
    keys = (⟨featureId, UInt16.ofNat (keys.length / (directionsOf oneWay).length - 1),
      oneWay⟩ : Run).keys ↔ ∀ i (h : i < keys.length), IsAt oneWay i keys[i] := by
  let run : Run :=
    ⟨featureId, UInt16.ofNat (keys.length / (directionsOf oneWay).length - 1), oneWay⟩
  rw [keys_eq_map]
  constructor
  · intro hkeys i hi
    have hsize : i < run.size := by
      rw [hkeys] at hi
      simpa using hi
    refine (eq_keyAt_iff run (hroad _ (List.getElem_mem hi)) hsize).mp ?_
    simp [List.getElem_of_eq hkeys, run]
  · intro hplaces
    have hsize : run.size = keys.length := size_of_length (List.length_pos_of_ne_nil hne) hwhole
      (length_div_le_of_isAt hne hwhole hplaces)
    refine List.ext_getElem (by rw [List.length_map, List.length_range, hsize]) fun i hi _ => ?_
    rw [List.getElem_map, List.getElem_range]
    exact (eq_keyAt_iff run (hroad _ (List.getElem_mem hi)) (by rwa [hsize])).mpr (hplaces i hi)

end Run

namespace CountedRun

/-! ## Runs whose segments are counted -/

/-- The run with its segments counted. -/
def ofRun (run : Run) : CountedRun where
  featureId := run.featureId
  segmentCount := BitVec.ofNat 64 run.segmentCount
  oneWay := run.oneWay

/-- A key is compared with a place by its point number and its direction, which are told by a
division. -/
theorem isAt_iff {oneWay : Bool} {key : SegmentId} {index point side : Word}
    (hpoint : point.toNat = index.toNat / (Run.directionsOf oneWay).length)
    (hside : side.toNat = index.toNat % (Run.directionsOf oneWay).length) :
    (key.pointIndex.toBitVec.setWidth 64 = point ∧ (key.direction = .backward ↔ side = 1)) ↔
      Run.IsAt oneWay index.toNat key := by
  have hone : (1 : Word).toNat = 1 := rfl
  rw [Run.IsAt, ← BitVec.toNat_inj, ← BitVec.toNat_inj, hpoint, hside, hone,
    BitVec.toNat_setWidth_of_le (by decide), UInt16.toNat_toBitVec]

theorem runs_areInOrder {oneWay : Bool} {index : Word} {keys : List SegmentId}
    (h : index.toNat + keys.length < 2 ^ 64) :
    Runs (areInOrder (Keys.directionCount oneWay) index keys) fun inOrder =>
      inOrder = true ↔ ∀ i (h : i < keys.length), Run.IsAt oneWay (index.toNat + i) keys[i] := by
  induction keys generalizing index with
  | nil => exact Runs.pure (by simp)
  | cons key keys ih =>
    have hne : Keys.directionCount oneWay ≠ 0 := by cases oneWay <;> decide
    have hone : (1 : Word).toNat = 1 := rfl
    refine Runs.div hne ?_
    rintro ⟨point, hpoint⟩
    refine Runs.mod hne ?_
    rintro ⟨side, hside⟩
    dsimp only
    rw [Keys.toNat_directionCount] at hpoint hside
    rw [List.length_cons] at h
    rw [Run.forall_isAt_cons_iff]
    split
    · next hplace =>
      rw [isAt_iff hpoint hside] at hplace
      refine Runs.add (by omega) ?_
      rintro ⟨next, hnext⟩
      rw [hone] at hnext
      refine (ih (by dsimp only; omega)).imp fun inOrder hinOrder => ?_
      rw [hinOrder, hnext]
      exact (and_iff_right hplace).symm
    · next hplace =>
      rw [isAt_iff hpoint hside] at hplace
      exact Runs.pure (by simp [hplace])

/-- The `keys` of one road are the same run, or the same fault. -/
theorem runs_ofKeys {featureId : UInt32} {keys : List SegmentId} (hne : keys ≠ [])
    (hroad : ∀ id ∈ keys, id.featureId = featureId) (h : keys.length < 2 ^ 64) :
    Runs (ofKeys featureId keys) (· = (Run.ofKeys featureId keys).map ofRun) := by
  unfold ofKeys Run.ofKeys
  generalize keys.all (·.direction == .forward) = oneWay
  have hdirections : Keys.directionCount oneWay ≠ 0 := by cases oneWay <;> decide
  have hcount := Keys.toNat_directionCount oneWay
  refine Runs.length h ?_
  rintro ⟨length, hlength⟩
  refine Runs.mod hdirections ?_
  rintro ⟨left, hleft⟩
  dsimp only at hleft ⊢
  rw [hlength, hcount] at hleft
  have hzero : left = 0 ↔ keys.length % (Run.directionsOf oneWay).length = 0 := by
    rw [Word.eq_zero_iff, hleft]
  by_cases hwhole : keys.length % (Run.directionsOf oneWay).length = 0
  · rw [if_neg (not_not.mpr (hzero.mpr hwhole)), if_neg (not_not.mpr hwhole)]
    have hkeys := Run.eq_keys_iff hne hroad hwhole
    have hstart : (0 : Word).toNat = 0 := rfl
    refine (runs_areInOrder (by rw [hstart]; omega)).bind fun inOrder hinOrder => ?_
    simp only [hstart, Nat.zero_add] at hinOrder
    rw [← hkeys] at hinOrder
    by_cases hrun : inOrder
    -- The keys are those of a run, whose segments are counted by dividing their number.
    · have hsize := congrArg List.length (hinOrder.mp hrun)
      rw [Run.length_keys, Run.size] at hsize
      rw [if_pos hrun, if_pos (hinOrder.mp hrun)]
      refine Runs.div hdirections ?_
      rintro ⟨segmentCount, hsegments⟩
      dsimp only at hsegments ⊢
      rw [hlength, hcount, hsize, Nat.mul_div_cancel _ (Run.length_directionsOf_pos _)] at hsegments
      refine Runs.pure (congrArg Except.ok ?_)
      rw [ofRun, ← hsegments, BitVec.ofNat_toNat, BitVec.setWidth_eq]
    · rw [if_neg hrun, if_neg (mt hinOrder.mpr hrun)]
      exact Runs.pure rfl
  · rw [if_pos (mt hzero.mp hwhole), if_pos hwhole, hlength, hcount]
    exact Runs.pure rfl

/-- Blocks of equal roads are taken over, and their keys counted from `start`, one by one. -/
theorem runs_collect (start : Word) (done : List Run) {blocks : List (List SegmentId)}
    (hne : [] ∉ blocks)
    (hroad : ∀ block ∈ blocks, ∀ a ∈ block, ∀ b ∈ block, a.featureId = b.featureId)
    (h : start.toNat + blocks.flatten.length < 2 ^ 64) :
    Runs (collect start (done.map ofRun) blocks)
      (· = (Keys.runsFrom start.toNat done blocks).map (List.map ofRun)) := by
  induction blocks generalizing start done with
  | nil => exact Runs.pure (by rw [Keys.runsFrom, Except.map, List.map_reverse])
  | cons block blocks ih =>
    rw [List.mem_cons, not_or] at hne
    cases block with
    | nil => exact (hne.1 rfl).elim
    | cons first others =>
      rw [List.flatten_cons, List.length_append] at h
      rw [collect, Keys.runsFrom]
      refine Runs.item (Nat.succ_pos _) ?_
      have hlast : (done.map ofRun).head?.any (·.featureId ≥ first.featureId) =
          done.head?.any (·.featureId ≥ first.featureId) := by cases done <;> rfl
      have hfirst : (first :: others)[(0 : Word).toNat] = first := rfl
      rw [hfirst, hlast]
      split
      · exact Runs.pure rfl
      refine (runs_ofKeys (List.cons_ne_nil _ _) (fun id hid =>
        hroad _ List.mem_cons_self id hid first List.mem_cons_self) (by omega)).bind ?_
      rintro _ rfl
      cases Run.ofKeys first.featureId (first :: others) with
      | error e => exact Runs.pure rfl
      | ok run =>
        refine Runs.length (by omega) ?_
        rintro ⟨length, hlength⟩
        refine Runs.add (by dsimp only; omega) ?_
        rintro ⟨next, hnext⟩
        dsimp only at hnext ⊢
        rw [hlength] at hnext
        have hrest := @ih next (run :: done) hne.2
          (fun block hblock => hroad block (List.mem_cons_of_mem _ hblock)) (by omega)
        rwa [hnext] at hrest

end CountedRun

namespace BitBuffer

variable {buffer : BitBuffer} {bits : List Bool}

/-! ## Writing runs -/

theorem runs_writeFeatureIds {previous : UInt32} {runs : List Run} (h : buffer.Holds bits)
    (habove : ∀ run ∈ runs.head?, previous ≤ run.featureId) (hasc : Keys.Ascending runs) :
    Runs (buffer.writeFeatureIds previous (runs.map CountedRun.ofRun)) fun buffer' =>
      buffer'.Holds (bits ++ Keys.featureIdBits previous.toNat (runs.map (·.featureId))) := by
  induction runs generalizing buffer bits previous with
  | nil => exact Runs.pure (by simpa [Keys.featureIdBits] using h)
  | cons run runs ih =>
    have hle : previous.toNat ≤ run.featureId.toNat := UInt32.le_iff_toNat_le.mp (habove run rfl)
    have hlt := run.featureId.toNat_lt
    refine Runs.sub hle ?_
    rintro ⟨step, hstep⟩
    have hone : (1 : Word).toNat = 1 := rfl
    have hcode : (Word.addCapped 1 (step.setWidth 64)).toNat =
        run.featureId.toNat - previous.toNat + 1 := by
      have hsame : step.toNat = run.featureId.toNat - previous.toNat := hstep
      rw [Word.toNat_addCapped, BitVec.toNat_setWidth, hone, hsame]
      omega
    refine (runs_writeGamma h (by rw [hcode]; omega)).bind fun buffer₁ h₁ => ?_
    rw [hcode] at h₁
    rw [List.map_cons, Keys.featureIdBits, ← List.append_assoc]
    refine ih h₁ (fun next hnext => UInt32.le_of_lt ?_) hasc.tail
    exact (List.isChain_cons.mp hasc).1 next hnext

theorem runs_writeSegmentCounts {runs : List Run} (h : buffer.Holds bits) :
    Runs (buffer.writeSegmentCounts (runs.map CountedRun.ofRun)) fun buffer' =>
      buffer'.Holds (bits ++ Keys.segmentCountBits (runs.map (·.lastIndex))) := by
  induction runs generalizing buffer bits with
  | nil => exact Runs.pure (by simpa [Keys.segmentCountBits] using h)
  | cons run runs ih =>
    have hlt := run.lastIndex.toNat_lt
    have hone : (1 : Word).toNat = 1 := rfl
    have hcode : (Word.addCapped 1 (CountedRun.ofRun run).segmentCount).toNat =
        run.lastIndex.toNat + 2 := by
      rw [Word.toNat_addCapped, CountedRun.ofRun, BitVec.toNat_ofNat, hone, Run.segmentCount]
      omega
    refine (runs_writeGamma h (by rw [hcode]; omega)).bind fun buffer₁ h₁ => ?_
    rw [hcode] at h₁
    rw [List.map_cons, Keys.segmentCountBits, List.flatMap_cons, ← List.append_assoc]
    exact ih h₁

theorem runs_writeOneWay {runs : List Run} (h : buffer.Holds bits) :
    Runs (buffer.writeOneWay (runs.map CountedRun.ofRun)) fun buffer' =>
      buffer'.Holds (bits ++ runs.map (·.oneWay)) := by
  induction runs generalizing buffer bits with
  | nil => exact Runs.pure (by simpa using h)
  | cons run runs ih =>
    refine (runs_writeBit h run.oneWay).bind fun buffer₁ h₁ => ?_
    rw [List.map_cons, List.append_cons]
    exact ih h₁

end BitBuffer

namespace Keys

/-! ## Whole lists -/

theorem runs_encodeRunsInWords {runs : List Run} (hasc : Ascending runs) :
    Runs (encodeRunsInWords (runs.map CountedRun.ofRun)) fun bytes =>
      encodeRuns runs = .ok bytes := by
  have hlt := length_lt_of_ascending hasc
  refine Runs.length (by rwa [List.length_map]) ?_
  rintro ⟨count, hcount⟩
  dsimp only
  rw [List.length_map] at hcount
  rw [hcount]
  refine (BitBuffer.runs_writeFeatureIds (BitBuffer.holds_new _)
    (fun run _ => UInt32.le_iff_toNat_le.mpr (Nat.zero_le _)) hasc).bind fun buffer₁ h₁ => ?_
  refine (BitBuffer.runs_writeSegmentCounts h₁).bind fun buffer₂ h₂ => ?_
  refine (BitBuffer.runs_writeOneWay h₂).bind fun buffer₃ h₃ => Runs.pure ?_
  have hpadded := h₃.isPadded
  rw [List.append_assoc, List.append_assoc, ← List.append_assoc (featureIdBits _ _)] at hpadded
  obtain ⟨body, hbytes, hbody⟩ := hpadded.drop_header
  obtain ⟨body', hencode, hbody'⟩ := exists_encodeRuns runs
  obtain rfl := hbody.unique hbody'
  rw [hencode, hbytes]

theorem featureId_eq_of_mem_splitBy {keys block : List SegmentId} {a b : SegmentId}
    (h : block ∈ keys.splitBy fun a b => a.featureId == b.featureId) (ha : a ∈ block)
    (hb : b ∈ block) : a.featureId = b.featureId := by
  obtain ⟨good, rest, hsplit⟩ := List.append_of_mem h
  cases block with
  | nil => cases ha
  | cons first others =>
    have hblock := isBlock_of_splitBy hsplit
    rw [hblock.eq_of_mem a ha, hblock.eq_of_mem b hb]

/-- The machine goes through the whole list, whatever its keys are, and ends as `encode keys`
does. -/
theorem runs_encodeInWords {keys : List SegmentId} (h : keys.length < 2 ^ 64) :
    Runs (encodeInWords keys) (· = encode keys) := by
  refine (CountedRun.runs_collect 0 [] (List.nil_notMem_splitBy _ _)
    (fun block hblock a ha b hb => featureId_eq_of_mem_splitBy hblock ha hb)
    (by rw [List.flatten_splitBy]; simpa using h)).bind ?_
  rintro _ rfl
  have hruns : runsFrom (0 : Word).toNat [] (keys.splitBy fun a b => a.featureId == b.featureId) =
      runs keys := rfl
  rw [hruns, encode]
  cases hfound : runs keys with
  | error e => exact Runs.pure rfl
  | ok rs =>
    refine (runs_encodeRunsInWords (runs_eq_ok_iff.mp hfound).1).bind fun bytes hbytes => ?_
    dsimp only
    rw [hbytes]
    exact Runs.pure rfl

end Keys

end RoadTraffic
