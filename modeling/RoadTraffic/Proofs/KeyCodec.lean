import Mathlib
import RoadTraffic.Keys.Codec
import RoadTraffic.Proofs.CanonicalList
import RoadTraffic.Proofs.Gamma
import RoadTraffic.Proofs.Varint

/-!
# Packing and unpacking key lists

Both directions are told in terms of the bits of a list of runs: the writer produces them after the
header, and the reader accepts them and nothing else.

* `Keys.bits runs`: the gamma codes of the steps from road to road (`featureIdBits`) and of the
  segment counts (`segmentCountBits`), and a bit for each run.
* `Keys.readRuns_eq_ok_iff`: runs are read exactly if their bits are ahead, filled up with zeros.
* `Keys.decodeRuns_eq_ok_iff`: the same for a whole packed list.
* `Keys.exists_encodeRuns`: `encodeRuns runs` writes a header and `bits runs`.
-/

namespace RoadTraffic

namespace Keys

/-! ## The bits of runs -/

/-- The steps from road to road, in gamma codes: of `featureId - previous + 1`, as zero has none. -/
def featureIdBits (previous : Nat) : List UInt32 → List Bool
  | [] => []
  | featureId :: featureIds =>
    Gamma.bits (featureId.toNat - previous + 1) ++ featureIdBits featureId.toNat featureIds

/-- The segment counts of runs, in gamma codes: of `lastIndex + 2`, one more than there are
segments. -/
def segmentCountBits (lastIndexes : List UInt16) : List Bool :=
  lastIndexes.flatMap fun lastIndex => Gamma.bits (lastIndex.toNat + 2)

/-- Everything that is written of `runs` after the header. -/
def bits (runs : List Run) : List Bool :=
  featureIdBits 0 (runs.map (·.featureId)) ++ segmentCountBits (runs.map (·.lastIndex)) ++
    runs.map (·.oneWay)

theorem length_le_featureIdBits (previous : Nat) (featureIds : List UInt32) :
    featureIds.length ≤ (featureIdBits previous featureIds).length := by
  induction featureIds generalizing previous with
  | nil => exact Nat.le_refl _
  | cons featureId featureIds ih =>
    have := ih featureId.toNat
    simp only [featureIdBits, List.length_cons, List.length_append, Gamma.length_bits,
      Gamma.length]
    omega

theorem length_le_segmentCountBits (lastIndexes : List UInt16) :
    lastIndexes.length ≤ (segmentCountBits lastIndexes).length := by
  induction lastIndexes with
  | nil => exact Nat.le_refl _
  | cons lastIndex lastIndexes ih =>
    simp only [segmentCountBits, List.flatMap_cons, List.length_cons, List.length_append,
      Gamma.length_bits, Gamma.length] at ih ⊢
    omega

/-- No run takes up less than its share: a bit for each gamma code and one for the direction. -/
theorem length_mul_le_bits (runs : List Run) :
    runs.length * minBitsPerRun ≤ (bits runs).length := by
  have hids := length_le_featureIdBits 0 (runs.map (·.featureId))
  have hcounts := length_le_segmentCountBits (runs.map (·.lastIndex))
  simp only [List.length_map] at hids hcounts
  simp only [bits, minBitsPerRun, List.length_append, List.length_map]
  omega

/-! ## Writing -/

theorem exists_writeFeatureIds (writer : BitWriter) (previous : Nat) (runs : List Run) :
    ∃ writer', writeFeatureIds writer previous runs = .ok writer' ∧
      writer'.bits = writer.bits ++ featureIdBits previous (runs.map (·.featureId)) := by
  induction runs generalizing writer previous with
  | nil => exact ⟨writer, rfl, by simp [featureIdBits]⟩
  | cons run runs ih =>
    have hid := run.featureId.toNat_lt
    have hstep : run.featureId.toNat - previous + 1 < 2 ^ 64 := by omega
    obtain ⟨writer₁, hwrite, hbits₁⟩ := writer.writeGamma_eq_ok (Nat.succ_pos _) hstep
    obtain ⟨writer', hrest, hbits'⟩ := ih writer₁ run.featureId.toNat
    refine ⟨writer', by rw [writeFeatureIds, hwrite]; exact hrest, ?_⟩
    rw [hbits', hbits₁, List.map_cons, featureIdBits, List.append_assoc]

theorem exists_writeSegmentCounts (writer : BitWriter) (runs : List Run) :
    ∃ writer', writeSegmentCounts writer runs = .ok writer' ∧
      writer'.bits = writer.bits ++ segmentCountBits (runs.map (·.lastIndex)) := by
  induction runs generalizing writer with
  | nil => exact ⟨writer, rfl, by simp [segmentCountBits]⟩
  | cons run runs ih =>
    have hlast := run.lastIndex.toNat_lt
    have hcount : run.segmentCount + 1 < 2 ^ 64 := by unfold Run.segmentCount; omega
    obtain ⟨writer₁, hwrite, hbits₁⟩ := writer.writeGamma_eq_ok (Nat.succ_pos _) hcount
    obtain ⟨writer', hrest, hbits'⟩ := ih writer₁
    refine ⟨writer', by rw [writeSegmentCounts, hwrite]; exact hrest, ?_⟩
    rw [hbits', hbits₁, List.map_cons, segmentCountBits, segmentCountBits, List.flatMap_cons,
      List.append_assoc]
    rfl

/-- Packing by `encodeRuns` never fails: it writes a header, and `bits runs` filled up with
zeros. -/
theorem exists_encodeRuns (runs : List Run) : ∃ body, encodeRuns runs =
    .ok (UInt8.ofNat version :: Varint.encode runs.length ++ body) ∧
      Bits.IsPadded (bits runs) body := by
  obtain ⟨writer₁, hids, hbits₁⟩ := exists_writeFeatureIds
    (.new (UInt8.ofNat version :: Varint.encode runs.length)) 0 runs
  obtain ⟨writer₂, hcounts, hbits₂⟩ := exists_writeSegmentCounts writer₁ runs
  have hpadded := (writeOneWay writer₂ runs).isPadded_toBytes
  rw [writeOneWay, BitWriter.bits_append, hbits₂, hbits₁, BitWriter.bits_new, List.append_assoc,
    List.append_assoc, ← List.append_assoc (featureIdBits _ _)] at hpadded
  obtain ⟨body, hbytes, hbody⟩ := hpadded.drop_header
  refine ⟨body, ?_, hbody⟩
  simp only [encodeRuns, hids, hcounts]
  rw [writeOneWay, hbytes]

/-! ## Reading -/

/-- A road is read if its code is ahead and it is above `previous`, the one before it. -/
theorem readFeatureIds_succ_eq_ok_iff {previous : Option UInt32} {done : List UInt32}
    {count : Nat} {reader : BitReader} {result : List UInt32 × BitReader} :
    readFeatureIds previous done (count + 1) reader = .ok result ↔
      ∃ featureId reader₁, (∀ last ∈ previous, last < featureId) ∧
        reader.bits = Gamma.bits (featureId.toNat - (previous.getD 0).toNat + 1) ++
          reader₁.bits ∧
        readFeatureIds (some featureId) (featureId :: done) count reader₁ = .ok result := by
  have hprevious := (previous.getD 0).toNat_lt
  constructor
  · intro h
    unfold readFeatureIds at h
    split at h
    · cases h
    · next code reader₁ hread =>
      obtain ⟨h0, -, hbits⟩ := BitReader.readGamma_eq_ok_iff.mp hread
      simp only at h
      split at h
      · cases h
      · next hfits =>
        split at h
        · cases h
        · next hstep =>
          -- The road fits in 32 bits, as was checked, so that nothing wraps around.
          have hid : (UInt32.ofNat ((previous.getD 0).toNat + (code - 1))).toNat =
              (previous.getD 0).toNat + (code - 1) := by
            rw [UInt32.toNat_ofNat']
            exact Nat.mod_eq_of_lt (by omega)
          refine ⟨_, reader₁, fun last hlast => ?_, ?_, h⟩
          · rw [Option.mem_def.mp hlast] at hid hstep ⊢
            rw [UInt32.lt_iff_toNat_lt, hid]
            simp at hstep ⊢
            omega
          · rw [hid, hbits]
            congr 2
            omega
  · rintro ⟨featureId, reader₁, habove, hbits, h⟩
    have hid := featureId.toNat_lt
    -- The step is no less than zero, so that taking it from `previous` leads to `featureId`.
    have hle : (previous.getD 0).toNat ≤ featureId.toNat := by
      cases previous with
      | none => exact Nat.zero_le _
      | some last => exact Nat.le_of_lt (UInt32.lt_iff_toNat_lt.mp (habove last rfl))
    have hread := BitReader.readGamma_eq_ok_iff.mpr
      ⟨by omega, by omega, hbits⟩
    unfold readFeatureIds
    rw [hread]
    simp only [Nat.add_sub_cancel, Nat.add_sub_cancel' hle, UInt32.ofNat_toNat]
    rw [if_neg (by omega), if_neg ?_, h]
    cases previous with
    | none => simp
    | some last =>
      have hlt := UInt32.lt_iff_toNat_lt.mp (habove last rfl)
      simp only [Option.getD_some] at hlt ⊢
      simp
      omega

theorem readFeatureIds_eq_ok_iff {previous : Option UInt32} {done featureIds : List UInt32}
    {count : Nat} {reader reader' : BitReader} :
    readFeatureIds previous done count reader = .ok (featureIds, reader') ↔
      ∃ new, featureIds = done.reverse ++ new ∧ new.length = count ∧
        (previous.toList ++ new).IsChain (· < ·) ∧
        reader.bits = featureIdBits (previous.getD 0).toNat new ++ reader'.bits := by
  induction count generalizing previous done reader with
  | zero =>
    simp only [readFeatureIds, Except.ok.injEq, Prod.mk.injEq, List.length_eq_zero_iff]
    constructor
    · rintro ⟨rfl, rfl⟩
      exact ⟨[], by simp, rfl, by cases previous <;> simp, by simp [featureIdBits]⟩
    · rintro ⟨new, rfl, rfl, -, hbits⟩
      exact ⟨by simp, BitReader.ext_bits (by simpa [featureIdBits] using hbits)⟩
  | succ count ih =>
    rw [readFeatureIds_succ_eq_ok_iff]
    constructor
    · rintro ⟨featureId, reader₁, habove, hbits, h⟩
      obtain ⟨new, rfl, rfl, hasc, hrest⟩ := ih.mp h
      refine ⟨featureId :: new, by simp, rfl, ?_, ?_⟩
      · exact isChain_toList_append_cons.mpr ⟨habove, hasc⟩
      · rw [hbits, hrest, featureIdBits, List.append_assoc]
        rfl
    · rintro ⟨new, rfl, hlen, hasc, hbits⟩
      cases new with
      | nil => cases hlen
      | cons featureId new =>
        rw [featureIdBits, List.append_assoc] at hbits
        obtain ⟨habove, hasc⟩ := isChain_toList_append_cons.mp hasc
        -- The reader after the first road is the one with the other bits ahead.
        obtain ⟨reader₁, -, hrest⟩ := BitReader.take_of_bits hbits
        exact ⟨featureId, reader₁, habove, by rw [hbits, hrest],
          ih.mpr ⟨new, by simp, by simpa using hlen, hasc, hrest⟩⟩

/-- A segment count is read if its code is ahead; every `lastIndex` has one. -/
theorem readLastIndexes_cons_eq_ok_iff {done : List (UInt32 × UInt16)} {featureId : UInt32}
    {featureIds : List UInt32} {reader : BitReader}
    {result : List (UInt32 × UInt16) × BitReader} :
    readLastIndexes done (featureId :: featureIds) reader = .ok result ↔
      ∃ lastIndex reader₁, reader.bits = Gamma.bits (lastIndex.toNat + 2) ++ reader₁.bits ∧
        readLastIndexes ((featureId, lastIndex) :: done) featureIds reader₁ = .ok result := by
  constructor
  · intro h
    unfold readLastIndexes at h
    split at h
    · cases h
    · next code reader₁ hread =>
      obtain ⟨h0, -, hbits⟩ := BitReader.readGamma_eq_ok_iff.mp hread
      simp only at h
      split at h
      · cases h
      · next hcount =>
        refine ⟨_, reader₁, ?_, h⟩
        rw [hbits, UInt16.toNat_ofNat', Nat.mod_eq_of_lt (by omega)]
        congr 2
        omega
  · rintro ⟨lastIndex, reader₁, hbits, h⟩
    have hlast := lastIndex.toNat_lt
    have hread := BitReader.readGamma_eq_ok_iff.mpr ⟨by omega, by omega, hbits⟩
    unfold readLastIndexes
    rw [hread]
    simp only
    rw [if_neg (by omega), show lastIndex.toNat + 2 - 1 - 1 = lastIndex.toNat by omega,
      UInt16.ofNat_toNat, h]

theorem readLastIndexes_eq_ok_iff {done result : List (UInt32 × UInt16)}
    {featureIds : List UInt32} {reader reader' : BitReader} :
    readLastIndexes done featureIds reader = .ok (result, reader') ↔
      ∃ new, result = done.reverse ++ new ∧ new.map (·.1) = featureIds ∧
        reader.bits = segmentCountBits (new.map (·.2)) ++ reader'.bits := by
  induction featureIds generalizing done reader with
  | nil =>
    simp only [readLastIndexes, Except.ok.injEq, Prod.mk.injEq, List.map_eq_nil_iff]
    constructor
    · rintro ⟨rfl, rfl⟩
      exact ⟨[], by simp, rfl, by simp [segmentCountBits]⟩
    · rintro ⟨new, rfl, rfl, hbits⟩
      exact ⟨by simp, BitReader.ext_bits (by simpa [segmentCountBits] using hbits)⟩
  | cons featureId featureIds ih =>
    rw [readLastIndexes_cons_eq_ok_iff]
    constructor
    · rintro ⟨lastIndex, reader₁, hbits, h⟩
      obtain ⟨new, rfl, rfl, hrest⟩ := ih.mp h
      refine ⟨(featureId, lastIndex) :: new, by simp, rfl, ?_⟩
      rw [hbits, hrest, ← List.append_assoc]
      rfl
    · rintro ⟨new, rfl, hids, hbits⟩
      cases new with
      | nil => cases hids
      | cons head new =>
        obtain ⟨featureId', lastIndex⟩ := head
        obtain ⟨rfl, htail⟩ := List.cons.inj hids
        rw [List.map_cons, segmentCountBits, List.flatMap_cons, List.append_assoc] at hbits
        obtain ⟨reader₁, -, hrest⟩ := BitReader.take_of_bits hbits
        exact ⟨lastIndex, reader₁, by rw [hbits, hrest], ih.mpr ⟨new, by simp, htail, hrest⟩⟩

theorem readOneWay_eq_ok_iff {done result : List Run} {lastIndexes : List (UInt32 × UInt16)}
    {reader reader' : BitReader} :
    readOneWay done lastIndexes reader = .ok (result, reader') ↔
      ∃ new, result = done.reverse ++ new ∧
        new.map (fun run => (run.featureId, run.lastIndex)) = lastIndexes ∧
        reader.bits = new.map (·.oneWay) ++ reader'.bits := by
  induction lastIndexes generalizing done reader with
  | nil =>
    simp only [readOneWay, Except.ok.injEq, Prod.mk.injEq, List.map_eq_nil_iff]
    constructor
    · rintro ⟨rfl, rfl⟩
      exact ⟨[], by simp, rfl, by simp⟩
    · rintro ⟨new, rfl, rfl, hbits⟩
      exact ⟨by simp, BitReader.ext_bits (by simpa using hbits)⟩
  | cons lastIndex lastIndexes ih =>
    constructor
    · intro h
      unfold readOneWay at h
      split at h
      · cases h
      · next oneWay reader₁ hread =>
        have hbits := BitReader.readBit_eq_ok_iff.mp hread
        obtain ⟨new, rfl, rfl, hrest⟩ := ih.mp h
        exact ⟨⟨lastIndex.1, lastIndex.2, oneWay⟩ :: new, by simp, rfl, by rw [hbits, hrest]; rfl⟩
    · rintro ⟨new, rfl, hruns, hbits⟩
      cases new with
      | nil => cases hruns
      | cons run new =>
        obtain ⟨rfl, htail⟩ := List.cons.inj hruns
        obtain ⟨reader₁, hread, hrest⟩ := BitReader.readBit_of_bits hbits
        unfold readOneWay
        rw [hread]
        exact ih.mpr ⟨new, by simp, htail, hrest⟩

/-- Once `bits runs` are ahead, all that can go wrong with `runs` is what follows them:
`reader'.finish`. -/
theorem readRuns_of_bits {reader reader' : BitReader} {runs : List Run} (hruns : Ascending runs)
    (hbits : reader.bits = bits runs ++ reader'.bits) :
    readRuns runs.length reader =
      match reader'.finish with
      | .error e => .error (.bitStream e)
      | .ok () => .ok runs := by
  have hasc : (runs.map (·.featureId)).IsChain (· < ·) := (List.isChain_map _).mpr hruns
  rw [bits, List.append_assoc, List.append_assoc] at hbits
  obtain ⟨reader₁, -, hbits₁⟩ := BitReader.take_of_bits hbits
  obtain ⟨reader₂, -, hbits₂⟩ := BitReader.take_of_bits hbits₁
  -- Roads, segment counts and directions come one after the other, each with its own reader.
  have hids : readFeatureIds none [] runs.length reader =
      .ok (runs.map (·.featureId), reader₁) :=
    readFeatureIds_eq_ok_iff.mpr ⟨runs.map (·.featureId), rfl, by simp, by simpa using hasc,
      by rw [hbits, hbits₁]; rfl⟩
  have hlasts : readLastIndexes [] (runs.map (·.featureId)) reader₁ =
      .ok (runs.map fun run => (run.featureId, run.lastIndex), reader₂) :=
    readLastIndexes_eq_ok_iff.mpr ⟨runs.map fun run => (run.featureId, run.lastIndex), rfl,
      by simp, by rw [hbits₁, hbits₂, List.map_map]; rfl⟩
  have honeWay : readOneWay [] (runs.map fun run => (run.featureId, run.lastIndex)) reader₂ =
      .ok (runs, reader') :=
    readOneWay_eq_ok_iff.mpr ⟨runs, rfl, rfl, hbits₂⟩
  match hfinish : reader'.finish with
  | .error e => simp only [readRuns, hids, hlasts, honeWay, hfinish, bind, Except.bind]
  | .ok () => simp only [readRuns, hids, hlasts, honeWay, hfinish, bind, Except.bind]

/-- The `runs` are read exactly if `bits runs` are ahead, filled up with zeros. -/
theorem readRuns_eq_ok_iff {count : Nat} {reader : BitReader} {runs : List Run} :
    readRuns count reader = .ok runs ↔ runs.length = count ∧ Ascending runs ∧
      ∃ padding < 8, reader.bits = bits runs ++ List.replicate padding false := by
  constructor
  · intro h
    have hasc : Ascending runs ↔ (runs.map (·.featureId)).IsChain (· < ·) :=
      (List.isChain_map _).symm
    unfold readRuns at h
    simp only [bind_eq_ok_iff, Prod.exists, readFeatureIds_eq_ok_iff, readLastIndexes_eq_ok_iff,
      readOneWay_eq_ok_iff] at h
    obtain ⟨_, reader₁, ⟨_, rfl, hlen, hids, hbits₁⟩, _, reader₂, ⟨_, rfl, rfl, hbits₂⟩,
      _, reader₃, ⟨_, rfl, rfl, hbits₃⟩, hfinish⟩ := h
    split at hfinish
    · cases hfinish
    · next hend =>
      cases hfinish
      obtain ⟨padding, hlt, hpadding⟩ := BitReader.finish_eq_ok_iff.mp hend
      simp only [List.map_map, List.length_map] at hlen hids
      simp only [List.map_map] at hbits₁ hbits₂
      refine ⟨hlen, hasc.mpr hids, padding, hlt, ?_⟩
      rw [hbits₁, hbits₂, hbits₃, hpadding]
      simp only [bits, List.append_assoc]
      rfl
  · rintro ⟨rfl, hruns, padding, hlt, hbits⟩
    obtain ⟨reader', -, hpadding⟩ := BitReader.take_of_bits hbits
    have hahead : reader.bits = bits runs ++ reader'.bits := by rw [hbits, hpadding]
    rw [readRuns_of_bits hruns hahead, BitReader.finish_eq_ok_iff.mpr ⟨padding, hlt, hpadding⟩]

/-- The runs that a header announces are read if `body`, what follows it, has room for them. -/
theorem decodeRuns_of_spelling {spelling body : Bytes} {runs : List Run}
    (hspelling : Varint.decode spelling = .ok (runs.length, []))
    (hroom : (bits runs).length ≤ body.length * 8) :
    decodeRuns (UInt8.ofNat version :: (spelling ++ body)) = readRuns runs.length (.new body) := by
  have hcount : Varint.decode (spelling ++ body) = .ok (runs.length, body) :=
    Varint.decode_eq_ok_iff.mpr ⟨spelling, rfl, hspelling⟩
  have hplausible : ¬ runs.length * minBitsPerRun > body.length * 8 :=
    Nat.not_lt.mpr ((length_mul_le_bits runs).trans hroom)
  simp only [decodeRuns, hcount]
  rw [if_neg (by decide), if_neg hplausible]

theorem length_bits_le_of_isPadded {runs : List Run} {body : Bytes}
    (h : Bits.IsPadded (bits runs) body) : (bits runs).length ≤ body.length * 8 := by
  obtain ⟨padding, -, hbody⟩ := h
  have := congrArg List.length hbody
  rw [Bits.length_ofBytes, List.length_append] at this
  omega

/-- A packed list is unpacked exactly if it consists of a `version` byte, a `spelling` of the number
of runs, and `bits runs` filled up with zeros. -/
theorem decodeRuns_eq_ok_iff {bytes : Bytes} {runs : List Run} :
    decodeRuns bytes = .ok runs ↔ Ascending runs ∧ ∃ spelling body,
      bytes = UInt8.ofNat version :: (spelling ++ body) ∧
        Varint.decode spelling = .ok (runs.length, []) ∧ Bits.IsPadded (bits runs) body := by
  constructor
  · intro h
    unfold decodeRuns at h
    split at h
    · cases h
    · next found bytes =>
      split at h
      · cases h
      · next hversion =>
        split at h
        · cases h
        · next count body hcount =>
          simp only at h
          split at h
          · cases h
          · obtain ⟨rfl, hasc, hpadded⟩ := readRuns_eq_ok_iff.mp h
            obtain ⟨spelling, rfl, hspelling⟩ := Varint.decode_eq_ok_iff.mp hcount
            refine ⟨hasc, spelling, body, ?_, hspelling, hpadded⟩
            rw [← not_not.mp hversion, UInt8.ofNat_toNat]
  · rintro ⟨hasc, spelling, body, rfl, hspelling, hpadded⟩
    rw [decodeRuns_of_spelling hspelling (length_bits_le_of_isPadded hpadded)]
    exact readRuns_eq_ok_iff.mpr ⟨rfl, hasc, hpadded⟩

end Keys

end RoadTraffic
