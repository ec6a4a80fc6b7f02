import Mathlib
import RoadTraffic.Proofs.KeyRoundTrip
import RoadTraffic.Proofs.Words.Reader
import RoadTraffic.Words.Keys

/-!
# Unpacking key lists in machine words

No byte string makes the machine stop while it unpacks a key list, as long as the number of its bits
fits in a word. A gamma code stands for no less than one, so that one can be taken off; the roads
are added up in words twice as wide as their own; and the keys of a run are few.

* `BitCursor.Follows`: two readings come to the same, and leave the same bits ahead.
* `BitCursor.runs_readFeatureIds` and so on: one list after the other.
* `Keys.runs_decodeInWords`: the machine goes through, and comes to `decodeWithLimit`.
-/

namespace RoadTraffic

namespace BitCursor

variable {cursor : BitCursor} {reader : BitReader}

/-- What two readings bring is the same, and the same bits are ahead after them. -/
inductive Follows {ε α : Type} : Except ε (α × BitCursor) → Except ε (α × BitReader) → Prop where
  | error (e : ε) : Follows (.error e) (.error e)
  | ok (a : α) {cursor : BitCursor} {reader : BitReader} (h : cursor.Views reader) :
    Follows (.ok (a, cursor)) (.ok (a, reader))

/-! ## Runs, column by column -/

theorem runs_readFeatureIds {previous : Option UInt32} {done : List UInt32} {count : Nat}
    (h : cursor.Views reader) :
    Runs (readFeatureIds previous done count cursor)
      (Follows · (Keys.readFeatureIds previous done count reader)) := by
  induction count generalizing previous done cursor reader with
  | zero => exact Runs.pure (.ok _ h)
  | succ count ih =>
    unfold readFeatureIds Keys.readFeatureIds
    refine runs_bind_of_agree (runs_readGamma h) ?_ ?_ <;>
      intro found cursor' reader' hread hviews <;> rw [hread]
    · exact Runs.pure (.error _)
    · obtain ⟨hpos, -, -⟩ := BitReader.readGamma_eq_ok_iff.mp hread
      refine Runs.sub hpos ?_
      rintro ⟨step, hstep⟩
      dsimp only
      have hone : (1 : Word).toNat = 1 := rfl
      have hlast : (BitVec.setWidth 64 (previous.getD 0).toBitVec).toNat =
          (previous.getD 0).toNat := BitVec.toNat_setWidth_of_le (by decide)
      rw [hone] at hstep
      rw [Word.add?_bind_resize? (by decide), hlast, hstep]
      -- The road is refused if it does not fit in 32 bits, on both sides.
      by_cases hfits : (previous.getD 0).toNat + (found.toNat - 1) < 2 ^ 32
      · have hzero : (step == 0) = (found.toNat - 1 == 0) := by
          rw [Bool.eq_iff_iff, beq_iff_eq, beq_iff_eq, Word.eq_zero_iff, hstep]
        rw [if_pos hfits, if_neg (show ¬ _ ≥ 0x100000000 from Nat.not_le.mpr hfits)]
        dsimp only
        rw [hzero]
        split
        · exact Runs.pure (.error _)
        · exact ih hviews
      · rw [if_neg hfits, if_pos (show _ ≥ 0x100000000 from Nat.not_lt.mp hfits)]
        exact Runs.pure (.error _)

theorem runs_readLastIndexes {done : List (UInt32 × UInt16)} {featureIds : List UInt32}
    (h : cursor.Views reader) :
    Runs (readLastIndexes done featureIds cursor)
      (Follows · (Keys.readLastIndexes done featureIds reader)) := by
  induction featureIds generalizing done cursor reader with
  | nil => exact Runs.pure (.ok _ h)
  | cons featureId featureIds ih =>
    unfold readLastIndexes Keys.readLastIndexes
    refine runs_bind_of_agree (runs_readGamma h) ?_ ?_ <;>
      intro found cursor' reader' hread hviews <;> rw [hread]
    · exact Runs.pure (.error _)
    · obtain ⟨hpos, -, -⟩ := BitReader.readGamma_eq_ok_iff.mp hread
      refine Runs.sub hpos ?_
      rintro ⟨count, hcount⟩
      dsimp only
      have hone : (1 : Word).toNat = 1 := rfl
      rw [hone] at hcount
      rw [Word.sub?_bind_resize? (by decide), hone, hcount]
      by_cases hfits : found.toNat - 1 = 0 ∨ found.toNat - 1 > 0x10000
      · rw [if_neg (by omega), if_pos hfits]
        exact Runs.pure (.error _)
      · rw [if_pos (by omega), if_neg hfits]
        exact ih hviews

theorem runs_readOneWay {done : List Run} {lastIndexes : List (UInt32 × UInt16)}
    (h : cursor.Views reader) :
    Runs (readOneWay done lastIndexes cursor)
      (Follows · (Keys.readOneWay done lastIndexes reader)) := by
  induction lastIndexes generalizing done cursor reader with
  | nil => exact Runs.pure (.ok _ h)
  | cons lastIndex lastIndexes ih =>
    unfold readOneWay Keys.readOneWay
    refine runs_bind_of_agree (runs_readBit h) ?_ ?_ <;>
      intro found cursor' reader' hread hviews <;> rw [hread]
    · exact Runs.pure (.error _)
    · exact ih hviews

/-- What is done after a reading that may fail: the same on both sides, if nothing is done after a
failure. -/
theorem runs_bind_of_follows {ε α β : Type} {x : Checked (Except ε (α × BitCursor))}
    {result' : Except ε (α × BitReader)} {f : Except ε (α × BitCursor) → Checked (Except ε β)}
    {f' : α × BitReader → Except ε β} (hx : Runs x (Follows · result'))
    (herror : ∀ e, f (.error e) = .ok (.error e))
    (hok : ∀ a cursor' reader', cursor'.Views reader' →
      Runs (f (.ok (a, cursor'))) (· = f' (a, reader'))) :
    Runs (x >>= f) (· = result' >>= f') := by
  refine hx.bind fun result hresult => ?_
  cases hresult with
  | error e => exact ⟨_, herror e, rfl⟩
  | ok a hviews => exact hok a _ _ hviews

theorem runs_readRuns {count : Nat} (h : cursor.Views reader) :
    Runs (readRuns count cursor) (· = Keys.readRuns count reader) := by
  refine runs_bind_of_follows (runs_readFeatureIds h) (fun _ => rfl) ?_
  intro featureIds cursor₁ reader₁ h₁
  refine runs_bind_of_follows (runs_readLastIndexes h₁) (fun _ => rfl) ?_
  intro lastIndexes cursor₂ reader₂ h₂
  refine runs_bind_of_follows (runs_readOneWay h₂) (fun _ => rfl) ?_
  intro runs cursor₃ reader₃ h₃
  refine (runs_finish h₃).bind ?_
  rintro _ rfl
  dsimp only
  cases reader₃.finish with
  | error e => exact Runs.pure rfl
  | ok => exact Runs.pure rfl

end BitCursor

namespace Keys

/-! ## Counting -/

theorem toNat_directionCount (oneWay : Bool) :
    (directionCount oneWay).toNat = (Run.directionsOf oneWay).length := by cases oneWay <;> rfl

theorem runs_sizeInWords (run : Run) :
    Runs (sizeInWords run) fun keys => keys.toNat = run.size := by
  have hlt := run.lastIndex.toNat_lt
  have hone : (1 : Word).toNat = 1 := rfl
  have hlast : (BitVec.setWidth 64 run.lastIndex.toBitVec).toNat = run.lastIndex.toNat :=
    BitVec.toNat_setWidth_of_le (by decide)
  refine Runs.add (by omega) ?_
  rintro ⟨points, hpoints⟩
  have hsize : points.toNat * (directionCount run.oneWay).toNat = run.size := by
    rw [hpoints, hlast, hone, toNat_directionCount]
    rfl
  have hle := run.size_le
  refine Runs.mul (by dsimp only; omega) ?_
  rintro ⟨keys, hkeys⟩
  exact Runs.pure (hkeys.trans hsize)

theorem runs_countFrom (sum : Word) (runs : List Run) :
    Runs (countFrom sum runs) fun count =>
      count.toNat = runs.foldl (fun sum run => min Bits.maxWord (sum + run.size)) sum.toNat := by
  induction runs generalizing sum with
  | nil => exact Runs.pure rfl
  | cons run runs ih =>
    refine (runs_sizeInWords run).bind fun keys hkeys => ?_
    have hsum : (Word.addCapped sum keys).toNat = min Bits.maxWord (sum.toNat + run.size) := by
      rw [Word.toNat_addCapped, hkeys]
      rfl
    rw [List.foldl_cons, ← hsum]
    exact ih _

/-! ## Whole lists -/

theorem runs_decodeRunsInWords {bytes : Bytes} (h : bytes.length * 8 < 2 ^ 64) :
    Runs (decodeRunsInWords bytes) (· = decodeRuns bytes) := by
  cases bytes with
  | nil => exact Runs.pure rfl
  | cons found body =>
    rw [decodeRunsInWords, decodeRuns]
    by_cases hversion : found.toNat ≠ version
    · rw [if_pos hversion, if_pos hversion]
      exact Runs.pure rfl
    · rw [if_neg hversion, if_neg hversion]
      cases hcount : Varint.decode body with
      | error e => exact Runs.pure rfl
      | ok result =>
        obtain ⟨runs, rest⟩ := result
        obtain ⟨spelling, rfl, -⟩ := Varint.decode_eq_ok_iff.mp hcount
        have hlt := (Varint.decode_eq_ok_iff_decodeFrom.mp hcount).2
        rw [List.length_cons, List.length_append] at h
        refine Runs.ofNat hlt ?_
        rintro ⟨count, rfl⟩
        refine Runs.lengthInBits (by omega) ?_
        rintro length ⟨bits, _⟩ hbits
        dsimp only at hbits ⊢
        -- A capped product is compared with fewer bits than the largest word.
        have hmany : rest.length * 8 < (Word.mulCapped count 3).toNat ↔
            count.toNat * minBitsPerRun > rest.length * 8 := Word.lt_toNat_mulCapped_iff (by omega)
        simp only [hbits, hmany]
        split
        · exact Runs.pure rfl
        · exact BitCursor.runs_readRuns (BitCursor.views_new (by omega))

/-- The machine goes through the whole list, whatever its `bytes` are, and ends as `decodeWithLimit`
does. -/
theorem runs_decodeInWords {bytes : Bytes} (limit : Word) (h : bytes.length * 8 < 2 ^ 64) :
    Runs (decodeInWords bytes limit) (· = decodeWithLimit bytes limit.toNat) := by
  refine (runs_decodeRunsInWords h).bind ?_
  rintro _ rfl
  unfold decodeWithLimit
  cases decodeRuns bytes with
  | error e => exact Runs.pure rfl
  | ok runs =>
    refine (runs_countFrom 0 runs).bind fun count hcount => ?_
    have hsame : count.toNat = countKeys runs := hcount
    dsimp only
    rw [hsame]
    split <;> exact Runs.pure rfl

end Keys

end RoadTraffic
