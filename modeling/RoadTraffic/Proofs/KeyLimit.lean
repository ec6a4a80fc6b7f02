import Mathlib
import RoadTraffic.Proofs.KeyRoundTrip

/-!
# What the limit on keys decides

Bytes are read to their end before a key is counted, and counted before a key is made. So the limit
decides nothing but which lists are let through.

* `Keys.isMalformed_of_decodeRuns`: what is said of bytes that hold no runs; `.tooManyKeys` is not
  among it.
* `Keys.exists_decodeRuns_of_tooManyKeys`: a list that is refused for its length has runs.
* `Keys.limit_only_filters`: `decodeWithLimit bytes limit` tells `decodeWithLimit bytes other` for
  every `other` limit.
-/

namespace RoadTraffic

namespace Keys

/-! ## Bytes that hold no runs -/

/-- What can be wrong with bytes before the keys in them are counted: anything but
`.tooManyKeys`. -/
inductive IsMalformed : KeysError → Prop where
  | empty : IsMalformed .empty
  | unsupportedVersion (found : Nat) : IsMalformed (.unsupportedVersion found)
  | runCount (cause : VarintError) : IsMalformed (.runCount cause)
  | implausibleRunCount (runs bits : Nat) : IsMalformed (.implausibleRunCount runs bits)
  | bitStream (cause : BitError) : IsMalformed (.bitStream cause)
  | featureIdOverflow : IsMalformed .featureIdOverflow
  | repeatedFeature (featureId : UInt32) : IsMalformed (.repeatedFeature featureId)
  | invalidSegmentCount (featureId : UInt32) (count : Nat) :
      IsMalformed (.invalidSegmentCount featureId count)

variable {e : KeysError} {bytes : Bytes} {reader : BitReader} {limit other : Nat}

theorem isMalformed_of_readFeatureIds {previous : Option UInt32} {done : List UInt32} {count : Nat}
    (h : readFeatureIds previous done count reader = .error e) : IsMalformed e := by
  induction count generalizing previous done reader with
  | zero => cases h
  | succ count ih =>
    unfold readFeatureIds at h
    split at h
    · cases h
      exact .bitStream _
    · dsimp only at h
      split at h
      · cases h
        exact .featureIdOverflow
      · split at h
        · cases h
          exact .repeatedFeature _
        · exact ih h

theorem isMalformed_of_readLastIndexes {done : List (UInt32 × UInt16)} {featureIds : List UInt32}
    (h : readLastIndexes done featureIds reader = .error e) : IsMalformed e := by
  induction featureIds generalizing done reader with
  | nil => cases h
  | cons featureId featureIds ih =>
    unfold readLastIndexes at h
    split at h
    · cases h
      exact .bitStream _
    · dsimp only at h
      split at h
      · cases h
        exact .invalidSegmentCount _ _
      · exact ih h

theorem isMalformed_of_readOneWay {done : List Run} {lastIndexes : List (UInt32 × UInt16)}
    (h : readOneWay done lastIndexes reader = .error e) : IsMalformed e := by
  induction lastIndexes generalizing done reader with
  | nil => cases h
  | cons lastIndex lastIndexes ih =>
    unfold readOneWay at h
    split at h
    · cases h
      exact .bitStream _
    · exact ih h

theorem isMalformed_of_readRuns {count : Nat} (h : readRuns count reader = .error e) :
    IsMalformed e := by
  obtain h | ⟨ids, -, h⟩ := bind_eq_error_iff.mp h
  · exact isMalformed_of_readFeatureIds h
  obtain h | ⟨lasts, -, h⟩ := bind_eq_error_iff.mp h
  · exact isMalformed_of_readLastIndexes h
  obtain h | ⟨runs, -, h⟩ := bind_eq_error_iff.mp h
  · exact isMalformed_of_readOneWay h
  dsimp only at h
  split at h
  · cases h
    exact .bitStream _
  · cases h

/-- Bytes that hold no runs are malformed, whatever number of keys they would have held. -/
theorem isMalformed_of_decodeRuns (h : decodeRuns bytes = .error e) : IsMalformed e := by
  unfold decodeRuns at h
  split at h
  · cases h
    exact .empty
  · split at h
    · cases h
      exact .unsupportedVersion _
    · split at h
      · cases h
        exact .runCount _
      · dsimp only at h
        split at h
        · cases h
          exact .implausibleRunCount _ _
        · exact isMalformed_of_readRuns h

/-! ## Lists under one limit and another -/

theorem decodeWithLimit_of_decodeRuns_error (h : decodeRuns bytes = .error e) (limit : Nat) :
    decodeWithLimit bytes limit = .error e := by
  rw [decodeWithLimit, h]

/-- A list that is refused for its length is sound: it has runs, and `count` is the number of their
keys. -/
theorem exists_decodeRuns_of_tooManyKeys {count max : Nat}
    (h : decodeWithLimit bytes limit = .error (.tooManyKeys count max)) :
    ∃ rs, decodeRuns bytes = .ok rs ∧ count = (rs.flatMap Run.keys).length ∧ max = limit ∧
      limit < count := by
  cases hruns : decodeRuns bytes with
  | error e =>
    rw [decodeWithLimit_of_decodeRuns_error hruns] at h
    cases h
    cases isMalformed_of_decodeRuns hruns
  | ok rs =>
    rw [decodeWithLimit_of_decodeRuns hruns] at h
    split at h
    · cases h
    · next hlong =>
      cases h
      exact ⟨rs, rfl, rfl, rfl, Nat.not_le.mp hlong⟩

/-- **The limit only filters.** If `decodeWithLimit bytes limit = .ok keys`, every `other` limit
gives `.ok keys` too, unless it is less than `keys.length`. Bytes that are refused for anything else
than their length are refused for that under every limit. And the `count` in
`.tooManyKeys count max` is the length of the list itself, whatever the limit: `countKeys` never
comes near `Bits.maxWord`, at which it would stop. -/
theorem limit_only_filters (bytes : Bytes) (limit : Nat) :
    (∀ keys, decodeWithLimit bytes limit = .ok keys → ∀ other, decodeWithLimit bytes other =
      if keys.length ≤ other then .ok keys else .error (.tooManyKeys keys.length other)) ∧
    (∀ e, decodeWithLimit bytes limit = .error e → (∀ count max, e ≠ .tooManyKeys count max) →
      ∀ other, decodeWithLimit bytes other = .error e) ∧
    (∀ count max, decodeWithLimit bytes limit = .error (.tooManyKeys count max) →
      (∀ other ≤ limit, decodeWithLimit bytes other = .error (.tooManyKeys count other)) ∧
      ∃ rs, decodeRuns bytes = .ok rs ∧ count = (rs.flatMap Run.keys).length) ∧
    ∀ rs, decodeRuns bytes = .ok rs →
      countKeys rs = (rs.flatMap Run.keys).length ∧ countKeys rs < Bits.maxWord := by
  refine ⟨fun keys h other => ?_, fun e h hother => ?_, fun count max h => ?_, fun rs hruns => ?_⟩
  · obtain ⟨rs, hruns, rfl⟩ := exists_decodeRuns_of_decodeWithLimit h
    exact decodeWithLimit_of_decodeRuns hruns other
  -- Without runs the limit is never looked at; with runs the only error is their number.
  · cases hruns : decodeRuns bytes with
    | error e' =>
      rw [decodeWithLimit_of_decodeRuns_error hruns] at h
      exact fun other => h ▸ decodeWithLimit_of_decodeRuns_error hruns other
    | ok rs =>
      rw [decodeWithLimit_of_decodeRuns hruns] at h
      split at h
      · cases h
      · cases h
        exact absurd rfl (hother _ _)
  · obtain ⟨rs, hruns, rfl, -, hlong⟩ := exists_decodeRuns_of_tooManyKeys h
    refine ⟨fun other hother => ?_, rs, hruns, rfl⟩
    rw [decodeWithLimit_of_decodeRuns hruns, if_neg (by omega)]
  · have hasc := (decodeRuns_eq_ok_iff.mp hruns).1
    rw [countKeys_eq_length hasc]
    exact ⟨rfl, length_flatMap_keys_lt hasc⟩

/-- Three keys under four limits, and with a byte too many. -/
theorem limit_only_filters_three_keys :
    let keys : List SegmentId := [⟨5, 0, .forward⟩, ⟨5, 1, .forward⟩, ⟨5, 2, .forward⟩]
    let bytes : Bytes := [0, 1, 0x94, 4]
    decodeWithLimit bytes 9 = .ok keys ∧ decodeWithLimit bytes 3 = .ok keys ∧
      decodeWithLimit bytes 2 = .error (.tooManyKeys 3 2) ∧
      decodeWithLimit bytes 0 = .error (.tooManyKeys 3 0) ∧
      ∀ other, decodeWithLimit (bytes ++ [0]) other = .error (.bitStream (.trailingBytes 1)) := by
  intro keys bytes
  have hnine : decodeWithLimit bytes 9 = .ok keys := rfl
  have hfilter := (limit_only_filters bytes 9).1 keys hnine
  have htwo : decodeWithLimit bytes 2 = .error (.tooManyKeys 3 2) := hfilter 2
  have hmore : decodeWithLimit (bytes ++ [0]) 9 = .error (.bitStream (.trailingBytes 1)) := rfl
  exact ⟨hnine, hfilter 3, htwo,
    ((limit_only_filters bytes 2).2.2.1 3 2 htwo).1 0 (by decide),
    (limit_only_filters (bytes ++ [0]) 9).2.1 _ hmore (by simp)⟩

end Keys

end RoadTraffic
