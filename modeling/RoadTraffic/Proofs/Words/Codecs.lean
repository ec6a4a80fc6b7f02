import Mathlib
import RoadTraffic.Proofs.ValueCodec
import RoadTraffic.Proofs.Words.KeyPacking
import RoadTraffic.Proofs.Words.ValueReading
import RoadTraffic.Proofs.Zlib.Pieces

/-!
# The codecs in machine words

* `Values.bits_lt_of_inflate`: up to which limit a word can tell the bits of what is inflated.
* `codecs_not_stopped`: `Keys.decodeInWords`, `Values.decodeInWords` and `Keys.encodeInWords` are
  never stopped, and agree with what they do in numbers.
-/

namespace RoadTraffic

namespace Zlib

namespace Decompressor

variable {decompressor : Decompressor} {bytes found : Bytes} {limit : Nat}

/-! ## What is inflated -/

theorem length_le_of_run {state : decompressor.State} {taken stop spare : Nat} {output : Bytes}
    (h : decompressor.run bytes limit state taken output spare = .ok (stop, found)) :
    found.length ≤ limit := by
  fun_induction run with
  | case1 | case2 | case4 => cases h
  | case3 _ _ _ _ _ _ _ _ hfits =>
    cases h
    exact Nat.not_lt.mp hfits
  | case5 _ _ _ _ _ _ _ _ _ _ _ ih => exact ih h

theorem length_le_of_inflate (h : decompressor.inflate bytes limit = .ok found) :
    found.length ≤ limit := by
  unfold inflate at h
  split at h
  · cases h
  · next hrun =>
    split at h
    · cases h
    · cases h
      exact length_le_of_run hrun

end Decompressor

end Zlib

/-- Under a `limit` up to `2 ^ 62` there cannot be more bits than a word can tell. -/
theorem Values.bits_lt_of_inflate {decompressor : Zlib.Decompressor} {bytes packed : Bytes}
    {limit : Nat} (h : decompressor.inflate bytes (maxPackedLength limit) = .ok packed)
    (hlimit : limit ≤ 2 ^ 62) : packed.length * 8 < 2 ^ 64 := by
  have hlength := Zlib.Decompressor.length_le_of_inflate h
  have hwidth : SpeedGroup.width = 3 := rfl
  have hword : maxWord = 2 ^ 64 - 1 := rfl
  dsimp only [maxPackedLength] at hlength
  rw [hwidth] at hlength
  omega

/-- **The machine is never stopped.** Keys are unpacked from every string of bytes and under every
limit (`Keys.decodeInWords`), and so are values, whatever the decompressor (`Values.decodeInWords`);
and every list of keys is packed or refused (`Keys.encodeInWords`). No sum, product or difference
goes beyond its word, no shift is as wide as the word, nothing is looked up that is not there, and
no field is wider than a word. All that is asked is that a word can tell the number of bits: those
of the bytes, and those of what they are inflated to. -/
theorem codecs_not_stopped :
    (∀ (bytes : Bytes) (limit : Word), bytes.length * 8 < 2 ^ 64 →
      Keys.decodeInWords bytes limit = .ok (Keys.decodeWithLimit bytes limit.toNat)) ∧
    (∀ (decompressor : Zlib.Decompressor) (bytes : Bytes) (limit : Word),
      let inflated := decompressor.inflate bytes (Values.maxPackedLength limit.toNat)
      bytes.length * 8 < 2 ^ 64 → (∀ packed, inflated = .ok packed → packed.length * 8 < 2 ^ 64) →
      Values.decodeInWords decompressor bytes limit =
        .ok (Values.decodeInflated inflated limit.toNat) ∧
      (inflated = Zlib.inflate bytes (Values.maxPackedLength limit.toNat) →
        Values.decodeInWords decompressor bytes limit =
          .ok (Values.decodeWithLimit bytes limit.toNat))) ∧
    ∀ keys : List SegmentId, keys.length < 2 ^ 64 →
      Keys.encodeInWords keys = .ok (Keys.encode keys) := by
  refine ⟨fun bytes limit hbytes => (Keys.runs_decodeInWords limit hbytes).eq_ok, ?_,
    fun keys hkeys => (Keys.runs_encodeInWords hkeys).eq_ok⟩
  intro decompressor bytes limit inflated hbytes hpacked
  have hrun := (Values.runs_decodeInWords hbytes hpacked).eq_ok
  refine ⟨hrun, fun hsame => ?_⟩
  rw [hrun, show decompressor.inflate bytes _ = _ from hsame]
  rfl

/-- A step between roads of `2 ^ 64 - 2`; a value in a stored block; and the lowest and the highest
road in one list, under a limit that it meets and one that it does not. -/
theorem codecs_not_stopped_extremes :
    let farthest : Bytes := 0 :: 1 :: List.replicate 7 0 ++ 0x80 :: List.replicate 7 0xFF ++ [0x7F]
    let stored : Bytes := [0x78, 0x01, 0x01, 3, 0, 0xFC, 0xFF, 0, 1, 4, 0, 9, 0, 6]
    let decompressor := Zlib.Decompressor.eager Zlib.content
    let keys := [⟨0, 0, true⟩, ⟨0xFFFFFFFF, 0, false⟩].flatMap Run.keys
    let bytes : Bytes := [0, 2, 1, 0, 0, 0, 2, 0, 0, 0, 0x48, 1]
    Keys.decodeInWords farthest 5 = .ok (.error .featureIdOverflow) ∧
    Values.decodeInWords decompressor stored 1 = .ok (.ok [.g4]) ∧
    Keys.encodeInWords keys = .ok (.ok bytes) ∧
    Keys.decodeInWords bytes 3 = .ok (.ok keys) ∧
    Keys.decodeInWords bytes 0 = .ok (.error (.tooManyKeys 3 0)) := by
  intro farthest stored decompressor keys bytes
  obtain ⟨hkeys, hvalues, hpack⟩ := codecs_not_stopped
  have hencode : Keys.encode ([⟨0, 0, true⟩, ⟨0xFFFFFFFF, 0, false⟩].flatMap Run.keys) =
      .ok [0, 2, 1, 0, 0, 0, 2, 0, 0, 0, 0x48, 1] := by decide +kernel
  have hinflate : decompressor.inflate stored (Values.maxPackedLength (1 : Word).toNat) =
      .ok [0, 1, 4] := by
    rw [Zlib.Decompressor.inflate_eq_inflate
      (Zlib.Decompressor.streams_eager Zlib.leftToRight_content stored)
      (.inr (Zlib.Decompressor.prompt_eager stored)) (by decide)]
    decide +kernel
  have hvalue := (hvalues decompressor stored 1 (by decide)
    fun packed hpacked => Values.bits_lt_of_inflate hpacked (by decide)).1
  refine ⟨?_, ?_, ?_, ?_, ?_⟩
  · rw [hkeys farthest 5 (by decide)]
    rfl
  · rw [hvalue, hinflate]
    rfl
  · rw [hpack keys (by decide), hencode]
  · rw [hkeys bytes 3 (by decide)]
    rfl
  · rw [hkeys bytes 0 (by decide)]
    rfl

end RoadTraffic
