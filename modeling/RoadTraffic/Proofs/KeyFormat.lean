import Mathlib
import RoadTraffic.Proofs.KeyAcceptance

/-!
# The bytes of a packed key list

What a list is packed to is told from its roads alone, without a word about the writer, so that
anyone who knows the notation can make the bytes and read them.

* `Keys.gammaValues rs`: the numbers of which the gamma codes are written.
* `Keys.bits_eq`: `bits rs = (gammaValues rs).flatMap Gamma.bits ++ rs.map (·.oneWay)`.
* `Keys.encode_format`: the bytes of a canonical list, and how many there are.
-/

namespace RoadTraffic

namespace Keys

/-! ## The numbers of a run -/

/-- How far each road is above the one before it, and one more (`road - last + 1`); the first one
counts from `previous`. -/
def roadSteps (previous : Nat) (roads : List Nat) : List Nat :=
  List.zipWith (fun last road => road - last + 1) (previous :: roads) roads

/-- The numbers of which the gamma codes are written: the steps from road to road, and how many
segments each road has, all of them one more so that none is zero. -/
def gammaValues (rs : List Run) : List Nat :=
  roadSteps 0 (rs.map (·.featureId.toNat)) ++ rs.map (·.segmentCount + 1)

theorem featureIdBits_eq (previous : Nat) (featureIds : List UInt32) :
    featureIdBits previous featureIds =
      (roadSteps previous (featureIds.map (·.toNat))).flatMap Gamma.bits := by
  induction featureIds generalizing previous with
  | nil => rfl
  | cons featureId featureIds ih =>
    rw [featureIdBits, ih, List.map_cons, roadSteps, roadSteps, List.zipWith_cons_cons,
      List.flatMap_cons]

theorem segmentCountBits_eq (rs : List Run) :
    segmentCountBits (rs.map (·.lastIndex)) =
      (rs.map (·.segmentCount + 1)).flatMap Gamma.bits := by
  rw [segmentCountBits, List.flatMap_map, List.flatMap_map]
  rfl

theorem bits_eq (rs : List Run) :
    bits rs = (gammaValues rs).flatMap Gamma.bits ++ rs.map (·.oneWay) := by
  rw [bits, featureIdBits_eq, segmentCountBits_eq, gammaValues, List.flatMap_append, List.map_map]
  rfl

theorem length_bits (rs : List Run) :
    (bits rs).length = ((gammaValues rs).map Gamma.length).sum + rs.length := by
  rw [bits_eq, List.length_append, List.length_map, List.length_flatMap]
  simp only [Gamma.length_bits]

/-! ## The whole list -/

/-- **The format.** A canonical list, taken apart into the runs `rs` of its roads, is packed as a
zero, the shortest spelling of `rs.length`, and from the next byte on the gamma codes of
`gammaValues rs` (the steps from road to road and the segment counts) and the one-way bits, lowest
bit of a byte first. Nothing but the last byte is filled up, so that the numbers tell how many bytes
there are. -/
theorem encode_format {keys : List SegmentId} (h : IsCanonical keys) :
    ∃ (rs : List Run) (count body : Bytes), Ascending rs ∧
      keys.splitBy (fun a b => a.featureId == b.featureId) = rs.map Run.keys ∧
      encode keys = .ok (0 :: (count ++ body)) ∧
      Varint.Spells rs.length count ∧
      (∀ other, Varint.Spells rs.length other → count.length ≤ other.length) ∧
      Bits.IsPadded ((gammaValues rs).flatMap Gamma.bits ++ rs.map (·.oneWay)) body ∧
      (0 :: (count ++ body)).length =
        1 + count.length + (((gammaValues rs).map Gamma.length).sum + rs.length + 7) / 8 := by
  obtain ⟨bytes, hbytes⟩ := exists_encode_iff.mpr h
  obtain ⟨rs, body, hasc, hkeys, rfl, hbody⟩ := encode_eq_ok_iff.mp hbytes
  refine ⟨rs, Varint.encode rs.length, body, hasc, ?_, hbytes, Varint.spells_encode _,
    fun _ hother => hother.length_encode_le, bits_eq rs ▸ hbody, ?_⟩
  · rw [hkeys, splitBy_flatMap_keys hasc]
  · rw [List.length_cons, List.length_append, hbody.length_eq, length_bits]
    omega

/-- Road 5 with three segments one way, and road 9 with one segment both ways: the gamma codes of 6,
5, 4 and 2, and two bits. -/
theorem encode_format_two_roads :
    let keys := [⟨5, 2, true⟩, ⟨9, 0, false⟩].flatMap Run.keys
    IsCanonical keys ∧ encode keys = .ok [0, 2, 0x94, 0x11, 0x05] ∧ ∃ rs count body,
      encode keys = .ok (0 :: (count ++ body)) ∧ Varint.Spells rs.length count ∧
        Bits.IsPadded ((gammaValues rs).flatMap Gamma.bits ++ rs.map (·.oneWay)) body := by
  intro keys
  have hcanonical : IsCanonical keys := isCanonical_flatMap_keys (by simp [Ascending])
  obtain ⟨rs, count, body, -, -, hbytes, hcount, -, hbody, -⟩ := encode_format hcanonical
  exact ⟨hcanonical, by decide +kernel, rs, count, body, hbytes, hcount, hbody⟩

end Keys

end RoadTraffic
