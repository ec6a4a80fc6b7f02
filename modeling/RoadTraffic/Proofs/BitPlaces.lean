import Mathlib
import RoadTraffic.Proofs.BitStream

/-!
# Bits by their places

A list of bits spells a number or a string of bytes. Here is which bit of the number, and which bit
of which byte, stands at a place of the list.

* `Bits.bitAt bytes place`: bit `place % 8` of byte `place / 8`, and `false` after the end.
* `Bits.ofNat_eq_map_testBit`/`testBit_toNat`: the bits of a number are its `Nat.testBit`s.
* `Bits.getD_ofBytes`: `(ofBytes bytes).getD place false = bitAt bytes place`.
* `Bits.IsPadded.bitAt_eq`: bits that are filled up are found at their places, with zeros after
  them.
-/

namespace RoadTraffic

namespace Bits

/-- Bit `place` of `bytes`, lowest bit of each byte first: `place / 8` is the byte and `place % 8`
the bit in it. There are zeros after the end. -/
def bitAt (bytes : Bytes) (place : Nat) : Bool :=
  (bytes.getD (place / 8) 0).toNat.testBit (place % 8)

/-! ## Numbers -/

theorem mod_two_beq_one (n : Nat) : (n % 2 == 1) = n.testBit 0 := by
  rw [Nat.testBit_zero, Bool.eq_iff_iff, beq_iff_eq, decide_eq_true_iff]

theorem ofNat_eq_map_testBit (width n : Nat) :
    ofNat width n = (List.range width).map n.testBit := by
  induction width generalizing n with
  | zero => rfl
  | succ width ih =>
    rw [ofNat, ih, List.range_succ_eq_map, List.map_cons, List.map_map, mod_two_beq_one]
    congr 1
    apply List.map_congr_left
    intro place _
    exact (Nat.testBit_succ n place).symm

theorem testBit_toNat (bits : List Bool) (place : Nat) :
    (toNat bits).testBit place = bits.getD place false := by
  induction bits generalizing place with
  | nil => simp [toNat]
  | cons bit bits ih =>
    have hbit : bit.toNat < 2 := bit.toNat_lt
    cases place with
    | zero =>
      rw [toNat, ← mod_two_beq_one, Nat.add_mul_mod_self_left]
      cases bit <;> rfl
    | succ place =>
      have hhalf : (bit.toNat + 2 * toNat bits) / 2 = toNat bits := by omega
      rw [toNat, Nat.testBit_succ, hhalf, ih]
      rfl

/-! ## Bytes -/

theorem getD_ofByte (byte : UInt8) (place : Nat) :
    (ofByte byte).getD place false = byte.toNat.testBit place := by
  rw [← testBit_toNat, ofByte, toNat_ofNat, Nat.mod_eq_of_lt byte.toNat_lt]

/-- What stands at `place` of the bits `ofBytes bytes` stands there in `bytes`. -/
theorem getD_ofBytes (bytes : Bytes) (place : Nat) :
    (ofBytes bytes).getD place false = bitAt bytes place := by
  induction bytes generalizing place with
  | nil => simp [bitAt]
  | cons byte bytes ih =>
    have hlength := length_ofByte byte
    rw [ofBytes_cons]
    by_cases h : place < 8
    · rw [List.getD_append _ _ _ _ (by omega), getD_ofByte, bitAt, Nat.div_eq_of_lt h,
        Nat.mod_eq_of_lt h]
      rfl
    · obtain ⟨rest, rfl⟩ := Nat.exists_eq_add_of_le (Nat.not_lt.mp h)
      have hdiv : (8 + rest) / 8 = rest / 8 + 1 := by omega
      have hmod : (8 + rest) % 8 = rest % 8 := by omega
      rw [List.getD_append_right _ _ _ _ (by omega), hlength, Nat.add_sub_cancel_left, ih, bitAt,
        bitAt, hdiv, hmod]
      rfl

/-- Bits that are filled up (`IsPadded bits bytes`) are found at their places, with zeros after
them. -/
theorem IsPadded.bitAt_eq {bits : List Bool} {bytes : Bytes} (h : IsPadded bits bytes)
    (place : Nat) : bitAt bytes place = bits.getD place false := by
  obtain ⟨padding, -, hbits⟩ := h
  rw [← getD_ofBytes, hbits]
  by_cases hplace : place < bits.length
  · exact List.getD_append _ _ _ _ hplace
  · rw [List.getD_append_right _ _ _ _ (by omega), List.getD_eq_default bits _ (by omega)]
    simp [List.getD]

end Bits

end RoadTraffic
