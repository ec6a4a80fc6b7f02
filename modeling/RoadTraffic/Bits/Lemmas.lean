import Mathlib
import RoadTraffic.Bits.Writer

/-!
# Laws of bits

* `Bits.toNat_ofNat`: spelling a number with `w` bits keeps it modulo `2 ^ w`.
* `Bits.ofByte_toByte`: eight bits make a byte with those bits.
* `BitWriter.bits_push`: one bit more at the end of what was written.
* `BitWriter.bits_append`: the same for a list of bits.
-/

namespace RoadTraffic

namespace Bits

/-! ## Numbers -/

theorem toNat_ofNat (width n : Nat) : toNat (ofNat width n) = n % 2 ^ width := by
  induction width generalizing n with
  | zero => simp [ofNat, toNat, Nat.mod_one]
  | succ width ih =>
    have hb : (n % 2 == 1).toNat = n % 2 := by
      rcases Nat.mod_two_eq_zero_or_one n with h | h <;> simp [h]
    rw [ofNat, toNat, ih, hb, Nat.pow_succ, Nat.mul_comm (2 ^ width) 2, Nat.mod_mul]

theorem toNat_lt (bits : List Bool) : toNat bits < 2 ^ bits.length := by
  induction bits with
  | nil => simp [toNat]
  | cons b bits ih =>
    have hb : b.toNat ≤ 1 := by cases b <;> simp
    simp only [toNat, List.length_cons, Nat.pow_succ]
    omega

/-! ## Bytes -/

theorem ofByte_toByte {bits : List Bool} (h : bits.length = 8) : ofByte (toByte bits) = bits := by
  have hlt : toNat bits < 2 ^ 8 := h ▸ toNat_lt bits
  have hbyte : (toByte bits).toNat = toNat bits := by
    rw [toByte, UInt8.toNat_ofNat']
    exact Nat.mod_eq_of_lt hlt
  rw [ofByte, hbyte, ← h]
  exact ofNat_toNat bits

theorem toByte_ofByte (byte : UInt8) : toByte (ofByte byte) = byte := by
  have h : byte.toNat < 2 ^ 8 := byte.toNat_lt
  rw [toByte, ofByte, toNat_ofNat, Nat.mod_eq_of_lt h, UInt8.ofNat_toNat]

end Bits

namespace BitWriter

/-! ## The bits written -/

@[simp] theorem bits_push (writer : BitWriter) (bit : Bool) :
    (writer.push bit).bits = writer.bits ++ [bit] := by
  unfold push
  split
  · next h =>
    have h8 : (writer.pending ++ [bit]).length = 8 := by simp [h]
    simp [bits, Bits.ofByte_toByte h8]
  · simp [bits]

@[simp] theorem bits_append (writer : BitWriter) (more : List Bool) :
    (writer.append more).bits = writer.bits ++ more := by
  induction more generalizing writer with
  | nil => simp [append]
  | cons bit more ih =>
    have := ih (writer.push bit)
    simp only [append, List.foldl_cons] at this ⊢
    rw [this, bits_push, List.append_assoc, List.singleton_append]

end BitWriter

end RoadTraffic
