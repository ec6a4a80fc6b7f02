import Mathlib
import RoadTraffic.Bits.Gamma
import RoadTraffic.Proofs.BitStream

/-!
# Gamma codes as lists of bits

* `Gamma.bits value`: `value.log2` zeros, a one, and the bits of `value` below its highest one.
* `BitWriter.writeGamma_eq_ok`: `writeGamma value` writes `Gamma.bits value`.
* `BitReader.readGamma_eq_ok_iff`: `value` is read exactly if `Gamma.bits value` are ahead. No
  second code of it is accepted.
-/

namespace RoadTraffic

namespace Gamma

/-- The code of `value`: as many zeros as there are bits below its highest one, and its bits from
that one on, the highest one first. -/
def bits (value : Nat) : List Bool :=
  List.replicate value.log2 false ++ true :: Bits.ofNat value.log2 value

@[simp] theorem length_bits (value : Nat) : (bits value).length = length value := by
  simp only [bits, length, List.length_append, List.length_replicate, List.length_cons,
    Bits.length_ofNat]
  omega

theorem log2_lt_wordWidth {value : Nat} (h0 : 0 < value) (h : value < 2 ^ 64) :
    value.log2 < Bits.wordWidth :=
  (Nat.log2_lt (Nat.pos_iff_ne_zero.mp h0)).mpr h

/-- A number with its highest bit at place `zeros` is `2 ^ zeros` and the bits below. -/
theorem log2_eq_iff_exists {value zeros : Nat} :
    0 < value ∧ value.log2 = zeros ↔ ∃ low < 2 ^ zeros, value = 2 ^ zeros + low := by
  constructor
  · rintro ⟨h0, hlog⟩
    obtain ⟨hle, hlt⟩ := (Nat.log2_eq_iff (Nat.pos_iff_ne_zero.mp h0)).mp hlog
    rw [Nat.pow_succ] at hlt
    exact ⟨value - 2 ^ zeros, by omega, by omega⟩
  · rintro ⟨low, hlow, rfl⟩
    have hpos := Nat.two_pow_pos zeros
    refine ⟨by omega, (Nat.log2_eq_iff (by omega)).mpr ⟨by omega, ?_⟩⟩
    rw [Nat.pow_succ]
    omega

theorem ofNat_two_pow_add (zeros low : Nat) :
    Bits.ofNat zeros (2 ^ zeros + low) = Bits.ofNat zeros low := by
  rw [← Bits.ofNat_mod, Nat.add_mod_left, Bits.ofNat_mod]

end Gamma

namespace BitWriter

theorem writeGamma_eq_ok (writer : BitWriter) {value : Nat} (h0 : 0 < value)
    (h : value < 2 ^ 64) : ∃ writer', writer.writeGamma value = .ok writer' ∧
      writer'.bits = writer.bits ++ Gamma.bits value := by
  have hlog := Gamma.log2_lt_wordWidth h0 h
  refine ⟨(writer.append (Bits.ofNat (value.log2 + 1) (1 <<< value.log2))).append
    (Bits.ofNat value.log2 value), ?_, ?_⟩
  · simp only [writeGamma, write_eq_ok (show value.log2 + 1 ≤ Bits.wordWidth from hlog)]
    exact write_eq_ok (Nat.le_of_lt hlog) _ _
  · rw [bits_append, bits_append, Nat.one_shiftLeft, Bits.ofNat_two_pow, Gamma.bits]
    simp

end BitWriter

namespace BitReader

theorem readBit_of_bits {reader : BitReader} {bit : Bool} {more : List Bool}
    (h : reader.bits = bit :: more) :
    ∃ reader', reader.readBit = (.ok bit, reader') ∧ reader'.bits = more := by
  obtain ⟨reader', -, hbits⟩ := next?_of_bits h
  exact ⟨reader', readBit_eq_ok_iff.mpr (by rw [h, hbits]), hbits⟩

theorem readBit_of_bits_nil {reader : BitReader} (h : reader.bits = []) :
    reader.readBit = (.error (.endOfStream 1 0), reader) := by
  have hremaining : reader.remaining = 0 := by rw [← length_bits, h, List.length_nil]
  have htake : reader.take 1 = none := by rw [take, next?_eq_none.mpr h]
  unfold readBit read
  rw [if_pos (by decide), htake, hremaining]

/-- The bits below the highest one are read once the `zeros` are counted. -/
theorem read_low_eq_ok_iff {zeros value : Nat} (hz : zeros ≤ Bits.wordWidth)
    {reader reader' : BitReader} :
    (∃ low, reader.read zeros = (.ok low, reader') ∧ value = 1 <<< zeros + low) ↔
      0 < value ∧ value.log2 = zeros ∧ reader.bits = Bits.ofNat zeros value ++ reader'.bits := by
  rw [← and_assoc, Gamma.log2_eq_iff_exists, Nat.one_shiftLeft]
  constructor
  · rintro ⟨low, hread, rfl⟩
    obtain ⟨-, hlow, hbits⟩ := read_eq_ok_iff.mp hread
    exact ⟨⟨low, hlow, rfl⟩, by rw [Gamma.ofNat_two_pow_add, hbits]⟩
  · rintro ⟨⟨low, hlow, rfl⟩, hbits⟩
    rw [Gamma.ofNat_two_pow_add] at hbits
    exact ⟨low, read_eq_ok_iff.mpr ⟨hz, hlow, hbits⟩, rfl⟩

/-! ## One bit of the zeros in front -/

theorem readGammaFrom_of_bits_nil {reader : BitReader} (h : reader.bits = [])
    (zeros budget : Nat) :
    readGammaFrom zeros (budget + 1) reader = (.error (.endOfStream 1 0), reader) := by
  rw [readGammaFrom, readBit_of_bits_nil h]

theorem readGammaFrom_of_false {reader reader₁ : BitReader}
    (h : reader.readBit = (.ok false, reader₁)) (zeros budget : Nat) :
    readGammaFrom zeros (budget + 1) reader = readGammaFrom (zeros + 1) budget reader₁ := by
  rw [readGammaFrom, h]

theorem readGammaFrom_of_true {reader reader₁ reader' : BitReader} {zeros value : Nat}
    (h : reader.readBit = (.ok true, reader₁)) (budget : Nat) :
    readGammaFrom zeros (budget + 1) reader = (.ok value, reader') ↔
      ∃ low, reader₁.read zeros = (.ok low, reader') ∧ value = 1 <<< zeros + low := by
  rw [readGammaFrom, h]
  simp only
  split
  · next heq => simp [heq]
  · next low reader₂ heq =>
    simp only [heq, Prod.mk.injEq, Except.ok.injEq]
    constructor
    · rintro ⟨rfl, rfl⟩
      exact ⟨low, ⟨rfl, rfl⟩, rfl⟩
    · rintro ⟨_, ⟨rfl, rfl⟩, rfl⟩
      exact ⟨rfl, rfl⟩

/-! ## Whole codes -/

/-- A code of which `zeros` zeros are read: `more` zeros are still ahead, fewer than `budget`. -/
theorem readGammaFrom_eq_ok_iff {zeros budget value : Nat} {reader reader' : BitReader}
    (h : zeros + budget ≤ Bits.wordWidth) :
    readGammaFrom zeros budget reader = (.ok value, reader') ↔
      ∃ more < budget, 0 < value ∧ value.log2 = zeros + more ∧ reader.bits =
        List.replicate more false ++ true :: (Bits.ofNat (zeros + more) value ++ reader'.bits) := by
  induction budget generalizing zeros reader with
  | zero => simp [readGammaFrom]
  | succ budget ih =>
    cases hbits : reader.bits with
    | nil =>
      rw [readGammaFrom_of_bits_nil hbits]
      simp
    | cons bit ahead =>
      -- One bit is taken: a zero is one of those that are `more`, and the one ends them.
      obtain ⟨reader₁, hread, rfl⟩ := readBit_of_bits hbits
      cases bit with
      | false =>
        rw [readGammaFrom_of_false hread, ih (by omega)]
        constructor
        · rintro ⟨more, hlt, h0, hlog, hmore⟩
          refine ⟨more + 1, by omega, h0, by omega, ?_⟩
          rw [hmore, List.replicate_succ, List.cons_append,
            show zeros + (more + 1) = zeros + 1 + more by omega]
        · rintro ⟨more, hlt, h0, hlog, hmore⟩
          cases more with
          | zero => simp at hmore
          | succ more =>
            rw [List.replicate_succ, List.cons_append, List.cons.injEq] at hmore
            refine ⟨more, by omega, h0, by omega, ?_⟩
            rw [hmore.2, show zeros + (more + 1) = zeros + 1 + more by omega]
      | true =>
        rw [readGammaFrom_of_true hread, read_low_eq_ok_iff (by omega)]
        constructor
        · rintro ⟨h0, hlog, hahead⟩
          exact ⟨0, by omega, h0, hlog, by rw [hahead]; rfl⟩
        · rintro ⟨more, -, h0, hlog, hmore⟩
          cases more with
          | zero => exact ⟨h0, hlog, by simpa using hmore⟩
          | succ more => simp [List.replicate_succ] at hmore

/-- The `value` is read exactly if its code is ahead. -/
theorem readGamma_eq_ok_iff {value : Nat} {reader reader' : BitReader} :
    reader.readGamma = (.ok value, reader') ↔
      0 < value ∧ value < 2 ^ 64 ∧ reader.bits = Gamma.bits value ++ reader'.bits := by
  unfold readGamma
  rw [readGammaFrom_eq_ok_iff (by decide)]
  constructor
  · rintro ⟨more, hmore, h0, hlog, hbits⟩
    obtain rfl : value.log2 = more := by omega
    refine ⟨h0, (Nat.log2_lt (by omega)).mp hmore, ?_⟩
    rw [hbits, Gamma.bits, Nat.zero_add, List.append_assoc, List.cons_append]
  · rintro ⟨h0, hlt, hbits⟩
    refine ⟨value.log2, Gamma.log2_lt_wordWidth h0 hlt, h0, by omega, ?_⟩
    rw [hbits, Gamma.bits, Nat.zero_add, List.append_assoc, List.cons_append]

end BitReader

end RoadTraffic
