import Mathlib
import RoadTraffic.Varint

/-!
# Laws of variable-length numbers

* `Varint.decode_encode`: the shortest spelling reads back, whatever follows it.
-/

namespace RoadTraffic

namespace Varint

private theorem toNat_ofNat_of_lt {n : Nat} (h : n < 256) : (UInt8.ofNat n).toNat = n := by
  rw [UInt8.toNat_ofNat']
  exact Nat.mod_eq_of_lt h

theorem decodeFrom_encode (budget n : Nat) (rest : Bytes) (h : n < 128 ^ (budget + 1)) :
    decodeFrom (budget + 1) (encode n ++ rest) = .ok (n, rest) := by
  induction budget generalizing n with
  | zero =>
    have hn : n < 128 := by omega
    rw [encode, if_pos hn]
    simp [decodeFrom, toNat_ofNat_of_lt (Nat.lt_trans hn (by decide)), hn]
  | succ budget ih =>
    rw [encode]
    split
    · next hn => simp [decodeFrom, toNat_ofNat_of_lt (Nat.lt_trans hn (by decide)), hn]
    · next hn =>
      have hdiv : n / 128 < 128 ^ (budget + 1) := by
        rw [Nat.div_lt_iff_lt_mul (by decide), ← Nat.pow_succ]
        exact h
      have hbyte : (UInt8.ofNat (n % 128 + 128)).toNat = n % 128 + 128 :=
        toNat_ofNat_of_lt (by omega)
      rw [List.cons_append, decodeFrom, hbyte, if_neg (by omega), ih _ hdiv]
      simp only [Except.ok.injEq, Prod.mk.injEq, and_true]
      omega

theorem decode_encode {n : Nat} (h : n < 2 ^ 64) (rest : Bytes) :
    decode (encode n ++ rest) = .ok (n, rest) := by
  have hbudget : n < 128 ^ (9 + 1) := Nat.lt_trans h (by norm_num)
  have hword : n < 0x10000000000000000 := lt_of_lt_of_eq h (by norm_num)
  rw [decode, maxLength, decodeFrom_encode 9 n rest hbudget]
  exact if_pos hword

end Varint

end RoadTraffic
