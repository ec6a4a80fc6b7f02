import Mathlib
import RoadTraffic.Words.Arithmetic

/-!
# Computations that are not stopped

A computation in machine words is gone through operation by operation. Each operation has a
condition under which it is not stopped, and hands on what is known of its result, so that the next
condition is one about numbers.

* `Runs x P`: the computation `x` comes to its end, with a result of which `P` holds.
* `Runs.bind`: one computation after another.
* `Runs.add`/`sub`/`shiftLeft` and so on: when an operation goes on.
* `Word.add?_bind_resize?`/`sub?_bind_resize?`: when a checked result fits in a smaller word.
-/

namespace RoadTraffic

namespace Word

variable {w : Nat}

/-! ## Zero and powers of two -/

theorem eq_zero_iff {a : BitVec w} : a = 0 ↔ a.toNat = 0 := by
  have hzero : (0 : BitVec w).toNat = 0 := (BitVec.toNat_ofNat 0 w).trans (Nat.zero_mod _)
  rw [← BitVec.toNat_inj, hzero]

theorem toNat_one (h : 0 < w) : (1 : BitVec w).toNat = 1 := by
  change (BitVec.ofNat w 1).toNat = 1
  rw [BitVec.toNat_ofNat, Nat.mod_eq_of_lt (Nat.one_lt_two_pow (by omega))]

theorem toNat_one_shiftLeft {places : Nat} (h : places < w) :
    ((1 : BitVec w) <<< places).toNat = 2 ^ places := by
  rw [BitVec.toNat_shiftLeft, toNat_one (by omega), Nat.one_shiftLeft,
    Nat.mod_eq_of_lt (Nat.pow_lt_pow_right (by decide) h)]

/-- No number of bits in a word is too large to be told in 32 bits. -/
theorem toNat_count {count : Nat} (h : count ≤ 64) : (BitVec.ofNat 32 count).toNat = count := by
  rw [BitVec.toNat_ofNat, Nat.mod_eq_of_lt (by omega)]

end Word

/-- The computation `x` is not stopped, and `P` holds of what comes of it. -/
def Runs {α : Type} (x : Checked α) (P : α → Prop) : Prop := ∃ a, x = .ok a ∧ P a

namespace Runs

section Rules

variable {α β : Type} {x : Checked α} {f : α → Checked β} {P Q : α → Prop} {R : β → Prop} {a : α}

theorem ok (h : P a) : Runs (.ok a) P := ⟨a, rfl, h⟩

theorem pure (h : P a) : Runs (Pure.pure a) P := ⟨a, rfl, h⟩

theorem bind (hx : Runs x P) (hf : ∀ a, P a → Runs (f a) R) : Runs (x >>= f) R := by
  obtain ⟨a, rfl, ha⟩ := hx
  exact hf a ha

theorem imp (hx : Runs x P) (h : ∀ a, P a → Q a) : Runs x Q := by
  obtain ⟨a, rfl, ha⟩ := hx
  exact ⟨a, rfl, h a ha⟩

theorem eq_ok (h : Runs x (· = a)) : x = .ok a := by
  obtain ⟨_, rfl, rfl⟩ := h
  rfl

end Rules

/-! ## The operations -/

section Operations

variable {α β : Type} {w v : Nat} {a b : BitVec w} {R : β → Prop}

theorem add {f : _ → Checked β} (h : a.toNat + b.toNat < 2 ^ w) (hf : ∀ c, Runs (f c) R) :
    Runs (Word.add a b >>= f) R := by
  have hfits : ¬ a.uaddOverflow b := by simpa [BitVec.uaddOverflow] using h
  rw [Word.add, dif_neg hfits]
  exact hf _

theorem sub {f : _ → Checked β} (h : b.toNat ≤ a.toNat) (hf : ∀ c, Runs (f c) R) :
    Runs (Word.sub a b >>= f) R := by
  have hfits : ¬ a.usubOverflow b := by simpa [BitVec.usubOverflow] using h
  rw [Word.sub, dif_neg hfits]
  exact hf _

theorem mul {f : _ → Checked β} (h : a.toNat * b.toNat < 2 ^ w) (hf : ∀ c, Runs (f c) R) :
    Runs (Word.mul a b >>= f) R := by
  have hfits : ¬ a.umulOverflow b := by simpa [BitVec.umulOverflow] using h
  rw [Word.mul, dif_neg hfits]
  exact hf _

theorem div {f : _ → Checked β} (h : b ≠ 0) (hf : ∀ c, Runs (f c) R) :
    Runs (Word.div a b >>= f) R := by
  rw [Word.div, if_neg h]
  exact hf _

theorem mod {f : _ → Checked β} (h : b ≠ 0) (hf : ∀ c, Runs (f c) R) :
    Runs (Word.mod a b >>= f) R := by
  rw [Word.mod, if_neg h]
  exact hf _

theorem shiftLeft {places : BitVec v} {f : _ → Checked β} (h : places.toNat < w)
    (hf : Runs (f (a <<< places.toNat)) R) : Runs (Word.shiftLeft a places >>= f) R := by
  rw [Word.shiftLeft, if_pos h]
  exact hf

theorem shiftRight {places : BitVec v} {f : _ → Checked β} (h : places.toNat < w)
    (hf : Runs (f (a >>> places.toNat)) R) : Runs (Word.shiftRight a places >>= f) R := by
  rw [Word.shiftRight, if_pos h]
  exact hf

/-- The mask is `2 ^ bits - 1`, one less than a power of two, which does not wrap. -/
theorem lowMask {bits : BitVec v} {f : BitVec w → Checked β} (h : bits.toNat < w)
    (hf : ∀ mask : BitVec w, mask.toNat = 2 ^ bits.toNat - 1 → Runs (f mask) R) :
    Runs (Word.lowMask w bits >>= f) R := by
  have hone : (1 : BitVec w).toNat = 1 := Word.toNat_one (by omega)
  have htop := Word.toNat_one_shiftLeft h
  refine Runs.bind (P := fun mask => mask.toNat = 2 ^ bits.toNat - 1) ?_ hf
  refine shiftLeft h (sub ?_ fun ⟨mask, hmask⟩ => pure ?_)
  · rw [hone, htop]
    exact Nat.one_le_two_pow
  · rw [hmask, htop, hone]

theorem log2 {f : _ → Checked β} (h : 0 < a.toNat) (hf : Runs (f (.ofNat 32 a.toNat.log2)) R) :
    Runs (Word.log2 a >>= f) R := by
  have hne : a ≠ 0 := fun hzero => h.ne' (Word.eq_zero_iff.mp hzero)
  rw [Word.log2, if_neg hne]
  exact hf

theorem ofNat {n : Nat} {f : _ → Checked β} (h : n < 2 ^ 64) (hf : ∀ c, Runs (f c) R) :
    Runs (Word.ofNat n >>= f) R := by
  rw [Word.ofNat, dif_pos (by rw [BitVec.toNat_ofNat, Nat.mod_eq_of_lt h])]
  exact hf _

theorem length {items : List α} {f : _ → Checked β} (h : items.length < 2 ^ 64)
    (hf : ∀ n, Runs (f n) R) : Runs (Word.length items >>= f) R :=
  ofNat h hf

/-- The number of bits of so many bytes, `items.length * 8`. -/
theorem lengthInBits {items : List α} {f : ∀ length : {n : Word // n.toNat = items.length},
      {c : Word // c.toNat = length.1.toNat * (8 : Word).toNat} → Checked β}
    (h : items.length * 8 < 2 ^ 64)
    (hf : ∀ length bits, bits.1.toNat = items.length * 8 → Runs (f length bits) R) :
    Runs (Word.length items >>= fun n => Word.mul n.1 8 >>= f n) R := by
  refine length (by omega) fun ⟨n, hn⟩ => mul (by rw [hn]; exact h) fun bits => hf _ bits ?_
  rw [bits.2, hn]
  rfl

theorem item {items : List α} {place : Word} {f : _ → Checked β} (h : place.toNat < items.length)
    (hf : Runs (f items[place.toNat]) R) : Runs (Word.item items place >>= f) R := by
  rw [Word.item, List.getElem?_eq_getElem h]
  exact hf

theorem suffix {items : List α} {place : Word} {f : _ → Checked β}
    (h : place.toNat ≤ items.length) (hf : ∀ rest, Runs (f rest) R) :
    Runs (Word.suffix items place >>= f) R := by
  rw [Word.suffix, if_pos h]
  exact hf _

/-- Rounding up to whole bytes goes no higher than an eighth of the largest word, so that `bits + 7`
need not fit. -/
theorem byteCount {bits : Word} {f : Word → Checked β}
    (hf : ∀ bytes : Word, bytes.toNat = (bits.toNat + 7) / 8 → Runs (f bytes) R) :
    Runs (Word.byteCount bits >>= f) R := by
  have hlt := bits.isLt
  refine Runs.bind (P := fun bytes => bytes.toNat = (bits.toNat + 7) / 8) ?_ hf
  refine div (by decide) fun whole => mod (by decide) fun left => ?_
  have hwhole : whole.1.toNat = bits.toNat / 8 := whole.2
  have hleft : left.1.toNat = bits.toNat % 8 := left.2
  by_cases hzero : left.1.toNat = 0
  · rw [if_pos (Word.eq_zero_iff.mpr hzero)]
    exact pure (by omega)
  · have hone : (1 : Word).toNat = 1 := rfl
    rw [if_neg (mt Word.eq_zero_iff.mp hzero)]
    refine add (by omega) fun all => pure ?_
    have hall : all.1.toNat = whole.1.toNat + 1 := all.2
    omega

end Operations

end Runs

namespace Word

variable {w : Nat} {a b : BitVec w}

/-! ## Results that are cut off or left out -/

theorem toNat_addCapped (a b : BitVec w) :
    (addCapped a b).toNat = min (2 ^ w - 1) (a.toNat + b.toNat) := by
  unfold addCapped
  split
  · next h =>
    simp only [BitVec.uaddOverflow, decide_eq_true_eq] at h
    rw [BitVec.toNat_allOnes]
    omega
  · next h =>
    rw [BitVec.toNat_add_of_not_uaddOverflow h]
    simp only [BitVec.uaddOverflow, decide_eq_true_eq] at h
    omega

theorem toNat_mulCapped (a b : BitVec w) :
    (mulCapped a b).toNat = min (2 ^ w - 1) (a.toNat * b.toNat) := by
  unfold mulCapped
  split
  · next h =>
    simp only [BitVec.umulOverflow, decide_eq_true_eq] at h
    rw [BitVec.toNat_allOnes]
    omega
  · next h =>
    rw [BitVec.toNat_mul_of_not_umulOverflow h]
    simp only [BitVec.umulOverflow, decide_eq_true_eq] at h
    omega

/-- A number `n` that is not the largest of all need not be told from it: capping a product makes no
difference to whether it is above `n`. -/
theorem lt_toNat_mulCapped_iff {n : Nat} (h : n < 2 ^ w - 1) :
    n < (mulCapped a b).toNat ↔ n < a.toNat * b.toNat := by
  rw [toNat_mulCapped]
  omega

theorem toNat_subCapped (a b : BitVec w) : (subCapped a b).toNat = a.toNat - b.toNat := by
  unfold subCapped
  split
  · next h =>
    simp only [BitVec.usubOverflow, decide_eq_true_eq] at h
    rw [eq_zero_iff.mp rfl]
    omega
  · next h => exact BitVec.toNat_sub_of_not_usubOverflow h

theorem resize?_eq {v : Nat} (h : v ≤ w) : resize? v a =
    if a.toNat < 2 ^ v then some (BitVec.ofNat v a.toNat) else none := by
  have hsame : a.setWidth v = BitVec.ofNat v a.toNat := BitVec.eq_of_toNat_eq (by simp)
  have hpow : 2 ^ v ≤ 2 ^ w := Nat.pow_le_pow_right (by decide) h
  rw [resize?, hsame, BitVec.toNat_ofNat]
  by_cases hlt : a.toNat < 2 ^ v
  · rw [if_pos (Nat.mod_eq_of_lt hlt), if_pos hlt]
  · have hmod : a.toNat % 2 ^ v < 2 ^ v := Nat.mod_lt _ (Nat.two_pow_pos v)
    rw [if_neg (by omega), if_neg hlt]

/-- A sum that is to fit in a smaller word is not cut off on the way. -/
theorem add?_bind_resize? {v : Nat} (h : v ≤ w) : (add? a b).bind (resize? v) =
    if a.toNat + b.toNat < 2 ^ v then some (BitVec.ofNat v (a.toNat + b.toNat)) else none := by
  have hpow : 2 ^ v ≤ 2 ^ w := Nat.pow_le_pow_right (by decide) h
  unfold add?
  split
  · next hover =>
    simp only [BitVec.uaddOverflow, decide_eq_true_eq] at hover
    rw [Option.bind_none, if_neg (by omega)]
  · next hfits =>
    rw [Option.bind_some, resize?_eq h, BitVec.toNat_add_of_not_uaddOverflow hfits]

/-- The same for a difference `a - b`. -/
theorem sub?_bind_resize? {v : Nat} (h : v ≤ w) : (sub? a b).bind (resize? v) =
    if b.toNat ≤ a.toNat ∧ a.toNat - b.toNat < 2 ^ v then
      some (BitVec.ofNat v (a.toNat - b.toNat))
    else none := by
  unfold sub?
  split
  · next hunder =>
    simp only [BitVec.usubOverflow, decide_eq_true_eq] at hunder
    rw [Option.bind_none, if_neg (by omega)]
  · next hfits =>
    have hle : b.toNat ≤ a.toNat := by
      simpa [BitVec.usubOverflow] using hfits
    rw [Option.bind_some, resize?_eq h, BitVec.toNat_sub_of_not_usubOverflow hfits]
    simp only [hle, true_and]

end Word

end RoadTraffic
