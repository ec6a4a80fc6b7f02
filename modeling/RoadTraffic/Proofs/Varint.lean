import Mathlib
import RoadTraffic.Varint.Lemmas

/-!
# Spellings of variable-length numbers

A reader accepts several spellings of one number, but what it makes of a spelling does not depend
on what follows, and `Varint.encode` is the one spelling that no other undercuts.

* `Varint.decode_eq_ok_iff`: `decode bytes = .ok (n, rest)` exactly if `bytes = spelling ++ rest`
  for a spelling of `n`.
* `Varint.isShortest_iff`: the shortest spelling of `n` is `encode n`, and no other one is as short.
* `Varint.decodeFrom_eq_ok_iff_spells`: the bytes that are read are those of the notation
  (`Varint.Spells`) that are few enough.
* `Varint.decode_eq_ok_iff_isNumber`: the same for a number that fits in a word.
-/

namespace RoadTraffic

namespace Varint

/-! ## What follows a spelling -/

theorem decodeFrom_eq_ok_iff {budget n : Nat} {bytes rest : Bytes} :
    decodeFrom budget bytes = .ok (n, rest) ↔
      ∃ spelling, bytes = spelling ++ rest ∧ decodeFrom budget spelling = .ok (n, []) := by
  induction budget generalizing n bytes with
  | zero =>
    constructor
    · intro h
      cases bytes <;> cases h
    · rintro ⟨spelling, -, h⟩
      cases spelling <;> cases h
  | succ budget ih =>
    constructor
    · intro h
      cases bytes with
      | nil => cases h
      | cons byte bytes =>
        unfold decodeFrom at h
        split at h
        · next hlast =>
          cases h
          exact ⟨[byte], rfl, if_pos hlast⟩
        · next hmore =>
          split at h
          · next high rest' hhigh =>
            cases h
            obtain ⟨spelling, rfl, hspelling⟩ := ih.mp hhigh
            exact ⟨byte :: spelling, rfl, by rw [decodeFrom, if_neg hmore, hspelling]⟩
          · cases h
    · rintro ⟨spelling, rfl, h⟩
      cases spelling with
      | nil => cases h
      | cons byte spelling =>
        unfold decodeFrom at h
        rw [List.cons_append, decodeFrom]
        split at h
        · next hlast =>
          cases h
          rw [if_pos hlast, List.nil_append]
        · next hmore =>
          rw [if_neg hmore]
          split at h
          · next high rest' hhigh =>
            cases h
            -- The bytes after the first one are a spelling again, which `rest` follows.
            rw [ih.mpr ⟨spelling, rfl, hhigh⟩]
          · cases h

/-- The reader `decode` reads a number if `decodeFrom` reads its groups and it fits in a word. -/
theorem decode_eq_ok_iff_decodeFrom {n : Nat} {bytes rest : Bytes} :
    decode bytes = .ok (n, rest) ↔ decodeFrom maxLength bytes = .ok (n, rest) ∧ n < 2 ^ 64 := by
  have hword : n < 2 ^ 64 ↔ n < 0x10000000000000000 := by norm_num
  rw [hword]
  unfold decode
  cases decodeFrom maxLength bytes with
  | error e => simp
  | ok result =>
    obtain ⟨n', rest'⟩ := result
    simp only [Except.ok.injEq, Prod.mk.injEq]
    constructor
    · intro h
      split at h
      · next hlt =>
        cases h
        exact ⟨⟨rfl, rfl⟩, hlt⟩
      · cases h
    · rintro ⟨⟨rfl, rfl⟩, hlt⟩
      exact if_pos hlt

theorem decode_eq_ok_iff {n : Nat} {bytes rest : Bytes} :
    decode bytes = .ok (n, rest) ↔
      ∃ spelling, bytes = spelling ++ rest ∧ decode spelling = .ok (n, []) := by
  simp only [decode_eq_ok_iff_decodeFrom]
  rw [decodeFrom_eq_ok_iff]
  constructor
  · rintro ⟨⟨spelling, rfl, h⟩, hlt⟩
    exact ⟨spelling, rfl, h, hlt⟩
  · rintro ⟨spelling, rfl, h, hlt⟩
    exact ⟨⟨spelling, rfl, h⟩, hlt⟩

/-- Where `encode n` is ahead, no other number than `n` is read. -/
theorem decodeFrom_encode_append {budget n m : Nat} {rest rest' : Bytes}
    (h : decodeFrom budget (encode n ++ rest) = .ok (m, rest')) : m = n ∧ rest' = rest := by
  induction budget generalizing n m rest' with
  | zero =>
    unfold encode at h
    split at h <;> cases h
  | succ budget ih =>
    unfold encode at h
    split at h
    · next hn =>
      have hbyte : (UInt8.ofNat n).toNat = n := by
        rw [UInt8.toNat_ofNat', Nat.mod_eq_of_lt (by omega)]
      rw [List.singleton_append, decodeFrom, hbyte, if_pos hn] at h
      cases h
      exact ⟨rfl, rfl⟩
    -- The byte has the top bit, so that the reader goes on as the writer did.
    · have hbyte : (UInt8.ofNat (n % 128 + 128)).toNat = n % 128 + 128 := by
        rw [UInt8.toNat_ofNat', Nat.mod_eq_of_lt (by omega)]
      rw [List.cons_append, decodeFrom, hbyte, if_neg (by omega)] at h
      split at h
      · next high rest'' hhigh =>
        obtain ⟨rfl, rfl⟩ := ih hhigh
        cases h
        exact ⟨by omega, rfl⟩
      · cases h

theorem decode_encode_append {n m : Nat} {rest rest' : Bytes}
    (h : decode (encode n ++ rest) = .ok (m, rest')) : m = n ∧ rest' = rest :=
  decodeFrom_encode_append (decode_eq_ok_iff_decodeFrom.mp h).1

/-! ## The shortest spelling -/

theorem length_encode_pos (n : Nat) : 0 < (encode n).length := by
  unfold encode
  split <;> simp

theorem length_encode_le_of_lt {n budget : Nat} (h : n < 128 ^ (budget + 1)) :
    (encode n).length ≤ budget + 1 := by
  induction budget generalizing n with
  | zero =>
    rw [encode, if_pos (by omega)]
    simp
  | succ budget ih =>
    rw [encode]
    split
    · simp
    · have hdiv : n / 128 < 128 ^ (budget + 1) := by
        rw [Nat.div_lt_iff_lt_mul (by decide), ← Nat.pow_succ]
        exact h
      rw [List.length_cons]
      exact Nat.succ_le_succ (ih hdiv)

/-- No spelling is shorter than `encode n`, and one that is no longer is the same. -/
theorem length_encode_le {budget n : Nat} {spelling : Bytes}
    (h : decodeFrom budget spelling = .ok (n, [])) :
    (encode n).length ≤ spelling.length ∧
      (spelling.length ≤ (encode n).length → spelling = encode n) := by
  induction budget generalizing n spelling with
  | zero => cases spelling <;> cases h
  | succ budget ih =>
    cases spelling with
    | nil => cases h
    | cons byte spelling =>
      have hbyte := byte.toNat_lt
      unfold decodeFrom at h
      split at h
      · next hlast =>
        cases h
        rw [encode, if_pos hlast, UInt8.ofNat_toNat]
        exact ⟨by simp, fun _ => rfl⟩
      · next hmore =>
        split at h
        · next high rest' hhigh =>
          cases h
          obtain ⟨hle, heq⟩ := ih hhigh
          have hpos := length_encode_pos high
          rw [encode]
          split
          · -- A byte would do: the spelling has a group more than it needs.
            exact ⟨by simp, fun h => by simp only [List.length_cons, List.length_nil] at h; omega⟩
          -- `encode` writes the same first byte, and the rest is the spelling of `high`.
          · have hlow : (byte.toNat - 128 + 128 * high) % 128 + 128 = byte.toNat := by omega
            have hdiv : (byte.toNat - 128 + 128 * high) / 128 = high := by omega
            rw [hlow, hdiv, UInt8.ofNat_toNat]
            simp only [List.length_cons, Nat.add_le_add_iff_right]
            exact ⟨hle, fun h => by rw [heq h]⟩
        · cases h

/-- The `spelling` spells `n`, and no spelling of `n` is shorter. -/
def IsShortest (spelling : Bytes) (n : Nat) : Prop :=
  decode spelling = .ok (n, []) ∧
    ∀ other, decode other = .ok (n, []) → spelling.length ≤ other.length

theorem decode_encode_nil {n : Nat} (h : n < 2 ^ 64) : decode (encode n) = .ok (n, []) := by
  have := decode_encode h []
  rwa [List.append_nil] at this

theorem isShortest_iff {n : Nat} {spelling : Bytes} (h : n < 2 ^ 64) :
    IsShortest spelling n ↔ spelling = encode n := by
  constructor
  · rintro ⟨hspelling, hle⟩
    exact (length_encode_le (decode_eq_ok_iff_decodeFrom.mp hspelling).1).2
      (hle _ (decode_encode_nil h))
  · rintro rfl
    exact ⟨decode_encode_nil h, fun other hother =>
      (length_encode_le (decode_eq_ok_iff_decodeFrom.mp hother).1).1⟩

/-! ## The notation -/

/-- The bytes that stand for a number: seven bits of it in each, lowest first, and the top bit in
all of them but the last. -/
inductive Spells : Nat → Bytes → Prop where
  /-- A byte without the top bit stands for itself. -/
  | last {byte : UInt8} (hlast : byte.toNat < 128) : Spells byte.toNat [byte]
  /-- A byte with the top bit adds its other bits below those of the number that follows. -/
  | more {byte : UInt8} {high : Nat} {bytes : Bytes} (hmore : 128 ≤ byte.toNat)
      (hhigh : Spells high bytes) : Spells (byte.toNat - 128 + 128 * high) (byte :: bytes)

theorem decodeFrom_of_spells {n : Nat} {bytes : Bytes} (h : Spells n bytes) {budget : Nat}
    (hbudget : bytes.length ≤ budget) : decodeFrom budget bytes = .ok (n, []) := by
  induction h generalizing budget with
  | last hlast =>
    obtain ⟨budget, rfl⟩ := Nat.exists_eq_add_of_le' hbudget
    exact if_pos hlast
  | more hmore _ ih =>
    obtain ⟨budget, rfl⟩ := Nat.exists_eq_add_of_le' (Nat.le_of_add_left_le hbudget)
    rw [decodeFrom, if_neg (Nat.not_lt.mpr hmore), ih (Nat.le_of_succ_le_succ hbudget)]

/-- The `bytes` are read to their end exactly if they spell a number and are no more than
`budget`. -/
theorem decodeFrom_eq_ok_iff_spells {budget n : Nat} {bytes : Bytes} :
    decodeFrom budget bytes = .ok (n, []) ↔ bytes.length ≤ budget ∧ Spells n bytes := by
  refine ⟨fun h => ?_, fun h => decodeFrom_of_spells h.2 h.1⟩
  induction budget generalizing n bytes with
  | zero => cases bytes <;> cases h
  | succ budget ih =>
    cases bytes with
    | nil => cases h
    | cons byte bytes =>
      unfold decodeFrom at h
      split at h
      · next hlast =>
        cases h
        exact ⟨Nat.le_add_left 1 budget, .last hlast⟩
      · next hmore =>
        split at h
        · next high rest hhigh =>
          cases h
          obtain ⟨hle, hspells⟩ := ih hhigh
          exact ⟨Nat.succ_le_succ hle, .more (Nat.not_lt.mp hmore) hspells⟩
        · cases h

theorem spells_encode (n : Nat) : Spells n (encode n) := by
  induction n using Nat.strongRecOn with
  | ind n ih =>
    rw [encode]
    split
    · next hlast =>
      have hbyte : (UInt8.ofNat n).toNat = n := by
        rw [UInt8.toNat_ofNat', Nat.mod_eq_of_lt (by omega)]
      have hspells : Spells _ [UInt8.ofNat n] := .last (by omega)
      rwa [hbyte] at hspells
    · next hmore =>
      have hbyte : (UInt8.ofNat (n % 128 + 128)).toNat = n % 128 + 128 := by
        rw [UInt8.toNat_ofNat', Nat.mod_eq_of_lt (by omega)]
      have hspells : Spells _ (UInt8.ofNat (n % 128 + 128) :: encode (n / 128)) :=
        .more (by omega) (ih (n / 128) (by omega))
      rwa [hbyte, Nat.add_sub_cancel, Nat.mod_add_div] at hspells

/-- The `bytes` are the notation of a number that fits in a word, and no more than `maxLength`. -/
structure IsNumber (n : Nat) (bytes : Bytes) : Prop where
  spells : Spells n bytes
  length_le : bytes.length ≤ maxLength
  lt : n < 2 ^ 64

theorem isNumber_iff_decode {n : Nat} {bytes : Bytes} :
    IsNumber n bytes ↔ decode bytes = .ok (n, []) := by
  rw [decode_eq_ok_iff_decodeFrom, decodeFrom_eq_ok_iff_spells]
  exact ⟨fun h => ⟨⟨h.length_le, h.spells⟩, h.lt⟩, fun h => ⟨h.1.2, h.1.1, h.2⟩⟩

/-- A number is read exactly if its notation is ahead, with any `rest` behind. -/
theorem decode_eq_ok_iff_isNumber {n : Nat} {bytes rest : Bytes} :
    decode bytes = .ok (n, rest) ↔ ∃ count, bytes = count ++ rest ∧ IsNumber n count := by
  simp only [isNumber_iff_decode]
  exact decode_eq_ok_iff

theorem Spells.length_encode_le {n : Nat} {bytes : Bytes} (h : Spells n bytes) :
    (encode n).length ≤ bytes.length :=
  (Varint.length_encode_le (decodeFrom_of_spells h (Nat.le_refl _))).1

end Varint

end RoadTraffic
