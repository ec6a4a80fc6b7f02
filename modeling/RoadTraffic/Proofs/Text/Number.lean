import Mathlib
import RoadTraffic.Text.Blank
import RoadTraffic.Text.Number

/-!
# Texts that denote whole numbers

A whole number is a sign or none and decimal digits, as many as one likes, with white space around
it or none.

* `Blank.isBlank_iff`: `isBlank` tells the characters of `Blank.whiteSpace`.
* `Blank.exists_eq_append_trim`/`trim_append`: what `trim` takes off at the ends, and what it
  leaves.
* `Number.Spells text n`/`Denotes text n`: a text is a number, or one between white space.
* `Number.parse?_trim_eq_some_iff`: `parse? (Blank.trim text) = some n` exactly if
  `Denotes text n`.
-/

namespace RoadTraffic

namespace Blank

/-- The characters with the property `White_Space`, by their numbers. -/
def whiteSpace : List Nat :=
  [0x9, 0xA, 0xB, 0xC, 0xD, 0x20, 0x85, 0xA0, 0x1680, 0x2000, 0x2001, 0x2002, 0x2003, 0x2004,
    0x2005, 0x2006, 0x2007, 0x2008, 0x2009, 0x200A, 0x2028, 0x2029, 0x202F, 0x205F, 0x3000]

theorem isBlank_iff {c : Char} : isBlank c = true ↔ c.toNat ∈ whiteSpace := by
  have hspace : c = ' ' ↔ c.toNat = 0x20 := Char.toNat_inj.symm
  simp only [isBlank, ranges, whiteSpace, Bool.or_eq_true, beq_iff_eq, Bool.and_eq_true,
    decide_eq_true_eq, List.any_cons, List.any_nil, Bool.false_eq_true, List.mem_cons,
    List.not_mem_nil, or_false, hspace]
  omega

/-- A `trim` takes off white space at both ends, and nothing else. -/
theorem exists_eq_append_trim (text : List Char) : ∃ before after,
    text = before ++ trim text ++ after ∧ ∀ c ∈ before ++ after, isBlank c = true := by
  let rest := text.dropWhile isBlank
  have htext : text.takeWhile isBlank ++ rest = text := List.takeWhile_append_dropWhile
  have hrest : (rest.reverse.dropWhile isBlank).reverse ++
      (rest.reverse.takeWhile isBlank).reverse = rest := by
    rw [← List.reverse_append, List.takeWhile_append_dropWhile, List.reverse_reverse]
  refine ⟨text.takeWhile isBlank, (rest.reverse.takeWhile isBlank).reverse, ?_, fun c hc => ?_⟩
  · rw [List.append_assoc, trim, hrest, htext]
  · rw [List.mem_append, List.mem_reverse] at hc
    obtain hc | hc := hc
    · exact List.mem_takeWhile_imp hc
    · exact List.mem_takeWhile_imp hc

theorem dropWhile_append_of_notBlank {before text : List Char}
    (hbefore : ∀ c ∈ before, isBlank c = true) (htext : ∀ c ∈ text.head?, isBlank c = false) :
    (before ++ text).dropWhile isBlank = text := by
  rw [List.dropWhile_append_of_pos hbefore]
  cases text with
  | nil => rfl
  | cons c text => exact List.dropWhile_cons_of_neg (Bool.eq_false_iff.mp (htext c rfl))

/-- White space around a `text` without white space is taken off, and nothing else. -/
theorem trim_append {before text after : List Char}
    (hblank : ∀ c ∈ before ++ after, isBlank c = true) (hne : text ≠ [])
    (htext : ∀ c ∈ text, isBlank c = false) : trim (before ++ text ++ after) = text := by
  rw [List.forall_mem_append] at hblank
  have hhead : ∀ c ∈ (text ++ after).head?, isBlank c = false := by
    rw [List.head?_append_of_ne_nil _ hne]
    exact fun c hc => htext c (List.mem_of_mem_head? hc)
  rw [trim, List.append_assoc, dropWhile_append_of_notBlank hblank.1 hhead, List.reverse_append,
    dropWhile_append_of_notBlank (by simpa using hblank.2), List.reverse_reverse]
  exact fun c hc => htext c (List.mem_reverse.mp (List.mem_of_mem_head? hc))

end Blank

namespace Number

/-! ## Digits -/

theorem bounds_of_isDigit {c : Char} (h : isDigit c = true) : 48 ≤ c.toNat ∧ c.toNat ≤ 57 := by
  simpa [isDigit, Char.le_def, UInt32.le_iff_toNat_le] using h

theorem digitChar_sub {c : Char} (h : isDigit c = true) : Nat.digitChar (c.toNat - 48) = c := by
  have hbounds := bounds_of_isDigit h
  apply Char.toNat_inj.mp
  rw [Nat.toNat_digitChar_of_lt_ten (by omega)]
  omega

theorem isDigit_digitChar {d : Nat} (h : d < 10) : isDigit (Nat.digitChar d) = true := by
  interval_cases d <;> decide

/-- A text of digits, and the values of the `digits`. -/
theorem all_isDigit_iff {text : List Char} : text.all isDigit = true ↔
    ∃ digits : List Nat, (∀ d ∈ digits, d < 10) ∧ text = digits.map Nat.digitChar := by
  constructor
  · intro h
    rw [List.all_eq_true] at h
    refine ⟨text.map fun c => c.toNat - 48, ?_, ?_⟩
    · intro d hd
      obtain ⟨c, hc, rfl⟩ := List.mem_map.mp hd
      have := bounds_of_isDigit (h c hc)
      omega
    · rw [List.map_map]
      exact (List.map_id text).symm.trans
        (List.map_congr_left fun c hc => (digitChar_sub (h c hc)).symm)
  · rintro ⟨digits, hdigits, rfl⟩
    rw [List.all_map, List.all_eq_true]
    exact fun d hd => isDigit_digitChar (hdigits d hd)

/-- Digits count tenfold with each digit after them, as in `Nat.ofDigits 10`, which has the lowest
one first. -/
theorem ofDigits_map_digitChar {digits : List Nat} (h : ∀ d ∈ digits, d < 10) :
    ofDigits (digits.map Nat.digitChar) = Nat.ofDigits 10 digits.reverse := by
  rw [Nat.ofDigits_eq_foldr, List.foldr_reverse, ofDigits, List.foldl_map]
  refine List.foldl_ext _ _ _ fun n d hd => ?_
  change 10 * n + ((Nat.digitChar d).toNat - 48) = d + 10 * n
  rw [Nat.toNat_digitChar_of_lt_ten (h d hd)]
  omega

/-! ## Signs -/

/-- What may stand in front of the digits. -/
inductive Sign where
  | none
  | plus
  | minus
  deriving DecidableEq, Repr

namespace Sign

def text : Sign → List Char
  | none => []
  | plus => ['+']
  | minus => ['-']

/-- The number with the sign in front of its magnitude. -/
def apply : Sign → Nat → Int
  | minus, magnitude => -magnitude
  | none, magnitude | plus, magnitude => magnitude

end Sign

theorem exists_takeSign_eq (text : List Char) : ∃ (sign : Sign) (rest : List Char),
    takeSign text = (decide (sign = .minus), rest) ∧ text = sign.text ++ rest := by
  unfold takeSign
  split
  · exact ⟨.minus, _, rfl, rfl⟩
  · exact ⟨.plus, _, rfl, rfl⟩
  · exact ⟨.none, _, rfl, rfl⟩

/-- Digits are not mistaken for a `sign`. -/
theorem takeSign_append {text : List Char} (h : text.all isDigit = true) (sign : Sign) :
    takeSign (sign.text ++ text) = (decide (sign = .minus), text) := by
  cases sign with
  | plus | minus => rfl
  | none =>
    change takeSign text = (false, text)
    unfold takeSign
    split
    · simp [isDigit] at h
    · simp [isDigit] at h
    · rfl

theorem parse?_of_takeSign {text rest : List Char} {sign : Sign}
    (h : takeSign text = (decide (sign = .minus), rest)) : parse? text =
      if rest ≠ [] ∧ rest.all isDigit = true ∧ fitsWord (sign.apply (ofDigits rest)) = true then
        some (sign.apply (ofDigits rest))
      else none := by
  unfold parse?
  rw [h]
  cases sign <;> rfl

/-! ## Numbers -/

/-- A `text` is a sign or none and digits, and spells a number `n` that fits in a signed word. -/
def Spells (text : List Char) (n : Int) : Prop :=
  ∃ (sign : Sign) (digits : List Nat), digits ≠ [] ∧ (∀ d ∈ digits, d < 10) ∧
    text = sign.text ++ digits.map Nat.digitChar ∧
    n = sign.apply (Nat.ofDigits 10 digits.reverse) ∧ -2 ^ 63 ≤ n ∧ n < 2 ^ 63

/-- A `text` spells the number `n`, between white space or nothing. -/
def Denotes (text : List Char) (n : Int) : Prop :=
  ∃ before number after, text = before ++ number ++ after ∧
    (∀ c ∈ before ++ after, c.toNat ∈ Blank.whiteSpace) ∧ Spells number n

theorem fitsWord_iff {n : Int} : fitsWord n = true ↔ -2 ^ 63 ≤ n ∧ n < 2 ^ 63 := by
  simp [fitsWord]

theorem parse?_eq_some_iff {text : List Char} {n : Int} :
    parse? text = some n ↔ Spells text n := by
  constructor
  · intro h
    obtain ⟨sign, rest, hsign, rfl⟩ := exists_takeSign_eq text
    rw [parse?_of_takeSign hsign] at h
    split at h
    · next hfits =>
      obtain ⟨hne, hrest, hfits⟩ := hfits
      obtain ⟨digits, hdigits, rfl⟩ := all_isDigit_iff.mp hrest
      obtain rfl := Option.some.inj h
      rw [ofDigits_map_digitChar hdigits] at hfits ⊢
      exact ⟨sign, digits, by simpa using hne, hdigits, rfl, rfl, fitsWord_iff.mp hfits⟩
    · cases h
  · rintro ⟨sign, digits, hne, hdigits, rfl, rfl, hfits⟩
    have hrest := all_isDigit_iff.mpr ⟨digits, hdigits, rfl⟩
    rw [parse?_of_takeSign (takeSign_append hrest sign), ofDigits_map_digitChar hdigits]
    exact if_pos ⟨by simpa using hne, hrest, fitsWord_iff.mpr hfits⟩

/-- There is no white space in a number. -/
theorem Spells.isBlank_eq_false {text : List Char} {n : Int} (h : Spells text n) :
    text ≠ [] ∧ ∀ c ∈ text, Blank.isBlank c = false := by
  obtain ⟨sign, digits, hne, hdigits, rfl, -⟩ := h
  refine ⟨by simp [hne], fun c hc => ?_⟩
  obtain hc | hc := List.mem_append.mp hc
  · cases sign with
    | none => cases hc
    | plus | minus =>
      obtain rfl := List.mem_singleton.mp hc
      decide
  · obtain ⟨d, hd, rfl⟩ := List.mem_map.mp hc
    have hlt : d < 10 := hdigits d hd
    interval_cases d <;> decide

/-- A `text` without the white space at its ends is read as the number that it denotes. -/
theorem parse?_trim_eq_some_iff {text : List Char} {n : Int} :
    parse? (Blank.trim text) = some n ↔ Denotes text n := by
  rw [parse?_eq_some_iff]
  constructor
  · intro h
    obtain ⟨before, after, htext, hblank⟩ := Blank.exists_eq_append_trim text
    exact ⟨before, _, after, htext, fun c hc => Blank.isBlank_iff.mp (hblank c hc), h⟩
  · rintro ⟨before, number, after, rfl, hblank, h⟩
    obtain ⟨hne, hnumber⟩ := h.isBlank_eq_false
    rwa [Blank.trim_append (fun c hc => Blank.isBlank_iff.mpr (hblank c hc)) hne hnumber]

end Number

end RoadTraffic
