import Mathlib
import RoadTraffic.Http.Url
import RoadTraffic.Proofs.Text.Utf8

/-!
# Percent escapes undone

What was escaped consists of characters that are safe in every part of a URL, and stands for the
bytes that were escaped.

* `Percent.unescape`: the bytes that a text with escapes stands for.
* `Percent.IsEscaped`: a text of unreserved characters and escapes (`%` and two `hexDigits`).
* `Percent.unescape_escape_append`: `unescape` gives back the bytes of what `escape` was given.
* `Percent.escape_injective`: nothing of a text is lost.
-/

namespace RoadTraffic

namespace Percent

open String (utf8EncodeChar)

variable {text : List Char} {c : Char}

/-! ## Escapes and what they stand for -/

/-- The bytes that a text stands for: an escape for its byte, and everything else for itself. A `%`
without two hexadecimal digits after it is no escape. -/
def unescape : List Char → Bytes
  | '%' :: high :: low :: text =>
    match Url.digitValue? 16 high.toLower, Url.digitValue? 16 low.toLower with
    | some high, some low => UInt8.ofNat (16 * high + low) :: unescape text
    | _, _ => utf8EncodeChar '%' ++ unescape (high :: low :: text)
  | c :: text => utf8EncodeChar c ++ unescape text
  | [] => []

/-- The characters that stand for themselves in every URL: letters, digits, `-`, `_`, `.` and
`~`. -/
def IsUnreserved (c : Char) : Prop := c.isAlphanum = true ∨ c ∈ ['-', '_', '.', '~']

instance : DecidablePred IsUnreserved := fun _ => inferInstanceAs (Decidable (_ ∨ _))

/-- The digits of escapes. -/
def hexDigits : List Char :=
  ['0', '1', '2', '3', '4', '5', '6', '7', '8', '9', 'A', 'B', 'C', 'D', 'E', 'F']

/-- There is nothing in a text but unreserved characters and escapes. -/
inductive IsEscaped : List Char → Prop where
  | nil : IsEscaped []
  | unreserved {c : Char} {text : List Char} (hc : IsUnreserved c) (h : IsEscaped text) :
      IsEscaped (c :: text)
  | escape {high low : Char} {text : List Char} (hhigh : high ∈ hexDigits) (hlow : low ∈ hexDigits)
      (h : IsEscaped text) : IsEscaped ('%' :: high :: low :: text)

/-! ## Characters -/

theorem toNat_lt_of_isUnreserved (h : IsUnreserved c) : c.toNat < 0x80 := by
  obtain h | h := h
  · simp only [Char.isAlphanum, Char.isAlpha, Char.isUpper, Char.isLower, Char.isDigit,
      Bool.or_eq_true, Bool.and_eq_true, decide_eq_true_eq, UInt32.le_iff_toNat_le] at h
    have hZ : 'Z'.val.toNat = 90 := rfl
    have hz : 'z'.val.toNat = 122 := rfl
    have h9 : '9'.val.toNat = 57 := rfl
    change c.val.toNat < 0x80
    omega
  · simp only [List.mem_cons, List.not_mem_nil, or_false] at h
    obtain rfl | rfl | rfl | rfl := h <;> decide

theorem isUnreserved_of_mem_hexDigits (h : c ∈ hexDigits) : IsUnreserved c := by
  have hall : hexDigits.all Char.isAlphanum = true := by decide
  exact .inl (List.all_eq_true.mp hall c h)

theorem hexDigit_mem {n : Nat} (h : n < 16) : hexDigit n ∈ hexDigits := by
  interval_cases n <;> decide

theorem digitValue?_hexDigit {n : Nat} (h : n < 16) :
    Url.digitValue? 16 (hexDigit n).toLower = some n := by
  interval_cases n <;> decide

theorem isUnreserved_ofNat {byte : UInt8} (h : isUnreserved byte = true) :
    IsUnreserved (Char.ofNat byte.toNat) := by
  simpa [isUnreserved, IsUnreserved, or_assoc] using h

/-- An unreserved character is a single byte. -/
theorem utf8EncodeChar_of_isUnreserved {byte : UInt8} (h : isUnreserved byte = true) :
    utf8EncodeChar (Char.ofNat byte.toNat) = [byte] := by
  have hbyte := byte.toNat_lt
  have hn : (Char.ofNat byte.toNat).toNat = byte.toNat :=
    Utf8.toNat_ofNat_of_isValidChar (.inl (by omega))
  have hlt := toNat_lt_of_isUnreserved (isUnreserved_ofNat h)
  rw [Utf8.utf8EncodeChar_one hlt, hn, UInt8.ofNat_toNat]

/-! ## What is escaped -/

theorem IsEscaped.append {text' : List Char} (h : IsEscaped text) (h' : IsEscaped text') :
    IsEscaped (text ++ text') := by
  induction h with
  | nil => exact h'
  | unreserved hc _ ih => exact .unreserved hc ih
  | escape hhigh hlow _ ih => exact .escape hhigh hlow ih

theorem isEscaped_of_forall (h : ∀ c ∈ text, IsUnreserved c) : IsEscaped text := by
  induction text with
  | nil => exact .nil
  | cons c text ih =>
    rw [List.forall_mem_cons] at h
    exact .unreserved h.1 (ih h.2)

theorem IsEscaped.isUnreserved_or_eq (h : IsEscaped text) (hc : c ∈ text) :
    IsUnreserved c ∨ c = '%' := by
  induction h with
  | nil => cases hc
  | unreserved hfirst _ ih =>
    obtain rfl | hc := List.mem_cons.mp hc
    · exact .inl hfirst
    · exact ih hc
  | escape hhigh hlow _ ih =>
    simp only [List.mem_cons] at hc
    obtain rfl | rfl | rfl | hc := hc
    · exact .inr rfl
    · exact .inl (isUnreserved_of_mem_hexDigits hhigh)
    · exact .inl (isUnreserved_of_mem_hexDigits hlow)
    · exact ih hc

theorem isEscaped_escapeBytes (bytes : Bytes) : IsEscaped (escapeBytes isUnreserved bytes) := by
  induction bytes with
  | nil => exact .nil
  | cons byte bytes ih =>
    have hbyte := byte.toNat_lt
    rw [escapeBytes, List.flatMap_cons]
    refine IsEscaped.append ?_ ih
    by_cases h : isUnreserved byte = true
    · rw [if_pos h]
      exact .unreserved (isUnreserved_ofNat h) .nil
    · rw [if_neg h]
      exact .escape (hexDigit_mem (by omega)) (hexDigit_mem (by omega)) .nil

/-! ## What escapes stand for -/

theorem unescape_cons_of_ne (h : c ≠ '%') (text : List Char) :
    unescape (c :: text) = utf8EncodeChar c ++ unescape text := by
  rw [unescape.eq_def]
  split
  · next heq => exact absurd (List.cons.inj heq).1 h
  · next heq =>
    obtain ⟨rfl, rfl⟩ := List.cons.inj heq
    rfl
  · next heq => cases heq

/-- Without escapes (`'%' ∉ text`) a text stands for itself. -/
theorem unescape_of_notMem (h : '%' ∉ text) : unescape text = text.flatMap utf8EncodeChar := by
  induction text with
  | nil => rfl
  | cons c text ih =>
    rw [List.mem_cons, not_or] at h
    rw [unescape_cons_of_ne (Ne.symm h.1), ih h.2, List.flatMap_cons]

theorem unescape_escapeByte_append (byte : UInt8) (text : List Char) :
    unescape (escapeByte byte ++ text) = byte :: unescape text := by
  have hbyte := byte.toNat_lt
  change unescape ('%' :: hexDigit (byte.toNat / 16) :: hexDigit (byte.toNat % 16) :: text) = _
  rw [unescape, digitValue?_hexDigit (by omega), digitValue?_hexDigit (by omega)]
  dsimp only
  rw [Nat.div_add_mod, UInt8.ofNat_toNat]

theorem unescape_escapeBytes_append (bytes : Bytes) (text : List Char) :
    unescape (escapeBytes isUnreserved bytes ++ text) = bytes ++ unescape text := by
  induction bytes with
  | nil => rfl
  | cons byte bytes ih =>
    rw [escapeBytes, List.flatMap_cons, List.append_assoc, List.cons_append, ← ih]
    by_cases h : isUnreserved byte = true
    · have hne : Char.ofNat byte.toNat ≠ '%' := fun heq =>
        absurd (heq ▸ isUnreserved_ofNat h) (by decide)
      rw [if_pos h, List.singleton_append, unescape_cons_of_ne hne,
        utf8EncodeChar_of_isUnreserved h]
      rfl
    · rw [if_neg h, unescape_escapeByte_append]
      rfl

theorem toList_escape (text : String) :
    (escape text).toList = escapeBytes isUnreserved (bytesOf text) := by
  rw [escape, String.toList_ofList]

/-- The text `escape text` stands for the bytes of `text`, whatever comes after it. -/
theorem unescape_escape_append (text : String) (more : List Char) :
    unescape ((escape text).toList ++ more) = bytesOf text ++ unescape more := by
  rw [toList_escape, unescape_escapeBytes_append]

theorem escape_injective {a b : String} (h : escape a = escape b) : a = b := by
  have hbytes := unescape_escape_append a []
  rw [h, unescape_escape_append] at hbytes
  exact bytesOf_injective (List.append_cancel_right hbytes).symm

end Percent

end RoadTraffic
