import Mathlib
import RoadTraffic.Text.Percent
import RoadTraffic.Text.Utf8

/-!
# Texts as bytes

Bytes are read as a text exactly if they are the UTF-8 bytes of it. Reading goes character by
character: the first byte tells how a character goes on, and the bytes after it complete it.

* `Utf8.Completes begun tail c`: `tail` completes a character that was begun, which is `c`.
* `Utf8.scan_utf8EncodeChar_append`: the bytes of every character are read as that character.
* `Utf8.exists_of_none_notMem_scan`: where nothing is malformed, the bytes of some character come
  first.
* `Utf8.decode?_eq_some_iff`: `decode? bytes = some text` exactly if `bytes = Percent.bytesOf text`.
-/

namespace RoadTraffic

namespace Percent

theorem bytesOf_eq (text : String) : bytesOf text = text.toList.flatMap String.utf8EncodeChar := by
  conv => lhs; rw [← String.ofList_toList (s := text)]
  rw [bytesOf, String.toUTF8_eq_toByteArray, String.toByteArray_ofList, List.utf8Encode,
    List.data_toByteArray]

theorem bytesOf_injective {a b : String} (h : bytesOf a = bytesOf b) : a = b := by
  rw [← String.toByteArray_inj]
  exact ByteArray.ext (Array.toList_inj.mp h)

end Percent

namespace Utf8

open String (utf8EncodeChar)

variable {byte : UInt8} {bytes tail : Bytes} {c : Char}

/-! ## Characters of several bytes -/

/-- The bytes complete a character that was begun: there are as many as are owed, each within its
bounds. -/
inductive Completes : Begun → Bytes → Char → Prop where
  | last {value low high : Nat} {byte : UInt8} {c : Char} (hlow : low ≤ byte.toNat)
      (hhigh : byte.toNat ≤ high) (hc : Char.ofNat (value * 64 + (byte.toNat - 0x80)) = c) :
      Completes ⟨value, 0, low, high⟩ [byte] c
  | more {value owed low high : Nat} {byte : UInt8} {tail : Bytes} {c : Char}
      (hlow : low ≤ byte.toNat) (hhigh : byte.toNat ≤ high)
      (h : Completes { value := value * 64 + (byte.toNat - 0x80), owed } tail c) :
      Completes ⟨value, owed + 1, low, high⟩ (byte :: tail) c

theorem completes_zero_iff {value low high : Nat} : Completes ⟨value, 0, low, high⟩ tail c ↔
    ∃ byte : UInt8, tail = [byte] ∧ low ≤ byte.toNat ∧ byte.toNat ≤ high ∧
      Char.ofNat (value * 64 + (byte.toNat - 0x80)) = c := by
  constructor
  · rintro (⟨hlow, hhigh, hc⟩ | _)
    exact ⟨_, rfl, hlow, hhigh, hc⟩
  · rintro ⟨byte, rfl, hlow, hhigh, hc⟩
    exact .last hlow hhigh hc

theorem completes_succ_iff {value owed low high : Nat} :
    Completes ⟨value, owed + 1, low, high⟩ tail c ↔
      ∃ (byte : UInt8) (rest : Bytes), tail = byte :: rest ∧ low ≤ byte.toNat ∧
        byte.toNat ≤ high ∧
        Completes { value := value * 64 + (byte.toNat - 0x80), owed } rest c := by
  constructor
  · rintro (_ | ⟨hlow, hhigh, h⟩)
    exact ⟨_, _, rfl, hlow, hhigh, h⟩
  · rintro ⟨byte, rest, rfl, hlow, hhigh, h⟩
    exact .more hlow hhigh h

theorem exists_toNat_eq {n : Nat} (h : n < 256) : ∃ byte : UInt8, byte.toNat = n :=
  ⟨UInt8.ofNat n, by rw [UInt8.toNat_ofNat', Nat.mod_eq_of_lt h]⟩

theorem ofNat_eq_of_toNat (byte : UInt8) {n : Nat} (h : n = byte.toNat) : UInt8.ofNat n = byte := by
  rw [h, UInt8.ofNat_toNat]

theorem toNat_ofNat_of_isValidChar {n : Nat} (h : n < 0xD800 ∨ 0xDFFF < n ∧ n < 0x110000) :
    (Char.ofNat n).toNat = n := by
  rw [Char.toNat_ofNat, if_pos h]

/-! ## First bytes -/

theorem first_one {n : Nat} (h : n < 0x80) : first n = .char (Char.ofNat n) := if_pos h

theorem first_two {n : Nat} (hlow : 0xC2 ≤ n) (hhigh : n < 0xE0) :
    first n = .begun { value := n - 0xC0, owed := 0 } := by
  rw [first, if_neg (by omega), if_neg (by omega), if_pos hhigh]

theorem first_three {n : Nat} (hlow : 0xE0 ≤ n) (hhigh : n < 0xF0) :
    first n = .begun ⟨n - 0xE0, 1, if n = 0xE0 then 0xA0 else 0x80,
      if n = 0xED then 0x9F else 0xBF⟩ := by
  rw [first, if_neg (by omega), if_neg (by omega), if_neg (by omega)]
  by_cases hE0 : n = 0xE0
  · simp [hE0]
  by_cases hED : n = 0xED
  · simp [hED]
  simp [hE0, hED, hhigh]

theorem first_four {n : Nat} (hlow : 0xF0 ≤ n) (hhigh : n < 0xF5) :
    first n = .begun ⟨n - 0xF0, 2, if n = 0xF0 then 0x90 else 0x80,
      if n = 0xF4 then 0x8F else 0xBF⟩ := by
  rw [first, if_neg (by omega), if_neg (by omega), if_neg (by omega), if_neg (by omega),
    if_neg (by omega), if_neg (by omega)]
  by_cases hF0 : n = 0xF0
  · simp [hF0]
  by_cases hF4 : n = 0xF4
  · simp [hF4]
  rw [if_neg hF0, if_pos (show n < 0xF4 by omega)]
  simp [hF0, hF4]

/-- The second byte lies between the usual bounds `0x80` and `0xBF`, and after some first bytes
between narrower ones. -/
theorem second_iff {p q : Prop} [Decidable p] [Decidable q] {n low high : Nat} (hlow : 0x80 ≤ low)
    (hhigh : high ≤ 0xBF) :
    (if p then low else 0x80) ≤ n ∧ n ≤ (if q then high else 0xBF) ↔
      0x80 ≤ n ∧ n ≤ 0xBF ∧ (p → low ≤ n) ∧ (q → n ≤ high) := by
  split_ifs <;> simp [*] <;> omega

/-- A byte that begins a character begins one of two, three or four bytes. -/
theorem bounds_of_first_eq_begun {n : Nat} {b : Begun} (h : first n = .begun b) :
    0xC2 ≤ n ∧ n < 0xF5 := by
  unfold first at h
  split_ifs at h <;> omega

/-! ## The bytes of a character -/

theorem utf8EncodeChar_one (h : c.toNat < 0x80) : utf8EncodeChar c = [UInt8.ofNat c.toNat] :=
  if_pos (Nat.le_of_lt_succ h)

theorem utf8EncodeChar_two (hlow : 0x80 ≤ c.toNat) (hhigh : c.toNat < 0x800) :
    utf8EncodeChar c =
      [UInt8.ofNat (c.toNat / 64 + 0xC0), UInt8.ofNat (c.toNat % 64 + 0x80)] := by
  change (if c.toNat ≤ 0x7F then _ else if c.toNat ≤ 0x7FF then
    [UInt8.ofNat (c.toNat / 64 % 32 + 192), _] else _) = _
  rw [if_neg (by omega), if_pos (by omega), Nat.mod_eq_of_lt (by omega)]
  rfl

theorem utf8EncodeChar_three (hlow : 0x800 ≤ c.toNat) (hhigh : c.toNat < 0x10000) :
    utf8EncodeChar c = [UInt8.ofNat (c.toNat / 4096 + 0xE0),
      UInt8.ofNat (c.toNat / 64 % 64 + 0x80), UInt8.ofNat (c.toNat % 64 + 0x80)] := by
  change (if c.toNat ≤ 0x7F then _ else if c.toNat ≤ 0x7FF then _ else if c.toNat ≤ 0xFFFF then
    [UInt8.ofNat (c.toNat / 4096 % 16 + 224), _, _] else _) = _
  rw [if_neg (by omega), if_neg (by omega), if_pos (by omega), Nat.mod_eq_of_lt (by omega)]
  rfl

theorem utf8EncodeChar_four (hlow : 0x10000 ≤ c.toNat) :
    utf8EncodeChar c = [UInt8.ofNat (c.toNat / 262144 + 0xF0),
      UInt8.ofNat (c.toNat / 4096 % 64 + 0x80), UInt8.ofNat (c.toNat / 64 % 64 + 0x80),
      UInt8.ofNat (c.toNat % 64 + 0x80)] := by
  have hvalid : c.toNat < 0xD800 ∨ 0xDFFF < c.toNat ∧ c.toNat < 0x110000 := c.valid
  change (if c.toNat ≤ 0x7F then _ else if c.toNat ≤ 0x7FF then _ else if c.toNat ≤ 0xFFFF then _
    else [UInt8.ofNat (c.toNat / 262144 % 8 + 240), _, _, _]) = _
  rw [if_neg (by omega), if_neg (by omega), if_neg (by omega), Nat.mod_eq_of_lt (by omega)]
  rfl

theorem utf8EncodeChar_of_completes_two (hlow : 0xC2 ≤ byte.toNat) (hhigh : byte.toNat < 0xE0)
    (h : Completes { value := byte.toNat - 0xC0, owed := 0 } tail c) :
    utf8EncodeChar c = byte :: tail := by
  obtain ⟨second, rfl, hsecond, hsecond', hc⟩ := completes_zero_iff.mp h
  have hn : c.toNat = (byte.toNat - 0xC0) * 64 + (second.toNat - 0x80) := by
    rw [← hc, toNat_ofNat_of_isValidChar (by omega)]
  rw [utf8EncodeChar_two (by omega) (by omega), ofNat_eq_of_toNat byte (by omega),
    ofNat_eq_of_toNat second (by omega)]

theorem utf8EncodeChar_of_completes_three (hlow : 0xE0 ≤ byte.toNat) (hhigh : byte.toNat < 0xF0)
    (h : Completes ⟨byte.toNat - 0xE0, 1, if byte.toNat = 0xE0 then 0xA0 else 0x80,
      if byte.toNat = 0xED then 0x9F else 0xBF⟩ tail c) : utf8EncodeChar c = byte :: tail := by
  obtain ⟨second, rest, rfl, hlow₂, hhigh₂, hrest⟩ := completes_succ_iff.mp h
  obtain ⟨third, rfl, hthird, hthird', hc⟩ := completes_zero_iff.mp hrest
  have hsecond := (second_iff (by decide) (by decide)).mp ⟨hlow₂, hhigh₂⟩
  have hn : c.toNat =
      ((byte.toNat - 0xE0) * 64 + (second.toNat - 0x80)) * 64 + (third.toNat - 0x80) := by
    rw [← hc, toNat_ofNat_of_isValidChar (by omega)]
  rw [utf8EncodeChar_three (by omega) (by omega), ofNat_eq_of_toNat byte (by omega),
    ofNat_eq_of_toNat second (by omega), ofNat_eq_of_toNat third (by omega)]

theorem utf8EncodeChar_of_completes_four (hlow : 0xF0 ≤ byte.toNat) (hhigh : byte.toNat < 0xF5)
    (h : Completes ⟨byte.toNat - 0xF0, 2, if byte.toNat = 0xF0 then 0x90 else 0x80,
      if byte.toNat = 0xF4 then 0x8F else 0xBF⟩ tail c) : utf8EncodeChar c = byte :: tail := by
  obtain ⟨second, rest, rfl, hlow₂, hhigh₂, hrest⟩ := completes_succ_iff.mp h
  obtain ⟨third, rest', rfl, hthird, hthird', hrest'⟩ := completes_succ_iff.mp hrest
  obtain ⟨fourth, rfl, hfourth, hfourth', hc⟩ := completes_zero_iff.mp hrest'
  have hsecond := (second_iff (by decide) (by decide)).mp ⟨hlow₂, hhigh₂⟩
  have hn : c.toNat = (((byte.toNat - 0xF0) * 64 + (second.toNat - 0x80)) * 64 +
      (third.toNat - 0x80)) * 64 + (fourth.toNat - 0x80) := by
    rw [← hc, toNat_ofNat_of_isValidChar (by omega)]
  rw [utf8EncodeChar_four (by omega), ofNat_eq_of_toNat byte (by omega),
    ofNat_eq_of_toNat second (by omega), ofNat_eq_of_toNat third (by omega),
    ofNat_eq_of_toNat fourth (by omega)]

/-- A first `byte` and the `tail` that completes the character are the bytes of that character. -/
theorem utf8EncodeChar_of_completes {b : Begun} (hfirst : first byte.toNat = .begun b)
    (h : Completes b tail c) : utf8EncodeChar c = byte :: tail := by
  obtain ⟨hlow, hhigh⟩ := bounds_of_first_eq_begun hfirst
  by_cases htwo : byte.toNat < 0xE0
  · rw [first_two hlow htwo, First.begun.injEq] at hfirst
    exact utf8EncodeChar_of_completes_two hlow htwo (hfirst ▸ h)
  by_cases hthree : byte.toNat < 0xF0
  · rw [first_three (by omega) hthree, First.begun.injEq] at hfirst
    exact utf8EncodeChar_of_completes_three (by omega) hthree (hfirst ▸ h)
  · rw [first_four (by omega) hhigh, First.begun.injEq] at hfirst
    exact utf8EncodeChar_of_completes_four (by omega) hhigh (hfirst ▸ h)

/-- A byte that is a character is all there is of it. -/
theorem utf8EncodeChar_of_first (h : first byte.toNat = .char c) : utf8EncodeChar c = [byte] := by
  have hlt : byte.toNat < 0x80 := by
    unfold first at h
    split_ifs at h
    assumption
  rw [first_one hlt, First.char.injEq] at h
  have hn : c.toNat = byte.toNat := by rw [← h, toNat_ofNat_of_isValidChar (by omega)]
  rw [utf8EncodeChar_one (by omega), hn, UInt8.ofNat_toNat]

/-- Each character that is not of one byte is begun by some `byte` and completed by others
(`tail`). -/
theorem exists_completes (h : 0x80 ≤ c.toNat) : ∃ (byte : UInt8) (b : Begun) (tail : Bytes),
    first byte.toNat = .begun b ∧ Completes b tail c := by
  have hvalid : c.toNat < 0xD800 ∨ 0xDFFF < c.toNat ∧ c.toNat < 0x110000 := c.valid
  have hself {n : Nat} (hn : n = c.toNat) : Char.ofNat n = c := by rw [hn, Char.ofNat_toNat]
  -- Two, three or four bytes: six bits of the number go into each byte after the first one.
  by_cases htwo : c.toNat < 0x800
  · obtain ⟨byte, hbyte⟩ := exists_toNat_eq (n := c.toNat / 64 + 0xC0) (by omega)
    obtain ⟨second, hsecond⟩ := exists_toNat_eq (n := c.toNat % 64 + 0x80) (by omega)
    exact ⟨byte, _, [second], first_two (by omega) (by omega),
      .last (by omega) (by omega) (hself (by omega))⟩
  by_cases hthree : c.toNat < 0x10000
  · obtain ⟨byte, hbyte⟩ := exists_toNat_eq (n := c.toNat / 4096 + 0xE0) (by omega)
    obtain ⟨second, hsecond⟩ := exists_toNat_eq (n := c.toNat / 64 % 64 + 0x80) (by omega)
    obtain ⟨third, hthird⟩ := exists_toNat_eq (n := c.toNat % 64 + 0x80) (by omega)
    obtain ⟨hlow₂, hhigh₂⟩ := (second_iff (p := byte.toNat = 0xE0) (q := byte.toNat = 0xED)
      (n := second.toNat) (show 0x80 ≤ 0xA0 by decide)
      (show 0x9F ≤ 0xBF by decide)).mpr (by omega)
    exact ⟨byte, _, [second, third], first_three (by omega) (by omega),
      .more hlow₂ hhigh₂ (.last (by omega) (by omega) (hself (by omega)))⟩
  · obtain ⟨byte, hbyte⟩ := exists_toNat_eq (n := c.toNat / 262144 + 0xF0) (by omega)
    obtain ⟨second, hsecond⟩ := exists_toNat_eq (n := c.toNat / 4096 % 64 + 0x80) (by omega)
    obtain ⟨third, hthird⟩ := exists_toNat_eq (n := c.toNat / 64 % 64 + 0x80) (by omega)
    obtain ⟨fourth, hfourth⟩ := exists_toNat_eq (n := c.toNat % 64 + 0x80) (by omega)
    obtain ⟨hlow₂, hhigh₂⟩ := (second_iff (p := byte.toNat = 0xF0) (q := byte.toNat = 0xF4)
      (n := second.toNat) (show 0x80 ≤ 0x90 by decide)
      (show 0x8F ≤ 0xBF by decide)).mpr (by omega)
    exact ⟨byte, _, [second, third, fourth], first_four (by omega) (by omega),
      .more hlow₂ hhigh₂
        (.more (by omega) (by omega) (.last (by omega) (by omega) (hself (by omega))))⟩

/-! ## Character by character -/

namespace Progress

theorem start_of_char {done : List Piece} {n : Nat} (h : first n = .char c) :
    start done n = { done := some c :: done } := by
  rw [start, h]

theorem start_of_begun {done : List Piece} {n : Nat} {b : Begun} (h : first n = .begun b) :
    start done n = { done, begun := some b } := by
  rw [start, h]

/-- What was read `before` comes before what is read now, and changes nothing about it. -/
theorem done_step (before done : List Piece) (begun : Option Begun) (byte : UInt8) :
    step ⟨done ++ before, begun⟩ byte =
      { step ⟨done, begun⟩ byte with done := (step ⟨done, begun⟩ byte).done ++ before } := by
  have hstart (done : List Piece) : start (done ++ before) byte.toNat =
      { start done byte.toNat with done := (start done byte.toNat).done ++ before } := by
    unfold start
    cases first byte.toNat <;> rfl
  unfold step
  cases begun with
  | none => exact hstart done
  | some character =>
    dsimp only
    split_ifs with hfits
    · cases character.owed <;> rfl
    · exact hstart (none :: done)

theorem pieces_foldl_step (before done : List Piece) (begun : Option Begun) (bytes : Bytes) :
    (bytes.foldl step ⟨done ++ before, begun⟩).pieces =
      before.reverse ++ (bytes.foldl step ⟨done, begun⟩).pieces := by
  induction bytes generalizing done begun with
  | nil => cases begun <;> simp [pieces]
  | cons byte bytes ih =>
    rw [List.foldl_cons, List.foldl_cons, done_step]
    exact ih _ _

theorem foldl_step_of_completes {b : Begun} (h : Completes b tail c) (done : List Piece) :
    tail.foldl step { done, begun := some b } = { done := some c :: done } := by
  induction h with
  | last hlow hhigh hc =>
    rw [List.foldl_cons, List.foldl_nil, step]
    simp only [hlow, hhigh, and_self, ↓reduceIte, hc]
  | more hlow hhigh _ ih =>
    rw [List.foldl_cons, step]
    simp only [hlow, hhigh, and_self, ↓reduceIte]
    exact ih

end Progress

/-- The bytes of the character `c` are read as that character, whatever comes after them. -/
theorem scan_utf8EncodeChar_append (c : Char) (bytes : Bytes) :
    scan (utf8EncodeChar c ++ bytes) = some c :: scan bytes := by
  have hread : (utf8EncodeChar c).foldl Progress.step {} = { done := [some c] } := by
    by_cases hone : c.toNat < 0x80
    · rw [utf8EncodeChar_one hone, List.foldl_cons, List.foldl_nil, Progress.step]
      refine Progress.start_of_char ?_
      rw [UInt8.toNat_ofNat', Nat.mod_eq_of_lt (by omega), first_one hone, Char.ofNat_toNat]
    · obtain ⟨byte, b, tail, hfirst, hcompletes⟩ := exists_completes (Nat.not_lt.mp hone)
      rw [utf8EncodeChar_of_completes hfirst hcompletes, List.foldl_cons, Progress.step]
      dsimp only
      rw [Progress.start_of_begun hfirst, Progress.foldl_step_of_completes hcompletes]
  rw [scan, List.foldl_append, hread]
  exact Progress.pieces_foldl_step [some c] [] none bytes

theorem scan_flatMap_utf8EncodeChar (text : List Char) :
    scan (text.flatMap utf8EncodeChar) = text.map some := by
  induction text with
  | nil => rfl
  | cons c text ih => rw [List.flatMap_cons, scan_utf8EncodeChar_append, ih, List.map_cons]

/-! ## Nothing malformed -/

namespace Progress

/-- A malformed stretch (`none`) is never forgotten. -/
theorem none_mem_pieces {progress : Progress} (h : none ∈ progress.done) (bytes : Bytes) :
    none ∈ (bytes.foldl step progress).pieces := by
  have hpieces := pieces_foldl_step progress.done [] progress.begun bytes
  rw [List.nil_append] at hpieces
  rw [hpieces]
  exact List.mem_append_left _ (List.mem_reverse.mpr h)

/-- A `byte` that does not fit leaves a malformed stretch behind. -/
theorem none_mem_pieces_of_misfit {b : Begun} (h : ¬ (b.low ≤ byte.toNat ∧ byte.toNat ≤ b.high))
    (bytes : Bytes) :
    none ∈ ((byte :: bytes).foldl step { done := [], begun := some b }).pieces := by
  rw [List.foldl_cons, step]
  simp only [h, ↓reduceIte]
  refine none_mem_pieces ?_ bytes
  unfold start
  cases first byte.toNat <;> simp

end Progress

/-- Where nothing is malformed, a character that was begun is completed. -/
theorem exists_completes_of_none_notMem {value owed low high : Nat}
    (h : none ∉ (bytes.foldl Progress.step
      { done := [], begun := some ⟨value, owed, low, high⟩ }).pieces) :
    ∃ tail rest c, bytes = tail ++ rest ∧ Completes ⟨value, owed, low, high⟩ tail c := by
  induction owed generalizing value low high bytes with
  | zero =>
    cases bytes with
    | nil => simp [Progress.pieces] at h
    | cons byte bytes =>
      by_cases hfits : low ≤ byte.toNat ∧ byte.toNat ≤ high
      · exact ⟨[byte], bytes, _, rfl, .last hfits.1 hfits.2 rfl⟩
      · exact absurd (Progress.none_mem_pieces_of_misfit hfits bytes) h
  | succ owed ih =>
    cases bytes with
    | nil => simp [Progress.pieces] at h
    | cons byte bytes =>
      by_cases hfits : low ≤ byte.toNat ∧ byte.toNat ≤ high
      · rw [List.foldl_cons, Progress.step] at h
        simp only [hfits, and_self, ↓reduceIte] at h
        obtain ⟨tail, rest, c, rfl, hcompletes⟩ := ih h
        exact ⟨byte :: tail, rest, c, rfl, .more hfits.1 hfits.2 hcompletes⟩
      · exact absurd (Progress.none_mem_pieces_of_misfit hfits bytes) h

/-- Where nothing is malformed, the bytes of some character come first. -/
theorem exists_of_none_notMem_scan (h : none ∉ scan (byte :: bytes)) :
    ∃ c rest, byte :: bytes = utf8EncodeChar c ++ rest := by
  rw [scan, List.foldl_cons, Progress.step] at h
  dsimp only at h
  cases hfirst : first byte.toNat with
  | char c => exact ⟨c, bytes, by rw [utf8EncodeChar_of_first hfirst]; rfl⟩
  | begun b =>
    rw [Progress.start_of_begun hfirst] at h
    obtain ⟨tail, rest, c, rfl, hcompletes⟩ := exists_completes_of_none_notMem h
    exact ⟨c, rest, by rw [utf8EncodeChar_of_completes hfirst hcompletes, List.cons_append]⟩
  | malformed =>
    rw [Progress.start, hfirst] at h
    exact absurd (Progress.none_mem_pieces (by simp) bytes) h

theorem scan_eq_map_some_iff {text : List Char} :
    scan bytes = text.map some ↔ bytes = text.flatMap utf8EncodeChar := by
  constructor
  · intro h
    induction text generalizing bytes with
    | nil =>
      cases bytes with
      | nil => rfl
      | cons byte bytes =>
        have hnone : none ∉ scan (byte :: bytes) := by rw [h]; simp
        obtain ⟨c, rest, hbytes⟩ := exists_of_none_notMem_scan hnone
        rw [hbytes, scan_utf8EncodeChar_append] at h
        cases h
    | cons c text ih =>
      cases bytes with
      | nil => cases h
      | cons byte bytes =>
        have hnone : none ∉ scan (byte :: bytes) := by rw [h]; simp
        -- Nothing is malformed, so that the bytes of a character come first, which must be `c`.
        obtain ⟨first, rest, hbytes⟩ := exists_of_none_notMem_scan hnone
        rw [hbytes, scan_utf8EncodeChar_append, List.map_cons, List.cons.injEq,
          Option.some.injEq] at h
        rw [hbytes, List.flatMap_cons, h.1, ih h.2]
  · rintro rfl
    exact scan_flatMap_utf8EncodeChar text

theorem eq_map_some_iff {pieces : List Piece} {text : List Char} :
    pieces = text.map some ↔ pieces.all Option.isSome = true ∧ pieces.filterMap id = text := by
  constructor
  · rintro rfl
    simp
  · rintro ⟨hsome, rfl⟩
    induction pieces with
    | nil => rfl
    | cons piece pieces ih =>
      cases piece with
      | none => simp at hsome
      | some c => simpa using ih (by simpa using hsome)

/-- Bytes are read as a text exactly if they are its UTF-8 bytes. -/
theorem decode?_eq_some_iff {text : String} :
    decode? bytes = some text ↔ bytes = Percent.bytesOf text := by
  rw [Percent.bytesOf_eq, ← scan_eq_map_some_iff, eq_map_some_iff, decode?]
  constructor
  · intro h
    split at h
    · next hsome =>
      refine ⟨hsome, ?_⟩
      rw [← Option.some.inj h, String.toList_ofList]
    · cases h
  · rintro ⟨hsome, htext⟩
    rw [if_pos hsome, htext, String.ofList_toList]

end Utf8

end RoadTraffic
