import Mathlib
import RoadTraffic.Bits.Lemmas
import RoadTraffic.Bits.Reader
import RoadTraffic.Proofs.Failing

/-!
# Readers and writers as lists of bits

A reader is determined by the bits ahead of it and a writer by the bits behind it, so that what
they do is told in terms of lists of bits alone.

* `BitReader.ext_bits`: two readers with the same bits ahead are equal.
* `BitReader.read_eq_ok_iff`/`readBit_eq_ok_iff`/`finish_eq_ok_iff`: when a read succeeds, with
  which result and which bits ahead afterwards.
* `BitReader.finish_eq`: `finish` tells `.trailingBytes`, `.nonZeroPadding` or `.ok ()` from the
  bits ahead.
* `BitWriter.isPadded_toBytes`: `writer.toBytes` are `writer.bits`, filled up with zeros.
* `Bits.IsPadded.unique`/`length_eq`: bits are filled up to whole bytes in one way only, and to
  `(bits.length + 7) / 8` bytes.
-/

namespace RoadTraffic

namespace Bits

/-! ## Bytes -/

theorem ofByte_injective {a b : UInt8} (h : ofByte a = ofByte b) : a = b := by
  rw [← toByte_ofByte a, h, toByte_ofByte]

/-- If `ofBytes bytes` begins with the bits of `a`, then `bytes` begin with `a`. -/
theorem exists_append_of_ofBytes {bytes a : Bytes} {bits : List Bool}
    (h : ofBytes bytes = ofBytes a ++ bits) : ∃ b, bytes = a ++ b ∧ ofBytes b = bits := by
  induction a generalizing bytes with
  | nil => exact ⟨bytes, rfl, by simpa using h⟩
  | cons byte a ih =>
    cases bytes with
    | nil =>
      have := congrArg List.length h
      simp only [length_ofBytes, List.length_append, List.length_nil, List.length_cons] at this
      omega
    | cons byte' bytes =>
      rw [ofBytes_cons, ofBytes_cons, List.append_assoc] at h
      obtain ⟨hbyte, hrest⟩ := List.append_inj h (by simp)
      obtain ⟨b, rfl, hb⟩ := ih hrest
      exact ⟨b, by rw [ofByte_injective hbyte, List.cons_append], hb⟩

theorem ofBytes_injective {a b : Bytes} (h : ofBytes a = ofBytes b) : a = b := by
  rw [← List.append_nil (ofBytes b)] at h
  obtain ⟨rest, rfl, hrest⟩ := exists_append_of_ofBytes h
  cases rest with
  | nil => simp
  | cons byte rest =>
    have := congrArg List.length hrest
    simp at this

/-- The `bytes` are `bits`, filled up with fewer than eight zeros. -/
def IsPadded (bits : List Bool) (bytes : Bytes) : Prop :=
  ∃ padding < 8, ofBytes bytes = bits ++ List.replicate padding false

/-- Whole bytes leave no choice in how many zeros fill them up: `bits` determine `bytes`. -/
theorem IsPadded.unique {bits : List Bool} {a b : Bytes} (ha : IsPadded bits a)
    (hb : IsPadded bits b) : a = b := by
  obtain ⟨m, hm, ha⟩ := ha
  obtain ⟨n, hn, hb⟩ := hb
  have hla := congrArg List.length ha
  have hlb := congrArg List.length hb
  simp only [length_ofBytes, List.length_append, List.length_replicate] at hla hlb
  obtain rfl : m = n := by omega
  exact ofBytes_injective (ha.trans hb.symm)

/-- Filling up adds no byte: there are as many as `bits` need, `⌈bits.length / 8⌉`. -/
theorem IsPadded.length_eq {bits : List Bool} {bytes : Bytes} (h : IsPadded bits bytes) :
    bytes.length = (bits.length + 7) / 8 := by
  obtain ⟨padding, hlt, hbits⟩ := h
  have hlength := congrArg List.length hbits
  rw [length_ofBytes, List.length_append, List.length_replicate] at hlength
  omega

/-- What is ahead of a `header` of whole bytes is filled up on its own. -/
theorem IsPadded.drop_header {header bytes : Bytes} {bits : List Bool}
    (h : IsPadded (ofBytes header ++ bits) bytes) :
    ∃ body, bytes = header ++ body ∧ IsPadded bits body := by
  obtain ⟨padding, hlt, h⟩ := h
  rw [List.append_assoc] at h
  obtain ⟨body, rfl, hbody⟩ := exists_append_of_ofBytes h
  exact ⟨body, rfl, padding, hlt, hbody⟩

/-! ## Numbers -/

theorem ofNat_mod (width n : Nat) : ofNat width (n % 2 ^ width) = ofNat width n := by
  have h := ofNat_toNat (ofNat width n)
  rwa [length_ofNat, toNat_ofNat] at h

theorem toNat_replicate_false (count : Nat) : toNat (List.replicate count false) = 0 := by
  induction count with
  | zero => rfl
  | succ count ih => simp [List.replicate_succ, toNat, ih]

theorem toNat_append (a b : List Bool) : toNat (a ++ b) = toNat a + 2 ^ a.length * toNat b := by
  induction a with
  | nil => simp [toNat]
  | cons bit a ih =>
    simp only [List.cons_append, toNat, ih, List.length_cons, Nat.pow_succ]
    ring

/-- The number `2 ^ n` is spelled as `n` zeros and a one. -/
theorem ofNat_two_pow (n : Nat) :
    ofNat (n + 1) (2 ^ n) = List.replicate n false ++ [true] := by
  have h := ofNat_toNat (List.replicate n false ++ [true])
  rw [toNat_append, toNat_replicate_false] at h
  simpa [toNat] using h

end Bits

namespace BitReader

/-! ## The bits ahead -/

theorem ext_bits {a b : BitReader} (h : a.bits = b.bits) : a = b := by
  obtain ⟨pa, ra, hpa⟩ := a
  obtain ⟨pb, rb, hpb⟩ := b
  simp only [bits] at h
  have hlen := congrArg List.length h
  simp only [List.length_append, Bits.length_ofBytes] at hlen
  obtain ⟨rfl, hrest⟩ := List.append_inj h (by omega)
  obtain rfl := Bits.ofBytes_injective hrest
  rfl

theorem next?_of_bits {reader : BitReader} {bit : Bool} {more : List Bool}
    (h : reader.bits = bit :: more) :
    ∃ reader', reader.next? = some (bit, reader') ∧ reader'.bits = more := by
  cases hnext : reader.next? with
  | none =>
    rw [next?_eq_none.mp hnext] at h
    cases h
  | some head =>
    obtain ⟨bit', reader'⟩ := head
    have := bits_eq_of_next? hnext
    rw [h] at this
    obtain ⟨rfl, rfl⟩ := List.cons.inj this
    exact ⟨reader', rfl, rfl⟩

theorem take_of_bits {reader : BitReader} {field more : List Bool}
    (h : reader.bits = field ++ more) :
    ∃ reader', reader.take field.length = some (Bits.toNat field, reader') ∧
      reader'.bits = more := by
  have htake := take_eq field.length reader
  cases hread : reader.take field.length with
  | none =>
    rw [hread, h, List.length_append] at htake
    omega
  | some result =>
    obtain ⟨value, reader'⟩ := result
    rw [hread] at htake
    obtain ⟨field', hlen, hbits, rfl⟩ := htake
    rw [h] at hbits
    obtain ⟨rfl, rfl⟩ := List.append_inj hbits hlen.symm
    exact ⟨reader', rfl, rfl⟩

/-- A `take count` reads `count` bits that spell its value (`Bits.ofNat count value`). -/
theorem take_eq_some_iff {count value : Nat} {reader reader' : BitReader} :
    reader.take count = some (value, reader') ↔
      value < 2 ^ count ∧ reader.bits = Bits.ofNat count value ++ reader'.bits := by
  constructor
  · intro h
    have htake := take_eq count reader
    rw [h] at htake
    obtain ⟨field, rfl, hbits, rfl⟩ := htake
    exact ⟨Bits.toNat_lt field, by rw [Bits.ofNat_toNat, hbits]⟩
  · rintro ⟨hlt, hbits⟩
    obtain ⟨reader'', htake, hbits'⟩ := take_of_bits hbits
    rw [Bits.length_ofNat, Bits.toNat_ofNat, Nat.mod_eq_of_lt hlt] at htake
    rw [htake, ext_bits hbits']

/-- A step of `align` skips `padding`, which is less than a byte, and what follows it is whole
bytes. -/
theorem align_of_bits {reader : BitReader} {padding : List Bool} {bytes : Bytes}
    (h : reader.bits = padding ++ Bits.ofBytes bytes) (hlt : padding.length < 8) :
    reader.align = new bytes := by
  have hlength := congrArg List.length h
  have hpending := reader.pending_lt
  simp only [bits, List.length_append, Bits.length_ofBytes] at hlength
  have hrest := (List.append_inj h (by omega)).2
  rw [align, Bits.ofBytes_injective hrest]

/-- A `read count` succeeds if `count ≤ reader.bits.length`, with the number that they spell. -/
theorem read_of_le {reader : BitReader} {count : Nat} (hcount : count ≤ Bits.wordWidth)
    (hroom : count ≤ reader.bits.length) :
    ∃ reader', reader.read count = (.ok (Bits.toNat (reader.bits.take count)), reader') ∧
      reader'.bits = reader.bits.drop count := by
  obtain ⟨reader', htake, hbits⟩ := take_of_bits (List.take_append_drop count reader.bits).symm
  rw [List.length_take_of_le hroom] at htake
  exact ⟨reader', by rw [read, if_pos hcount, htake], hbits⟩

theorem read_of_lt {reader : BitReader} {count : Nat} (hcount : count ≤ Bits.wordWidth)
    (hroom : reader.bits.length < count) :
    reader.read count = (.error (.endOfStream count reader.remaining), reader) := by
  have htake := take_eq count reader
  rw [read, if_pos hcount]
  cases htaken : reader.take count with
  | none => rfl
  | some result =>
    rw [htaken] at htake
    obtain ⟨field, hlength, hbits, -⟩ := htake
    rw [hbits, List.length_append] at hroom
    omega

theorem read_eq_ok_iff {count value : Nat} {reader reader' : BitReader} :
    reader.read count = (.ok value, reader') ↔
      count ≤ Bits.wordWidth ∧ value < 2 ^ count ∧
        reader.bits = Bits.ofNat count value ++ reader'.bits := by
  rw [← take_eq_some_iff]
  unfold read
  by_cases hc : count ≤ Bits.wordWidth
  · rw [if_pos hc]
    cases reader.take count <;> simp [hc, Prod.ext_iff]
  · simp [hc]

theorem readBit_eq_ok_iff {bit : Bool} {reader reader' : BitReader} :
    reader.readBit = (.ok bit, reader') ↔ reader.bits = bit :: reader'.bits := by
  unfold readBit
  constructor
  · intro h
    split at h
    · next value reader'' hread =>
      simp only [Prod.mk.injEq, Except.ok.injEq] at h
      obtain ⟨rfl, rfl⟩ := h
      obtain ⟨-, hlt, hbits⟩ := read_eq_ok_iff.mp hread
      obtain rfl | rfl : value = 0 ∨ value = 1 := by omega
      all_goals simpa [Bits.ofNat] using hbits
    · simp at h
  · intro h
    have hread : reader.read 1 = (.ok bit.toNat, reader') :=
      read_eq_ok_iff.mpr ⟨by decide, by cases bit <;> decide,
        by rw [h]; cases bit <;> rfl⟩
    rw [hread]
    cases bit <;> rfl

/-- If whole bytes are left, `finish` tells how many, whatever is left of the byte at hand. -/
theorem finish_of_bits {reader : BitReader} {padding : List Bool} {bytes : Bytes}
    (h : reader.bits = padding ++ Bits.ofBytes bytes) (hlt : padding.length < 8)
    (hne : bytes ≠ []) : reader.finish = .error (.trailingBytes bytes.length) := by
  have hrest : reader.rest = bytes := congrArg rest (align_of_bits h hlt)
  have hlength : bytes.length ≠ 0 := fun hnil => hne (List.eq_nil_of_length_eq_zero hnil)
  rw [finish, hrest, if_pos hlength]

theorem length_rest_of_bits (reader : BitReader) :
    reader.rest.length = reader.bits.length / 8 := by
  have hlt := reader.pending_lt
  rw [length_bits, remaining]
  omega

/-- What `finish` says goes by how many bits are ahead, and by whether they are zero. -/
theorem finish_eq (reader : BitReader) : reader.finish =
    if 8 ≤ reader.bits.length then .error (.trailingBytes (reader.bits.length / 8))
    else if true ∈ reader.bits then .error .nonZeroPadding else .ok () := by
  have hrest := reader.length_rest_of_bits
  unfold finish
  by_cases hbytes : 8 ≤ reader.bits.length
  · rw [if_pos hbytes, if_pos (by omega), hrest]
  · have hnil : reader.rest = [] := List.eq_nil_of_length_eq_zero (by omega)
    have hany : reader.pending.any id = true ↔ true ∈ reader.bits := by
      rw [bits, hnil, Bits.ofBytes_nil, List.append_nil]
      simp
    rw [if_neg hbytes, if_neg (by omega)]
    simp only [hany]

/-- The check `finish` accepts fewer than eight zeros ahead, and nothing else. -/
theorem finish_eq_ok_iff {reader : BitReader} :
    reader.finish = .ok () ↔ ∃ padding < 8, reader.bits = List.replicate padding false := by
  obtain ⟨pending, rest, hlt⟩ := reader
  have hany : pending.any id = false ↔ pending = List.replicate pending.length false := by
    rw [List.eq_replicate_iff]
    simp
  constructor
  · intro h
    unfold finish at h
    split at h
    · cases h
    · next hrest =>
      split at h
      · cases h
      · next hpending =>
        obtain rfl := List.eq_nil_of_length_eq_zero (not_not.mp hrest)
        exact ⟨pending.length, hlt, by
          simpa [bits] using hany.mp (Bool.eq_false_iff.mpr hpending)⟩
  · rintro ⟨padding, hpadding, hbits⟩
    have hlen := congrArg List.length hbits
    simp only [bits, List.length_append, Bits.length_ofBytes, List.length_replicate] at hlen
    -- A byte in `rest` would be eight bits more than `padding`.
    obtain rfl := List.eq_nil_of_length_eq_zero (show rest.length = 0 by omega)
    simp only [bits, Bits.ofBytes_nil, List.append_nil] at hbits
    subst hbits
    simp [finish]

end BitReader

namespace BitWriter

/-! ## The bits written -/

theorem write_eq_ok {count : Nat} (h : count ≤ Bits.wordWidth) (writer : BitWriter)
    (value : Nat) : writer.write value count = .ok (writer.append (Bits.ofNat count value)) :=
  if_pos h

theorem bits_foldl_append {α : Type} (spell : α → List Bool) (items : List α)
    (writer : BitWriter) :
    (items.foldl (fun writer item => writer.append (spell item)) writer).bits =
      writer.bits ++ items.flatMap spell := by
  induction items generalizing writer with
  | nil => simp
  | cons item items ih => simp [ih]

/-- The last byte is filled up with zeros by `toBytes`, and only that one. -/
theorem isPadded_toBytes (writer : BitWriter) : Bits.IsPadded writer.bits writer.toBytes := by
  obtain ⟨bytes, pending, hlt⟩ := writer
  cases pending with
  | nil => exact ⟨0, by decide, by simp [bits, toBytes]⟩
  | cons bit pending =>
    refine ⟨8 - (bit :: pending).length, by simp only [List.length_cons]; omega, ?_⟩
    have hbyte : Bits.toByte (bit :: pending) =
        Bits.toByte (bit :: pending ++ List.replicate (8 - (bit :: pending).length) false) := by
      rw [Bits.toByte, Bits.toByte, Bits.toNat_append, Bits.toNat_replicate_false,
        Nat.mul_zero, Nat.add_zero]
    have h8 : (bit :: pending ++
        List.replicate (8 - (bit :: pending).length) false).length = 8 := by
      rw [List.length_append, List.length_replicate]
      omega
    simp only [bits, toBytes, List.isEmpty_cons, Bool.false_eq_true, ↓reduceIte,
      Bits.ofBytes_append, Bits.ofBytes_cons, Bits.ofBytes_nil, List.append_nil]
    rw [hbyte, Bits.ofByte_toByte h8, List.append_assoc]

end BitWriter

end RoadTraffic
