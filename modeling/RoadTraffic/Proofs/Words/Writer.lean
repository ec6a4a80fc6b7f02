import Mathlib
import RoadTraffic.Proofs.Gamma
import RoadTraffic.Proofs.Words.Arithmetic
import RoadTraffic.Words.Stream

/-!
# Writing bits in machine words

A buffer is filled like a list of bits: no operation on words that this takes is ever stopped, and
the bytes of the buffer are the bits written to it, filled up with zeros.

* `BitBuffer.Holds buffer bits`: the bits that were written to a buffer.
* `BitBuffer.isPadded_setLast`: what a piece of a field makes of the last byte.
* `BitBuffer.runs_write`/`runs_writeBit`/`runs_writeGamma`: the bits that each operation adds.
-/

namespace RoadTraffic

namespace Bits

/-! ## Fields in pieces -/

theorem ofNat_add (a b n : Nat) : ofNat (a + b) n = ofNat a n ++ ofNat b (n / 2 ^ a) := by
  induction a generalizing n with
  | zero => simp [ofNat]
  | succ a ih =>
    rw [Nat.succ_add_eq_add_succ, Nat.add_succ, ofNat, ofNat, ih, Nat.div_div_eq_div_mul,
      Nat.pow_succ, Nat.mul_comm 2, List.cons_append]

theorem toNat_toByte {bits : List Bool} (h : bits.length ≤ 8) :
    (toByte bits).toNat = toNat bits := by
  have hlt : toNat bits < 2 ^ 8 :=
    Nat.lt_of_lt_of_le (toNat_lt bits) (Nat.pow_le_pow_right (by decide) h)
  rw [toByte, UInt8.toNat_ofNat', Nat.mod_eq_of_lt hlt]

/-- The eight bits of `ofByte` are those that `toByte` was given, and then zeros. -/
theorem ofByte_toByte_of_le {bits : List Bool} (h : bits.length ≤ 8) :
    ofByte (toByte bits) = bits ++ List.replicate (8 - bits.length) false := by
  have hlength : (bits ++ List.replicate (8 - bits.length) false).length = 8 := by
    rw [List.length_append, List.length_replicate]
    omega
  have hbyte : toByte bits = toByte (bits ++ List.replicate (8 - bits.length) false) := by
    rw [toByte, toByte, toNat_append, toNat_replicate_false, Nat.mul_zero, Nat.add_zero]
  rw [hbyte, ofByte_toByte hlength]

/-- Bits that are set above those `pending` in a byte follow them. -/
theorem toByte_or {pending more : List Bool} {piece : BitVec 8}
    (hroom : pending.length + more.length ≤ 8)
    (hpiece : piece.toNat = 2 ^ pending.length * toNat more) :
    toByte pending ||| UInt8.ofBitVec piece = toByte (pending ++ more) := by
  have hpending := toNat_lt pending
  rw [← UInt8.toNat_inj, UInt8.toNat_or, toNat_toByte (by omega),
    toNat_toByte (by rw [List.length_append]; exact hroom), UInt8.toNat_ofBitVec, hpiece,
    toNat_append, Nat.or_comm, ← Nat.two_pow_add_eq_or_of_lt hpending, Nat.add_comm]

end Bits

namespace BitBuffer

variable {buffer : BitBuffer} {bits : List Bool}

/-- The `bits` written so far, those of the header included: the bytes are filled up with zeros, and
`used` counts the bits of the last one that are taken. -/
structure Holds (buffer : BitBuffer) (bits : List Bool) : Prop where
  isPadded : Bits.IsPadded bits buffer.bytes.toList
  used_eq : buffer.used.toNat = bits.length % 8

theorem holds_new (header : Bytes) : (new header).Holds (Bits.ofBytes header) where
  isPadded := ⟨0, by decide, by simp [new]⟩
  used_eq := by simp [new]

/-! ## The last byte -/

/-- There is a last byte, and the bits `pending` that are taken of it are the last ones. -/
theorem Holds.exists_pending (h : buffer.Holds bits) : ∃ whole pending,
    buffer.opened.toList = whole ++ [Bits.toByte pending] ∧
      bits = Bits.ofBytes whole ++ pending ∧ pending.length = buffer.used.toNat := by
  obtain ⟨padding, hpadding, hbits⟩ := h.isPadded
  have hused := h.used_eq
  have hlength := congrArg List.length hbits
  rw [Bits.length_ofBytes, List.length_append, List.length_replicate] at hlength
  -- Either the last byte is full, and a new one is opened, or some of it is still free.
  by_cases hzero : buffer.used.toNat = 0
  · obtain rfl : padding = 0 := by omega
    refine ⟨buffer.bytes.toList, [], ?_, by simpa using hbits.symm, hzero.symm⟩
    rw [opened, if_pos (Word.eq_zero_iff.mpr hzero), Array.toList_push]
    rfl
  · have hne : buffer.bytes.toList ≠ [] := fun hnil => by
      rw [hnil, List.length_nil] at hlength
      omega
    have hlast := List.dropLast_append_getLast hne
    have hcount : (buffer.bytes.toList.dropLast).length + 1 = buffer.bytes.toList.length := by
      rw [← congrArg List.length hlast, List.length_append, List.length_singleton]
    rw [← hlast, Bits.ofBytes_append, Bits.ofBytes_cons, Bits.ofBytes_nil, List.append_nil] at hbits
    -- The bits before the last byte are whole bytes, so that the rest of them is in that byte.
    have hwhole : Bits.ofBytes buffer.bytes.toList.dropLast <+: bits :=
      List.prefix_of_prefix_length_le ⟨_, hbits⟩ (List.prefix_append bits _)
        (by rw [Bits.length_ofBytes]; omega)
    obtain ⟨pending, rfl⟩ := hwhole
    rw [List.append_assoc, List.append_right_inj] at hbits
    rw [List.length_append, Bits.length_ofBytes] at hused hlength
    have hbyte : Bits.toByte pending = buffer.bytes.toList.getLast hne := by
      rw [← Bits.toByte_ofByte (buffer.bytes.toList.getLast hne), hbits, Bits.toByte, Bits.toByte,
        Bits.toNat_append, Bits.toNat_replicate_false, Nat.mul_zero, Nat.add_zero]
    refine ⟨_, pending, ?_, rfl, by omega⟩
    rw [opened, if_neg (mt Word.eq_zero_iff.mp hzero), hbyte, hlast]

/-- A `piece` that fits into what is left of the last byte is set behind the bits in it. -/
theorem isPadded_setLast {bytes : Array UInt8} {whole : Bytes} {pending more : List Bool}
    {piece : BitVec 8} (hbytes : bytes.toList = whole ++ [Bits.toByte pending])
    (hpos : 0 < more.length) (hroom : pending.length + more.length ≤ 8)
    (hpiece : piece.toNat = 2 ^ pending.length * Bits.toNat more) :
    Bits.IsPadded (Bits.ofBytes whole ++ pending ++ more) (setLast bytes piece).toList := by
  have hsize : bytes.size - 1 = whole.length := by
    rw [← Array.length_toList, hbytes, List.length_append, List.length_singleton,
      Nat.add_sub_cancel]
  have hlast : (setLast bytes piece).toList = whole ++ [Bits.toByte (pending ++ more)] := by
    rw [setLast, Array.toList_modify, hbytes, hsize, List.modify_eq_take_drop, List.take_left,
      List.drop_left, List.modifyHead_cons, Bits.toByte_or hroom hpiece]
  have hlength : (pending ++ more).length ≤ 8 := by rw [List.length_append]; exact hroom
  refine ⟨8 - (pending ++ more).length, by rw [List.length_append]; omega, ?_⟩
  rw [hlast, Bits.ofBytes_append, Bits.ofBytes_cons, Bits.ofBytes_nil, List.append_nil,
    Bits.ofByte_toByte_of_le hlength]
  simp only [List.append_assoc]

/-- The same, told of the whole buffer: `take` more bits are held. -/
theorem Holds.append_piece {piece : BitVec 8} {used : BitVec 32} {take value : Nat}
    (h : buffer.Holds bits) (hpos : 0 < take) (hroom : buffer.used.toNat + take ≤ 8)
    (hpiece : piece.toNat = 2 ^ buffer.used.toNat * (value % 2 ^ take))
    (hused : used.toNat = buffer.used.toNat + take) (hlt : (used % 8).toNat < 8) :
    Holds ⟨setLast buffer.opened piece, used % 8, hlt⟩ (bits ++ Bits.ofNat take value) := by
  obtain ⟨whole, pending, hopened, rfl, hpending⟩ := h.exists_pending
  constructor
  · exact isPadded_setLast hopened (by rwa [Bits.length_ofNat])
      (by rwa [Bits.length_ofNat, hpending]) (by rw [hpiece, hpending, Bits.toNat_ofNat])
  · have hwhole := Bits.length_ofBytes whole
    change (used % 8).toNat = _
    rw [BitVec.toNat_umod, hused, List.length_append, List.length_append, Bits.length_ofNat,
      hwhole, hpending]
    change (_ + take) % 8 = _
    omega

/-! ## Fields -/

/-- What a shift and two masks leave of a word fits into the byte. -/
theorem toNat_shiftLeft_and (value : Word) {mask : Word} {take used : Nat}
    (hmask : mask.toNat = 2 ^ take - 1) (hroom : used + take ≤ 8) :
    ((value &&& mask).setWidth 8 <<< used).toNat = 2 ^ used * (value.toNat % 2 ^ take) := by
  have hlow : value.toNat % 2 ^ take < 2 ^ take := Nat.mod_lt _ (Nat.two_pow_pos take)
  have hbyte : 2 ^ take ≤ 2 ^ 8 := Nat.pow_le_pow_right (by decide) (by omega)
  have hhigh : 2 ^ used * (value.toNat % 2 ^ take) < 2 ^ 8 :=
    calc 2 ^ used * (value.toNat % 2 ^ take) < 2 ^ used * 2 ^ take :=
          Nat.mul_lt_mul_of_pos_left hlow (Nat.two_pow_pos used)
      _ = 2 ^ (used + take) := (Nat.pow_add 2 used take).symm
      _ ≤ 2 ^ 8 := Nat.pow_le_pow_right (by decide) hroom
  rw [BitVec.toNat_shiftLeft, BitVec.toNat_setWidth, BitVec.toNat_and, hmask,
    Nat.and_two_pow_sub_one_eq_mod, Nat.mod_eq_of_lt (hlow.trans_le hbyte), Nat.shiftLeft_eq,
    Nat.mul_comm, Nat.mod_eq_of_lt hhigh]

/-- As many bits as there is room for (`take`) are taken off the lower end of a field, and `hnext`
goes on with the rest. -/
theorem runs_writeFrom_piece {value : Word} {count : BitVec 32} {R : BitBuffer → Prop}
    (h : buffer.Holds bits) (hcount : count.toNat ≤ 64) (hmore : 0 < count.toNat)
    (hnext : ∀ (take : Nat) (buffer' : BitBuffer) (value' : Word) (count' : BitVec 32),
      0 < take → count.toNat = take + count'.toNat → value'.toNat = value.toNat / 2 ^ take →
      buffer'.Holds (bits ++ Bits.ofNat take value.toNat) →
      Runs (buffer'.writeFrom value' count') R) :
    Runs (buffer.writeFrom value count) R := by
  have hused := buffer.used_lt
  have height : (8 : BitVec 32).toNat = 8 := rfl
  rw [writeFrom, dif_pos hmore]
  refine Runs.sub (by omega) ?_
  rintro ⟨room, hroom⟩
  have htake := Word.toNat_least room count
  dsimp only
  generalize Word.least room count = take at htake ⊢
  refine Runs.lowMask (by omega) fun mask hmask => ?_
  refine Runs.shiftLeft (by omega) (Runs.add (by omega) ?_)
  rintro ⟨used, husedEq⟩
  refine Runs.shiftRight (by omega) (Runs.sub (by omega) ?_)
  rintro ⟨count', hcountEq⟩
  have hpiece := toNat_shiftLeft_and value hmask
    (show buffer.used.toNat + take.toNat ≤ 8 by omega)
  refine hnext take.toNat _ _ count' (by omega) (by omega) ?_
    (h.append_piece (by omega) (by omega) hpiece husedEq _)
  rw [BitVec.toNat_ushiftRight, Nat.shiftRight_eq_div_pow]

theorem runs_writeFrom (value : Word) {count : BitVec 32} (h : buffer.Holds bits)
    (hcount : count.toNat ≤ 64) :
    Runs (buffer.writeFrom value count) fun buffer' =>
      buffer'.Holds (bits ++ Bits.ofNat count.toNat value.toNat) := by
  induction hleft : count.toNat using Nat.strongRecOn generalizing buffer bits value count with
  | _ left ih =>
    by_cases hmore : 0 < count.toNat
    · refine runs_writeFrom_piece h hcount hmore ?_
      intro take buffer' value' count' hpos hsplit hvalue' h'
      obtain rfl : left = take + count'.toNat := by omega
      rw [Bits.ofNat_add, ← hvalue', ← List.append_assoc]
      exact ih count'.toNat (by omega) _ h' (by omega) rfl
    · rw [writeFrom, dif_neg hmore]
      obtain rfl : left = 0 := by omega
      exact Runs.ok (by simpa [Bits.ofNat] using h)

theorem runs_write (value : Word) {count : BitVec 32} (h : buffer.Holds bits)
    (hcount : count.toNat ≤ 64) :
    Runs (buffer.write value count) fun buffer' =>
      buffer'.Holds (bits ++ Bits.ofNat count.toNat value.toNat) := by
  rw [write, if_neg (by omega)]
  by_cases hlt : count.toNat < 64
  · rw [if_pos hlt]
    refine Runs.lowMask hlt fun mask hmask => ?_
    have hlow := runs_writeFrom (value &&& mask) h hcount
    rwa [BitVec.toNat_and, hmask, Nat.and_two_pow_sub_one_eq_mod, Bits.ofNat_mod] at hlow
  · rw [if_neg hlt]
    exact runs_writeFrom value h hcount

theorem runs_writeBit (h : buffer.Holds bits) (bit : Bool) :
    Runs (buffer.writeBit bit) fun buffer' => buffer'.Holds (bits ++ [bit]) := by
  have hwrite := runs_write (if bit then 1 else 0) h (show (1 : BitVec 32).toNat ≤ 64 by decide)
  cases bit <;> exact hwrite

/-- The highest bit is at place 63 at most, so that one place more is a width. -/
theorem runs_writeGamma {value : Word} (h : buffer.Holds bits) (hpos : 0 < value.toNat) :
    Runs (buffer.writeGamma value) fun buffer' =>
      buffer'.Holds (bits ++ Gamma.bits value.toNat) := by
  have hlog : value.toNat.log2 < 64 := Gamma.log2_lt_wordWidth hpos value.isLt
  have hzeros := Word.toNat_count hlog.le
  have hone : (1 : BitVec 32).toNat = 1 := rfl
  refine Runs.log2 hpos (Runs.shiftLeft (by omega) (Runs.add (by omega) ?_))
  rintro ⟨width, hwidth⟩
  rw [hzeros, hone] at hwidth
  dsimp only
  refine (runs_write _ h (by omega)).bind fun buffer₁ h₁ => ?_
  refine (runs_write _ h₁ (by omega)).imp fun buffer₂ h₂ => ?_
  rw [Word.toNat_one_shiftLeft (by omega), hwidth, hzeros, Bits.ofNat_two_pow, List.append_assoc,
    List.append_assoc] at h₂
  exact h₂

end BitBuffer

end RoadTraffic
