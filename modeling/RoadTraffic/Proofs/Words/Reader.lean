import Mathlib
import RoadTraffic.Proofs.Gamma
import RoadTraffic.Proofs.Words.Arithmetic
import RoadTraffic.Words.Stream

/-!
# Reading bits in machine words

A cursor is read like a list of bits: no operation on words that this takes is ever stopped, and
what is read is the same, faults included, as long as the number of bits fits in a word.

* `BitCursor.Views cursor reader`: a cursor and a reader have the same bits ahead.
* `BitCursor.Agree`: what they bring is the same, and so are the bits ahead afterwards.
* `BitCursor.runs_readFrom`: what the pieces of a field amount to.
* `BitCursor.runs_read`/`runs_readBit`/`runs_readGamma`/`runs_finish`: each operation does what
  that of the reader does.
-/

namespace RoadTraffic

namespace Bits

/-! ## Pieces of bytes -/

theorem toNat_eq_zero_iff {bits : List Bool} : toNat bits = 0 ↔ true ∉ bits := by
  induction bits with
  | nil => simp [toNat]
  | cons bit bits ih => cases bit <;> simp [toNat, ih]

theorem toNat_drop (bits : List Bool) (count : Nat) :
    toNat (bits.drop count) = toNat bits / 2 ^ count := by
  induction count generalizing bits with
  | zero => simp
  | succ count ih =>
    cases bits with
    | nil => simp [toNat]
    | cons bit bits =>
      have hbit : bit.toNat < 2 := bit.toNat_lt
      rw [List.drop_succ_cons, ih, toNat, Nat.pow_succ, Nat.mul_comm (2 ^ count),
        ← Nat.div_div_eq_div_mul]
      congr 1
      omega

theorem toNat_take (bits : List Bool) (count : Nat) :
    toNat (bits.take count) = toNat bits % 2 ^ count := by
  by_cases h : count ≤ bits.length
  · have hsplit := toNat_append (bits.take count) (bits.drop count)
    have hlt := toNat_lt (bits.take count)
    rw [List.take_append_drop, List.length_take_of_le h] at hsplit
    rw [List.length_take_of_le h] at hlt
    rw [hsplit, Nat.add_mul_mod_self_left, Nat.mod_eq_of_lt hlt]
  · have hlt : toNat bits < 2 ^ count :=
      Nat.lt_of_lt_of_le (toNat_lt bits) (Nat.pow_le_pow_right (by decide) (by omega))
    rw [List.take_of_length_le (by omega), Nat.mod_eq_of_lt hlt]

theorem toNat_take_lt (bits : List Bool) (count : Nat) : toNat (bits.take count) < 2 ^ count := by
  rw [toNat_take]
  exact Nat.mod_lt _ (Nat.two_pow_pos count)

theorem toNat_take_add {bits : List Bool} {low : Nat} (high : Nat) (h : low ≤ bits.length) :
    toNat (bits.take (low + high)) =
      toNat (bits.take low) + 2 ^ low * toNat ((bits.drop low).take high) := by
  rw [List.take_add, toNat_append, List.length_take_of_le h]

theorem toNat_ofByte (byte : UInt8) : toNat (ofByte byte) = byte.toNat := by
  rw [ofByte, toNat_ofNat]
  exact Nat.mod_eq_of_lt byte.toNat_lt

/-- From `place` on there is the rest of a byte, and then whole bytes. -/
theorem drop_ofBytes {bytes : Bytes} {place : Nat} (h : place / 8 < bytes.length) :
    (ofBytes bytes).drop place =
      (ofByte bytes[place / 8]).drop (place % 8) ++ ofBytes (bytes.drop (place / 8 + 1)) := by
  have hlength : (ofBytes (bytes.take (place / 8))).length = 8 * (place / 8) := by
    rw [length_ofBytes, List.length_take_of_le h.le]
  have hbytes :
      bytes.take (place / 8) ++ bytes[place / 8] :: bytes.drop (place / 8 + 1) = bytes := by
    rw [List.getElem_cons_drop, List.take_append_drop]
  calc (ofBytes bytes).drop place
      = (ofBytes (bytes.take (place / 8) ++ bytes[place / 8] :: bytes.drop (place / 8 + 1))).drop
          (8 * (place / 8) + place % 8) := by rw [hbytes, Nat.div_add_mod]
    _ = (ofByte bytes[place / 8] ++ ofBytes (bytes.drop (place / 8 + 1))).drop (place % 8) := by
        rw [ofBytes_append, ← hlength, List.drop_length_add_append, ofBytes_cons]
    _ = _ := List.drop_append_of_le_length (by rw [length_ofByte]; omega)

/-- A piece of the byte at hand, by a shift (`/ 2 ^ (place % 8)`) and a remainder
(`% 2 ^ count`). -/
theorem toNat_piece {bytes : Bytes} {place count : Nat} (h : place / 8 < bytes.length)
    (hcount : count ≤ 8 - place % 8) :
    toNat (((ofBytes bytes).drop place).take count) =
      bytes[place / 8].toNat / 2 ^ (place % 8) % 2 ^ count := by
  rw [drop_ofBytes h, List.take_append_of_le_length
    (by rw [List.length_drop, length_ofByte]; exact hcount), toNat_take, toNat_drop, toNat_ofByte]

end Bits

namespace BitCursor

variable {cursor : BitCursor} {reader : BitReader}

/-- The `cursor` and the `reader` have the same bits ahead. There are so few that a word can tell
their number, and the cursor has not gone past them. -/
structure Views (cursor : BitCursor) (reader : BitReader) : Prop where
  fits : cursor.bytes.length * 8 < 2 ^ 64
  within : cursor.position.toNat ≤ cursor.bytes.length * 8
  ahead : reader.bits = (Bits.ofBytes cursor.bytes).drop cursor.position.toNat

theorem views_new {bytes : Bytes} (h : bytes.length * 8 < 2 ^ 64) :
    (new bytes).Views (.new bytes) where
  fits := h
  within := Nat.zero_le _
  ahead := rfl

theorem Views.remaining_eq (h : cursor.Views reader) :
    reader.remaining = cursor.bytes.length * 8 - cursor.position.toNat := by
  rw [← BitReader.length_bits, h.ahead, List.length_drop, Bits.length_ofBytes, Nat.mul_comm]

theorem runs_remaining (h : cursor.Views reader) :
    Runs cursor.remaining fun ahead => ahead.toNat = reader.remaining := by
  have hfits := h.fits
  have hwithin := h.within
  refine Runs.lengthInBits hfits fun length bits hbits => ?_
  refine Runs.sub (by rw [hbits]; exact hwithin) fun ahead => Runs.pure ?_
  rw [ahead.2, hbits, h.remaining_eq]

/-! ## Fields -/

/-- One more `piece` of a field is set above the `filled` bits that are already there. -/
theorem toNat_or_shiftLeft {value piece : Word} {filled take : Nat}
    (hvalue : value.toNat < 2 ^ filled) (hpiece : piece.toNat < 2 ^ take)
    (hwidth : filled + take ≤ 64) :
    (value ||| piece <<< filled).toNat = value.toNat + 2 ^ filled * piece.toNat := by
  have hlt : piece.toNat * 2 ^ filled < 2 ^ 64 :=
    calc piece.toNat * 2 ^ filled < 2 ^ take * 2 ^ filled :=
          Nat.mul_lt_mul_of_pos_right hpiece (Nat.two_pow_pos filled)
      _ = 2 ^ (filled + take) := by rw [Nat.pow_add, Nat.mul_comm]
      _ ≤ 2 ^ 64 := Nat.pow_le_pow_right (by decide) hwidth
  rw [BitVec.toNat_or, BitVec.toNat_shiftLeft, Nat.shiftLeft_eq, Nat.mod_eq_of_lt hlt,
    Nat.or_comm, Nat.mul_comm piece.toNat, ← Nat.two_pow_add_eq_or_of_lt hvalue, Nat.add_comm]

/-- A shift and a `mask` leave of a `byte` what the list of bits has there. -/
theorem toNat_shiftRight_and {bytes : Bytes} {position mask : Word} {byte : UInt8} {take : Nat}
    (hplace : position.toNat / 8 < bytes.length) (hbyte : byte = bytes[position.toNat / 8])
    (hmask : mask.toNat = 2 ^ take - 1) (htake : take ≤ 8 - position.toNat % 8) :
    (byte.toBitVec.setWidth 64 >>> (Word.bitOffset position).toNat &&& mask).toNat =
      Bits.toNat (((Bits.ofBytes bytes).drop position.toNat).take take) := by
  rw [Bits.toNat_piece hplace htake, ← hbyte, BitVec.toNat_and, hmask, BitVec.toNat_ushiftRight,
    BitVec.toNat_setWidth_of_le (by decide), UInt8.toNat_toBitVec, Word.toNat_bitOffset,
    Nat.and_two_pow_sub_one_eq_mod, Nat.shiftRight_eq_div_pow]

/-- What the byte at hand has of a field is one piece of it: `take` bits, up to the end of the byte
or of the field. -/
theorem runs_readFrom_piece {count filled : BitVec 32} {value : Word} {cursor : BitCursor}
    {R : Word × BitCursor → Prop} (hcount : count.toNat ≤ 64) (hmore : filled.toNat < count.toNat)
    (hvalue : value.toNat < 2 ^ filled.toNat) (hfits : cursor.bytes.length * 8 < 2 ^ 64)
    (hroom : cursor.position.toNat + (count.toNat - filled.toNat) ≤ cursor.bytes.length * 8)
    (hnext : ∀ (take : Nat) (filled' : BitVec 32) (value' position' : Word),
      take = min (8 - cursor.position.toNat % 8) (count.toNat - filled.toNat) →
      filled'.toNat = filled.toNat + take → position'.toNat = cursor.position.toNat + take →
      value'.toNat = value.toNat + 2 ^ filled.toNat *
        Bits.toNat (((Bits.ofBytes cursor.bytes).drop cursor.position.toNat).take take) →
      Runs (readFrom count filled' value' { cursor with position := position' }) R) :
    Runs (readFrom count filled value cursor) R := by
  have hbyte : (cursor.position / 8).toNat = cursor.position.toNat / 8 := BitVec.toNat_udiv
  have hplace : cursor.position.toNat / 8 < cursor.bytes.length := by omega
  have hoffset := Word.toNat_bitOffset cursor.position
  have height : (8 : BitVec 32).toNat = 8 := rfl
  rw [readFrom, dif_pos hmore]
  refine Runs.item (by rw [hbyte]; exact hplace) (Runs.sub (by omega) ?_)
  rintro ⟨room, hroomEq⟩
  refine Runs.sub (by omega) ?_
  rintro ⟨wanted, hwanted⟩
  have htake := Word.toNat_least room wanted
  dsimp only
  generalize Word.least room wanted = take at htake ⊢
  refine Runs.shiftRight (by omega) (Runs.lowMask (by omega) fun mask hmask => ?_)
  refine Runs.shiftLeft (by omega) (Runs.add (by omega) ?_)
  rintro ⟨filled', hfilled'⟩
  have hwide : (take.setWidth 64).toNat = take.toNat := BitVec.toNat_setWidth_of_le (by decide)
  refine Runs.add (by omega) ?_
  rintro ⟨position', hposition'⟩
  rw [hwide] at hposition'
  have hpiece := toNat_shiftRight_and hplace
    (show cursor.bytes[(cursor.position / 8).toNat] = _ by simp only [hbyte]) hmask (by omega)
  have hor := toNat_or_shiftLeft hvalue (hpiece.trans_lt (Bits.toNat_take_lt _ _)) (by omega)
  rw [hpiece] at hor
  exact hnext take.toNat filled' _ position' (by omega) hfilled' hposition' hor

/-- The pieces of a field are put together in order, none of them beyond the end of the bytes or of
the word. The induction is on how many bits are left to read. -/
theorem runs_readFrom {count filled : BitVec 32} {value : Word} {cursor : BitCursor}
    (hcount : count.toNat ≤ 64) (hfilled : filled.toNat ≤ count.toNat)
    (hvalue : value.toNat < 2 ^ filled.toNat) (hfits : cursor.bytes.length * 8 < 2 ^ 64)
    (hroom : cursor.position.toNat + (count.toNat - filled.toNat) ≤ cursor.bytes.length * 8) :
    Runs (readFrom count filled value cursor) fun result =>
      result.2.bytes = cursor.bytes ∧
      result.2.position.toNat = cursor.position.toNat + (count.toNat - filled.toNat) ∧
      result.1.toNat = value.toNat + 2 ^ filled.toNat * Bits.toNat
        (((Bits.ofBytes cursor.bytes).drop cursor.position.toNat).take
          (count.toNat - filled.toNat)) := by
  induction hleft : count.toNat - filled.toNat using Nat.strongRecOn
    generalizing filled value cursor with
  | _ left ih =>
    by_cases hmore : filled.toNat < count.toNat
    -- One piece is read, and `ih` is about the bits after it.
    · refine runs_readFrom_piece hcount hmore hvalue hfits (by omega) ?_
      intro take filled' value' position' htake hfilled' hposition' hvalue'
      have hlength : take ≤ ((Bits.ofBytes cursor.bytes).drop cursor.position.toNat).length := by
        rw [List.length_drop, Bits.length_ofBytes]
        omega
      obtain rfl : left = take + (count.toNat - filled'.toNat) := by omega
      refine (ih (count.toNat - filled'.toNat) (by omega) (by omega) ?_ (by exact hfits)
        (by dsimp only; omega) rfl).imp ?_
      · rw [hvalue', hfilled', Nat.pow_add]
        calc value.toNat + 2 ^ filled.toNat * _
            < 2 ^ filled.toNat + 2 ^ filled.toNat * _ := Nat.add_lt_add_right hvalue _
          _ = 2 ^ filled.toNat * (_ + 1) := (Nat.add_comm _ _).trans (Nat.mul_succ _ _).symm
          _ ≤ 2 ^ filled.toNat * 2 ^ take := Nat.mul_le_mul_left _ (Bits.toNat_take_lt _ take)
      · rintro ⟨result, cursor'⟩ ⟨hbytes, hstop, hresult⟩
        dsimp only at hbytes hstop hresult ⊢
        refine ⟨hbytes, by omega, ?_⟩
        rw [hresult, hvalue', hposition', hfilled', Nat.pow_add, Bits.toNat_take_add _ hlength,
          List.drop_drop]
        ring
    · rw [readFrom, dif_neg hmore]
      obtain rfl : left = 0 := by omega
      exact Runs.ok ⟨rfl, rfl, by simp [Bits.toNat]⟩

/-! ## What is read -/

/-- What a cursor and a reader bring is the `same`, and they view the same bits afterwards. -/
def Agree {α β : Type} (same : α → β) (result : Except BitError α × BitCursor)
    (result' : Except BitError β × BitReader) : Prop :=
  result.1.map same = result'.1 ∧ result.2.Views result'.2

theorem runs_read (h : cursor.Views reader) (count : BitVec 32) (hcount : count.toNat ≤ 64) :
    Runs (cursor.read count) fun result => Agree BitVec.toNat result (reader.read count.toNat) := by
  have hlength := reader.length_bits
  have hremaining := h.remaining_eq
  have hwithin := h.within
  rw [read, if_neg (by omega)]
  refine (runs_remaining h).bind fun available havailable => ?_
  by_cases hroom : reader.bits.length < count.toNat
  · rw [if_pos (by omega), BitReader.read_of_lt hcount hroom, havailable]
    exact Runs.pure ⟨rfl, h⟩
  · obtain ⟨reader', hread, hbits⟩ := BitReader.read_of_le hcount (Nat.not_lt.mp hroom)
    rw [if_neg (by omega), hread]
    refine (runs_readFrom hcount (Nat.zero_le _) (by simp) h.fits (by simp; omega)).bind ?_
    rintro ⟨value, cursor'⟩ ⟨hbytes, hposition, hvalue⟩
    have hzero : (0 : BitVec 32).toNat = 0 := rfl
    have hword : (0 : Word).toNat = 0 := rfl
    dsimp only at hbytes hposition hvalue
    rw [hzero, Nat.sub_zero] at hposition hvalue
    rw [hword, Nat.zero_add, Nat.pow_zero, Nat.one_mul, ← h.ahead] at hvalue
    refine Runs.pure ⟨congrArg Except.ok hvalue, by rw [hbytes]; exact h.fits, ?_, ?_⟩
    · rw [hbytes, hposition]
      omega
    · rw [hbits, hbytes, hposition, h.ahead, List.drop_drop]

/-- What is done after a read (`f`) depends on whether it brought anything. -/
theorem runs_bind_of_agree {α β γ : Type} {same : α → β}
    {x : Checked (Except BitError α × BitCursor)} {result' : Except BitError β × BitReader}
    {f : Except BitError α × BitCursor → Checked γ} {R : γ → Prop}
    (hx : Runs x (Agree same · result'))
    (herror : ∀ e cursor' reader', result' = (.error e, reader') → cursor'.Views reader' →
      Runs (f (.error e, cursor')) R)
    (hok : ∀ a cursor' reader', result' = (.ok (same a), reader') → cursor'.Views reader' →
      Runs (f (.ok a, cursor')) R) : Runs (x >>= f) R := by
  refine hx.bind ?_
  rintro ⟨result, cursor'⟩ ⟨hresult, hviews⟩
  cases result with
  | error e => exact herror e cursor' _ (Prod.ext hresult.symm rfl) hviews
  | ok a => exact hok a cursor' _ (Prod.ext hresult.symm rfl) hviews

theorem runs_readBit (h : cursor.Views reader) :
    Runs cursor.readBit fun result => Agree id result reader.readBit := by
  unfold BitReader.readBit
  refine runs_bind_of_agree (runs_read h 1 (by decide)) ?_ ?_
  · intro e cursor' reader' hread hviews
    rw [show reader.read 1 = (.error e, reader') from hread]
    exact Runs.pure ⟨rfl, hviews⟩
  · intro value cursor' reader' hread hviews
    rw [show reader.read 1 = (.ok value.toNat, reader') from hread]
    have hbit : (value == 1) = (value.toNat == 1) := by
      rw [Bool.eq_iff_iff, beq_iff_eq, beq_iff_eq]
      exact (BitVec.toNat_inj (y := 1)).symm
    exact Runs.pure ⟨congrArg Except.ok hbit, hviews⟩

/-- Fewer than 64 zeros are counted before a code is given up, so that its highest bit
(`1 <<< zeros`) fits in a word, and so does what is below it. -/
theorem runs_readGammaFrom {zeros : BitVec 32} {budget : Nat} (h : cursor.Views reader)
    (hbudget : zeros.toNat + (budget + 1) = 64) :
    Runs (readGammaFrom zeros cursor) fun result =>
      Agree BitVec.toNat result (BitReader.readGammaFrom zeros.toNat (budget + 1) reader) := by
  induction budget using Nat.strongRecOn generalizing zeros cursor reader with
  | _ budget ih =>
    rw [readGammaFrom, BitReader.readGammaFrom]
    have hone : (1 : BitVec 32).toNat = 1 := rfl
    refine runs_bind_of_agree (runs_readBit h) ?_ ?_
    · intro e cursor₁ reader₁ hbit hviews
      rw [hbit]
      exact Runs.pure ⟨rfl, hviews⟩
    rintro (_ | _) cursor₁ reader₁ hbit hviews <;> rw [hbit]
    · -- One zero more.
      refine Runs.add (by omega) ?_
      rintro ⟨zeros', hzeros⟩
      rw [hone] at hzeros
      dsimp only [id]
      cases budget with
      | zero =>
        rw [dif_pos (by omega), BitReader.readGammaFrom]
        exact Runs.pure ⟨rfl, hviews⟩
      | succ budget =>
        rw [dif_neg (by omega), ← hzeros]
        exact ih budget (by omega) hviews (by omega)
    · -- The zeros are over.
      refine Runs.shiftLeft (by omega) ?_
      refine runs_bind_of_agree (runs_read hviews zeros (by omega)) ?_ ?_
      · intro e cursor₂ reader₂ hlow hviews₂
        dsimp only [id]
        rw [hlow]
        exact Runs.pure ⟨rfl, hviews₂⟩
      · intro low cursor₂ reader₂ hlow hviews₂
        dsimp only [id]
        rw [hlow]
        refine Runs.pure ⟨congrArg Except.ok ?_, hviews₂⟩
        have hlt := (BitReader.read_eq_ok_iff.mp hlow).2.1
        have hor := toNat_or_shiftLeft hlt (show (1 : Word).toNat < 2 ^ 1 by decide) (by omega)
        rw [BitVec.or_comm, hor, Nat.one_shiftLeft, Nat.add_comm]
        exact congrArg (· + _) (Nat.mul_one _)

theorem runs_readGamma (h : cursor.Views reader) :
    Runs cursor.readGamma fun result => Agree BitVec.toNat result reader.readGamma :=
  runs_readGammaFrom h (show (0 : BitVec 32).toNat + (63 + 1) = 64 from rfl)

/-! ## The end -/

/-- In the last byte, a shift by the offset leaves something exactly if a bit is set ahead. -/
theorem shiftRight_eq_zero_iff (h : cursor.Views reader)
    (hplace : cursor.position.toNat / 8 < cursor.bytes.length)
    (hlast : cursor.bytes.length ≤ cursor.position.toNat / 8 + 1) :
    cursor.bytes[cursor.position.toNat / 8].toBitVec >>> (Word.bitOffset cursor.position).toNat =
      0 ↔ true ∉ reader.bits := by
  have hnone : cursor.bytes.drop (cursor.position.toNat / 8 + 1) = [] :=
    List.drop_eq_nil_of_le hlast
  rw [← Bits.toNat_eq_zero_iff, h.ahead, Bits.drop_ofBytes hplace, hnone, Bits.ofBytes_nil,
    List.append_nil, Bits.toNat_drop, Bits.toNat_ofByte, Word.eq_zero_iff, BitVec.toNat_ushiftRight,
    Nat.shiftRight_eq_div_pow, Word.toNat_bitOffset, UInt8.toNat_toBitVec]

/-- The byte in which the cursor stands is one of the bytes, and what is left of it is all that is
ahead. -/
theorem runs_finish (h : cursor.Views reader) :
    Runs cursor.finish fun result => result = reader.finish := by
  have hfits := h.fits
  have hwithin := h.within
  have hlength := reader.length_bits
  have hremaining := h.remaining_eq
  have hoffset := Word.toNat_bitOffset cursor.position
  have hone : (1 : Word).toNat = 1 := rfl
  rw [BitReader.finish_eq]
  refine Runs.byteCount fun consumed hconsumed => Runs.length (by omega) ?_
  rintro ⟨length, hlengthEq⟩
  dsimp only
  by_cases hwhole : consumed.toNat = length.toNat
  -- No whole byte is left: what remains to be looked at is the rest of the last one.
  · rw [if_neg (not_not.mpr hwhole), if_neg (show ¬ 8 ≤ reader.bits.length by omega)]
    by_cases haligned : (Word.bitOffset cursor.position).toNat = 0
    · have hnil : reader.bits = [] := List.eq_nil_of_length_eq_zero (by omega)
      rw [if_pos (Word.eq_zero_iff.mpr haligned), hnil]
      exact Runs.pure rfl
    · rw [if_neg (mt Word.eq_zero_iff.mp haligned)]
      refine Runs.sub (by omega) ?_
      rintro ⟨last, hlast⟩
      have hbyte : last.toNat = cursor.position.toNat / 8 := by omega
      refine Runs.item (by dsimp only; omega) (Runs.shiftRight (by omega) ?_)
      simp only [hbyte, shiftRight_eq_zero_iff h (by omega) (by omega), ite_not]
      split <;> exact Runs.pure rfl
  -- Whole bytes are left, and are counted.
  · rw [if_pos hwhole, if_pos (show 8 ≤ reader.bits.length by omega)]
    refine Runs.sub (by omega) fun left => Runs.pure ?_
    rw [left.2]
    exact congrArg _ (congrArg _ (by omega))

end BitCursor

end RoadTraffic
