import Mathlib
import RoadTraffic.Proofs.BitPlaces
import RoadTraffic.Proofs.FieldStream
import RoadTraffic.Proofs.Words.Writer

/-!
# Where written fields end up

Each field is written as one or two numbers of which some of the lowest bits count. Whatever was in
the buffer before, and however the numbers lie across its bytes, these bits follow one another in
new bytes, and what is left of the last byte is zero.

* `BitField.parts`/`written`: the numbers that are written for a field, and their bits, told without
  a word about bytes.
* `BitField.runs_writeInWords`/`runs_writeAllInWords`: one field, and fields one after the other, by
  the machine.
* `BitField.bytes_written`: every bit of every byte after fields were written.
-/

namespace RoadTraffic

/-- No bit of a field is beyond a word: the bits of `n` above it do not count. -/
theorem Bits.ofNat_mod_word {width : Nat} (h : width ≤ 64) (n : Nat) :
    ofNat width (n % 2 ^ 64) = ofNat width n := by
  rw [← ofNat_mod, Nat.mod_mod_of_dvd _ (Nat.pow_dvd_pow 2 h), ofNat_mod]

namespace BitField

/-! ## What is written -/

/-- The numbers that are written for a field, and how many bits of each: a gamma code is its zeros
and the one, and then the bits below the highest one. -/
def parts : BitField → List (Nat × Nat)
  | word width value => [(value, width)]
  | bit b => [(b.toNat, 1)]
  | gamma value => [(2 ^ value.log2, value.log2 + 1), (value, value.log2)]

/-- The lowest bits of a number, `part.2` of them, lowest first. -/
def lowBits (part : Nat × Nat) : List Bool := (List.range part.2).map part.1.testBit

/-- The bits that are written for fields, one number after the other. -/
def written (fields : List BitField) : List Bool := (fields.flatMap parts).flatMap lowBits

theorem lowBits_eq (value width : Nat) : lowBits (value, width) = Bits.ofNat width value :=
  (Bits.ofNat_eq_map_testBit width value).symm

theorem flatMap_lowBits_parts (field : BitField) : field.parts.flatMap lowBits = field.bits := by
  cases field with
  | word width value => simp [parts, bits, lowBits_eq]
  | bit b => cases b <;> rfl
  | gamma value =>
    simp only [parts, List.flatMap_cons, List.flatMap_nil, List.append_nil, lowBits_eq,
      Bits.ofNat_two_pow, bits, Gamma.bits]
    rw [List.append_assoc, List.singleton_append]

theorem written_eq (fields : List BitField) : written fields = fields.flatMap bits := by
  rw [written, List.flatMap_assoc]
  simp only [flatMap_lowBits_parts]

theorem length_written (fields : List BitField) :
    (written fields).length = ((fields.flatMap parts).map Prod.snd).sum := by
  have hlength : List.length ∘ lowBits = Prod.snd := by
    funext part
    simp [lowBits]
  rw [written, List.length_flatMap, ← hlength]
  rfl

/-- The bits of a value that have no place in its field are not written, so that `reduced` fields
are written alike. -/
theorem written_reduced (fields : List BitField) :
    written (fields.map reduced) = written fields := by
  rw [written_eq, written_eq, List.flatMap_map]
  simp only [bits_reduced]

/-! ## By the machine -/

/-- Writes one field in machine words. -/
def writeInWords (buffer : BitBuffer) : BitField → Checked BitBuffer
  | word width value => buffer.write (BitVec.ofNat 64 value) (BitVec.ofNat 32 width)
  | bit b => buffer.writeBit b
  | gamma value => buffer.writeGamma (BitVec.ofNat 64 value)

/-- Writes fields one after the other in machine words. -/
def writeAllInWords (buffer : BitBuffer) (fields : List BitField) : Checked BitBuffer :=
  fields.foldlM writeInWords buffer

variable {buffer : BitBuffer} {before : List Bool}

theorem runs_writeInWords (h : buffer.Holds before) {field : BitField} (hfield : field.IsWritable) :
    Runs (writeInWords buffer field) fun buffer' => buffer'.Holds (before ++ field.bits) := by
  cases field with
  | word width value =>
    have hwidth : width ≤ 64 := hfield
    have hcount := Word.toNat_count hwidth
    have hwrite := BitBuffer.runs_write (BitVec.ofNat 64 value) h (hcount.trans_le hwidth)
    rwa [hcount, BitVec.toNat_ofNat, Bits.ofNat_mod_word hwidth] at hwrite
  | bit b => exact BitBuffer.runs_writeBit h b
  | gamma value =>
    obtain ⟨hpos, hlt⟩ := hfield
    have hvalue : (BitVec.ofNat 64 value).toNat = value := by
      rw [BitVec.toNat_ofNat]
      exact Nat.mod_eq_of_lt hlt
    have hwrite := BitBuffer.runs_writeGamma h (hpos.trans_eq hvalue.symm)
    rw [hvalue] at hwrite
    exact hwrite

/-- The machine writes the bits of the `fields` one after the other, behind those `before`. -/
theorem runs_writeAllInWords (h : buffer.Holds before) {fields : List BitField}
    (hfields : ∀ field ∈ fields, field.IsWritable) :
    Runs (writeAllInWords buffer fields) fun buffer' =>
      buffer'.Holds (before ++ fields.flatMap bits) := by
  induction fields generalizing buffer before with
  | nil => exact Runs.pure (by simpa using h)
  | cons field fields ih =>
    rw [List.forall_mem_cons] at hfields
    rw [writeAllInWords, List.foldlM_cons, List.flatMap_cons, ← List.append_assoc]
    exact (runs_writeInWords h hfields.1).bind fun buffer' h' => ih h' hfields.2

/-! ## In the bytes -/

/-- **Where written fields end up.** Fields that are written behind `header` leave it as it is and
add as many bytes as their bits need. Every bit of these bytes (`Bits.bitAt body place`) is the bit
at its place among those `written`, or zero after the last one; a bit of a value that has no place
in its field is nowhere. The machine, which sets pieces of the numbers into bytes, is not stopped
and makes the same bytes. -/
theorem bytes_written (header : Bytes) {fields : List BitField}
    (h : ∀ field ∈ fields, field.IsWritable) : ∃ body : Bytes,
      (∃ writer, writeAll (.new header) fields = .ok writer ∧ writer.toBytes = header ++ body) ∧
      (∃ buffer, writeAllInWords (.new header) fields = .ok buffer ∧
        buffer.bytes.toList = header ++ body) ∧
      (written fields).length = ((fields.flatMap parts).map Prod.snd).sum ∧
      body.length = ((written fields).length + 7) / 8 ∧
      (∀ place, Bits.bitAt body place = (written fields).getD place false) ∧
      written (fields.map reduced) = written fields := by
  obtain ⟨writer, hwrite, hbits⟩ := exists_writeAll (.new header) h
  obtain ⟨buffer, hfill, hholds⟩ := runs_writeAllInWords (BitBuffer.holds_new header) h
  have hpadded := writer.isPadded_toBytes
  rw [hbits, BitWriter.bits_new, ← written_eq] at hpadded
  have hsame : buffer.bytes.toList = writer.toBytes :=
    (written_eq fields ▸ hholds.isPadded).unique hpadded
  obtain ⟨body, hbytes, hbody⟩ := hpadded.drop_header
  exact ⟨body, ⟨writer, hwrite, hbytes⟩, ⟨buffer, hfill, hsame.trans hbytes⟩,
    length_written fields, hbody.length_eq, hbody.bitAt_eq, written_reduced fields⟩

/-- Three bits of 13, a one, five bits of 24, the code of 6 and no bits of 7 behind a full byte:
14 bits in two bytes. -/
theorem bytes_written_behind_full_byte :
    let fields := [word 3 13, bit true, word 5 24, gamma 6, word 0 7]
    (∀ field ∈ fields, field.IsWritable) ∧
    (∃ buffer, writeAllInWords (.new [0xFF]) fields = .ok buffer ∧
      buffer.bytes.toList = [0xFF, 0x8D, 0x29]) ∧
    ((fields.flatMap parts).map Prod.snd).sum = 14 := by
  intro fields
  have hwritable : ∀ field ∈ fields, field.IsWritable := by
    simp [fields, IsWritable, Bits.wordWidth]
  obtain ⟨body, ⟨writer, hwrite, hbytes⟩, ⟨buffer, hfill, hsame⟩, -⟩ :=
    bytes_written [0xFF] hwritable
  have hwritten : (writeAll (.new [0xFF]) fields).map BitWriter.toBytes =
      .ok [0xFF, 0x8D, 0x29] := rfl
  rw [hwrite] at hwritten
  exact ⟨hwritable, ⟨buffer, hfill, by rw [hsame, ← hbytes]; exact Except.ok.inj hwritten⟩, rfl⟩

end BitField

end RoadTraffic
