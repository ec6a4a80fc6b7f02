import Mathlib
import RoadTraffic.Proofs.Gamma

/-!
# Reading gamma codes from any bits

What reading a gamma code comes to is told by the zeros ahead of the next one and by how many bits
there are. This goes for what a read that fails has consumed as well, on which the reads after it
depend.

* `BitReader.zeros`: how many zeros are ahead of the next one.
* `BitReader.GammaEnds result count`: `readGamma` returns `result` and consumes `count` bits.
* `BitReader.readGammaFrom_of_zeros`: zeros are counted off one by one.
* `BitReader.ends_overflow`/`ends_exhausted`/`ends_cut`/`ends_of_bits`: the four ways in which a
  read ends.
* `Gamma.eq_of_bits_prefix`: no code begins with another one.
* `BitReader.readGamma_exact`: reading is told by the bits ahead, and writing undoes it.
-/

namespace RoadTraffic

namespace BitReader

variable {reader : BitReader}

/-! ## The zeros ahead -/

/-- How many zeros are ahead of the next one, or of the end if there is none. -/
def zeros (reader : BitReader) : Nat := (reader.bits.takeWhile (! ·)).length

theorem takeWhile_not_eq_replicate (bits : List Bool) :
    bits.takeWhile (! ·) = List.replicate (bits.takeWhile (! ·)).length false := by
  rw [List.eq_replicate_iff]
  refine ⟨rfl, fun bit hbit => ?_⟩
  simpa using List.mem_takeWhile_imp hbit

theorem bits_eq_zeros_append (reader : BitReader) :
    reader.bits = List.replicate reader.zeros false ++ reader.bits.dropWhile (! ·) := by
  rw [zeros, ← takeWhile_not_eq_replicate, List.takeWhile_append_dropWhile]

/-- What comes after the `zeros`, if anything does, is a one. -/
theorem exists_bits_eq_of_zeros_lt (h : reader.zeros < reader.remaining) :
    ∃ more, reader.bits = List.replicate reader.zeros false ++ true :: more := by
  have hbits := reader.bits_eq_zeros_append
  have hhead := List.head?_dropWhile_not (! ·) reader.bits
  cases hrest : reader.bits.dropWhile (! ·) with
  | nil =>
    have hlength := congrArg List.length hbits
    simp only [hrest, length_bits, List.append_nil, List.length_replicate] at hlength
    omega
  | cons bit more =>
    rw [hrest] at hbits hhead
    obtain rfl : bit = true := by simpa using hhead
    exact ⟨more, hbits⟩

theorem bits_eq_replicate_of_zeros_eq (h : reader.zeros = reader.remaining) :
    reader.bits = List.replicate reader.zeros false := by
  have hbits := reader.bits_eq_zeros_append
  have hlength := congrArg List.length hbits
  rw [List.length_append, List.length_replicate, length_bits] at hlength
  rwa [List.eq_nil_of_length_eq_zero (l := reader.bits.dropWhile _) (by omega),
    List.append_nil] at hbits

/-! ## Counting zeros -/

/-- The `count` zeros ahead are counted off one by one, each of them taken from the budget. -/
theorem readGammaFrom_of_zeros {count : Nat} {more : List Bool}
    (h : reader.bits = List.replicate count false ++ more) (zeros budget : Nat) :
    ∃ after, after.bits = more ∧
      readGammaFrom zeros (count + budget) reader = readGammaFrom (zeros + count) budget after := by
  induction count generalizing zeros reader with
  | zero => exact ⟨reader, h, by rw [Nat.zero_add, Nat.add_zero]⟩
  | succ count ih =>
    rw [List.replicate_succ, List.cons_append] at h
    obtain ⟨next, hread, hnext⟩ := readBit_of_bits h
    obtain ⟨after, hafter, hcount⟩ := ih hnext (zeros + 1)
    refine ⟨after, hafter, ?_⟩
    rw [Nat.add_right_comm, readGammaFrom_of_false hread, hcount, Nat.add_assoc,
      Nat.add_comm 1 count]

/-- A gamma code with `count` zeros in front, fewer than a word has bits: what is left is to read
the one. -/
theorem readGamma_of_zeros {count : Nat} {more : List Bool} (hcount : count < Bits.wordWidth)
    (h : reader.bits = List.replicate count false ++ more) :
    ∃ after budget, after.bits = more ∧
      reader.readGamma = readGammaFrom count (budget + 1) after := by
  obtain ⟨after, hafter, hread⟩ := readGammaFrom_of_zeros h 0 (Bits.wordWidth - count)
  rw [Nat.add_sub_cancel' hcount.le, Nat.zero_add] at hread
  exact ⟨after, Bits.wordWidth - count - 1, hafter,
    by rw [readGamma, hread, Nat.sub_add_cancel (by omega)]⟩

/-! ## How a read ends -/

/-- A `readGamma` has this `result`, and consumes `count` bits. -/
def GammaEnds (reader : BitReader) (result : Except BitError Nat) (count : Nat) : Prop :=
  ∃ after, reader.readGamma = (result, after) ∧ count + after.remaining = reader.remaining ∧
    after.bits = reader.bits.drop count

theorem gammaEnds_of_bits {result : Except BitError Nat} {after : BitReader} {consumed : List Bool}
    (hread : reader.readGamma = (result, after)) (h : reader.bits = consumed ++ after.bits) :
    reader.GammaEnds result consumed.length := by
  refine ⟨after, hread, ?_, by rw [h, List.drop_left]⟩
  rw [← length_bits, ← length_bits, h, List.length_append]

theorem ends_overflow (h : Bits.wordWidth ≤ reader.zeros) :
    reader.GammaEnds (.error .gammaOverflow) Bits.wordWidth := by
  obtain ⟨rest, hrest⟩ : ∃ rest, reader.bits = List.replicate Bits.wordWidth false ++ rest := by
    rw [reader.bits_eq_zeros_append, ← Nat.add_sub_cancel' h, List.replicate_add,
      List.append_assoc]
    exact ⟨_, rfl⟩
  obtain ⟨after, rfl, hread⟩ := readGammaFrom_of_zeros hrest 0 0
  have hends := gammaEnds_of_bits (hread.trans rfl) hrest
  rwa [List.length_replicate] at hends

theorem ends_exhausted (h : reader.zeros = reader.remaining)
    (hlt : reader.remaining < Bits.wordWidth) :
    reader.GammaEnds (.error (.endOfStream 1 0)) reader.remaining := by
  have hbits := bits_eq_replicate_of_zeros_eq h
  rw [h, ← List.append_nil (List.replicate _ _)] at hbits
  obtain ⟨after, budget, hafter, hread⟩ := readGamma_of_zeros hlt hbits
  rw [readGammaFrom_of_bits_nil hafter] at hread
  have hends := gammaEnds_of_bits hread (hafter ▸ hbits)
  rwa [List.length_replicate] at hends

/-- The one is there, but not all of the bits that its zeros announce. The zeros and the one are
consumed. -/
theorem ends_cut (hlt : reader.zeros < Bits.wordWidth) (hone : reader.zeros < reader.remaining)
    (hcut : reader.remaining - reader.zeros - 1 < reader.zeros) :
    reader.GammaEnds (.error (.endOfStream reader.zeros (reader.remaining - reader.zeros - 1)))
      (reader.zeros + 1) := by
  obtain ⟨more, hbits⟩ := exists_bits_eq_of_zeros_lt hone
  obtain ⟨next, budget, hnext, hread⟩ := readGamma_of_zeros hlt hbits
  obtain ⟨after, hbit, rfl⟩ := readBit_of_bits hnext
  have hremaining : after.remaining = reader.remaining - reader.zeros - 1 := by
    rw [← length_bits reader, hbits, List.length_append, List.length_replicate, List.length_cons,
      ← length_bits after]
    omega
  have hshort : after.bits.length < reader.zeros := by rw [length_bits]; omega
  have hlow := read_of_lt hlt.le hshort
  rw [readGammaFrom, hbit] at hread
  simp only [hlow, hremaining] at hread
  rw [← List.singleton_append, ← List.append_assoc] at hbits
  have hends := gammaEnds_of_bits hread hbits
  rwa [List.length_append, List.length_replicate, List.length_singleton] at hends

theorem ends_of_bits {value : Nat} {more : List Bool} (h0 : 0 < value) (h : value < 2 ^ 64)
    (hbits : reader.bits = Gamma.bits value ++ more) :
    reader.GammaEnds (.ok value) (Gamma.length value) := by
  obtain ⟨after, -, rfl⟩ := take_of_bits hbits
  have hends := gammaEnds_of_bits (readGamma_eq_ok_iff.mpr ⟨h0, h, hbits⟩) hbits
  rwa [Gamma.length_bits] at hends

/-- If the one and the bits after it are there, they are the code of a number with its highest bit
at place `reader.zeros`. -/
theorem exists_bits_eq_gamma (hroom : 2 * reader.zeros + 1 ≤ reader.remaining) :
    ∃ value more, 2 ^ reader.zeros ≤ value ∧ value < 2 ^ (reader.zeros + 1) ∧
      reader.bits = Gamma.bits value ++ more := by
  have hone : reader.zeros < reader.remaining := by omega
  obtain ⟨more, hbits⟩ := exists_bits_eq_of_zeros_lt hone
  have hlength := congrArg List.length hbits
  rw [length_bits, List.length_append, List.length_replicate, List.length_cons] at hlength
  -- The low bits are those after the one, as many as there are zeros before it.
  let low := Bits.toNat (more.take reader.zeros)
  have htake : (more.take reader.zeros).length = reader.zeros := by
    rw [List.length_take]
    omega
  have hlow : low < 2 ^ reader.zeros := htake ▸ Bits.toNat_lt (more.take reader.zeros)
  obtain ⟨-, hlog⟩ := Gamma.log2_eq_iff_exists.mpr ⟨low, hlow, rfl⟩
  have hspelled : Bits.ofNat reader.zeros (2 ^ reader.zeros + low) = more.take reader.zeros := by
    have hback := Bits.ofNat_toNat (more.take reader.zeros)
    rwa [htake, ← Gamma.ofNat_two_pow_add] at hback
  refine ⟨2 ^ reader.zeros + low, more.drop reader.zeros, by omega, by rw [Nat.pow_succ]; omega, ?_⟩
  rw [Gamma.bits, hlog, hspelled, List.append_assoc, List.cons_append, List.take_append_drop,
    ← hbits]

/-- There is a reader with any `bits` ahead, and then perhaps others. -/
theorem exists_of_bits (bits : List Bool) :
    ∃ reader more, BitReader.bits reader = bits ++ more := by
  obtain ⟨padding, -, hbytes⟩ := ((BitWriter.new []).append bits).isPadded_toBytes
  rw [BitWriter.bits_append, BitWriter.bits_new, Bits.ofBytes_nil, List.nil_append] at hbytes
  exact ⟨new _, _, hbytes⟩

end BitReader

/-- A reader in front of both codes can only read one number, so that `v = w`. -/
theorem Gamma.eq_of_bits_prefix {v w : Nat} (hv0 : 0 < v) (hv : v < 2 ^ 64) (hw0 : 0 < w)
    (hw : w < 2 ^ 64) (h : bits v <+: bits w) : v = w := by
  obtain ⟨longer, hlonger⟩ := h
  obtain ⟨reader, more, hbits⟩ := BitReader.exists_of_bits (bits w)
  obtain ⟨_, hreadw, -⟩ := BitReader.ends_of_bits hw0 hw hbits
  rw [← hlonger, List.append_assoc] at hbits
  obtain ⟨_, hreadv, -⟩ := BitReader.ends_of_bits hv0 hv hbits
  rw [hreadw] at hreadv
  cases hreadv
  rfl

namespace BitReader

/-- **Reading a gamma code.** With a word's width of `zeros` or more ahead, that many bits are
consumed and it overflows. With fewer zeros and nothing after them, all of them are consumed and the
stream ends; with a one after them but not as many bits as there are zeros after the one, the zeros
and the one are consumed, and the stream ends. Else a number with its highest bit in that place is
read, and the bits consumed are the very ones that `writeGamma` writes for it. Each positive word
has its own code `Gamma.bits value`, which is read as that word whatever comes after it, and which
no other code begins with. -/
theorem readGamma_exact :
    (∀ reader : BitReader,
      (64 ≤ reader.zeros → reader.GammaEnds (.error .gammaOverflow) 64) ∧
      (reader.zeros = reader.remaining → reader.remaining < 64 →
        reader.GammaEnds (.error (.endOfStream 1 0)) reader.remaining) ∧
      (reader.zeros < 64 → reader.zeros < reader.remaining →
        reader.remaining - reader.zeros - 1 < reader.zeros →
        reader.GammaEnds
          (.error (.endOfStream reader.zeros (reader.remaining - reader.zeros - 1)))
          (reader.zeros + 1)) ∧
      (reader.zeros < 64 → 2 * reader.zeros + 1 ≤ reader.remaining →
        ∃ value, 2 ^ reader.zeros ≤ value ∧ value < 2 ^ (reader.zeros + 1) ∧
          reader.GammaEnds (.ok value) (Gamma.length value) ∧
          ∀ writer : BitWriter, ∃ writer', writer.writeGamma value = .ok writer' ∧
            writer'.bits = writer.bits ++ reader.bits.take (Gamma.length value))) ∧
    (∀ value, 0 < value → value < 2 ^ 64 →
      (Gamma.bits value).length = Gamma.length value ∧
      (∀ writer : BitWriter, ∃ writer', writer.writeGamma value = .ok writer' ∧
        writer'.bits = writer.bits ++ Gamma.bits value) ∧
      ∀ (reader : BitReader) (more : List Bool), reader.bits = Gamma.bits value ++ more →
        reader.GammaEnds (.ok value) (Gamma.length value)) ∧
    ∀ v w, 0 < v → v < 2 ^ 64 → 0 < w → w < 2 ^ 64 → Gamma.bits v <+: Gamma.bits w → v = w := by
  refine ⟨fun reader => ⟨ends_overflow, ends_exhausted, ends_cut, fun hlt hroom => ?_⟩,
    fun value h0 h => ?_, fun _ _ hv0 hv hw0 hw => Gamma.eq_of_bits_prefix hv0 hv hw0 hw⟩
  · obtain ⟨value, more, hle, hgt, hbits⟩ := exists_bits_eq_gamma hroom
    have h0 : 0 < value := (Nat.two_pow_pos _).trans_le hle
    have h : value < 2 ^ 64 := hgt.trans_le (Nat.pow_le_pow_right (by decide) hlt)
    refine ⟨value, hle, hgt, ends_of_bits h0 h hbits, fun writer => ?_⟩
    -- The bits consumed are `Gamma.bits value`.
    rw [hbits, ← Gamma.length_bits, List.take_left]
    exact writer.writeGamma_eq_ok h0 h
  · exact ⟨Gamma.length_bits value, fun writer => writer.writeGamma_eq_ok h0 h,
      fun reader more => ends_of_bits h0 h⟩

/-- Too many zeros, nothing but zeros, a one with too few bits after it, and a code; and the
greatest number that has one. -/
theorem readGamma_exact_four_ways :
    (new [0, 0, 0, 0, 0, 0, 0, 0, 1]).GammaEnds (.error .gammaOverflow) 64 ∧
    (new [0, 0]).GammaEnds (.error (.endOfStream 1 0)) 16 ∧
    (new [0x10]).GammaEnds (.error (.endOfStream 4 3)) 5 ∧
    (∃ value, 4 ≤ value ∧ value < 8 ∧
      (new [0x14, 0xFF]).GammaEnds (.ok value) (Gamma.length value)) ∧
    ∃ writer', (BitWriter.new []).writeGamma (2 ^ 64 - 1) = .ok writer' ∧
      writer'.bits = Gamma.bits (2 ^ 64 - 1) := by
  obtain ⟨hread, hwritten, -⟩ := readGamma_exact
  refine ⟨(hread _).1 (by decide), (hread _).2.1 (by decide) (by decide),
    (hread (new [0x10])).2.2.1 (by decide) (by decide) (by decide), ?_,
    (hwritten (2 ^ 64 - 1) (by decide) (by decide)).2.1 (.new [])⟩
  obtain ⟨value, hle, hlt, hends, -⟩ := (hread (new [0x14, 0xFF])).2.2.2 (by decide) (by decide)
  exact ⟨value, hle, hlt, hends⟩

end BitReader

end RoadTraffic
