import Mathlib
import RoadTraffic.Proofs.BitStream
import RoadTraffic.Proofs.Varint
import RoadTraffic.Proofs.Zlib.RoundTrip
import RoadTraffic.Values.Codec

/-!
# Values and their bytes

* `Values.unpack_pack`: `unpack (pack values) limit` is `.ok values`, unless they are more than
  allowed.
* `Values.decodeWithLimit_of_inflates`: the same for a stream that inflates to `pack values`.
* `Values.decodeWithLimit_pack`: the same for values that a compressor made smaller.
* `Values.decode_encode`: the same for the compressor at hand.
* `Values.eq_of_decode_pack`: whatever is made of packed values, it is no other values.
-/

namespace RoadTraffic

namespace Values

variable {values : List SpeedGroup} {limit : Nat}

/-- The codes of speed groups, `SpeedGroup.width` bits each, one after the other. -/
def bits (values : List SpeedGroup) : List Bool :=
  values.flatMap fun group => Bits.ofNat SpeedGroup.width group.code

theorem length_bits (values : List SpeedGroup) : (bits values).length = 3 * values.length := by
  induction values with
  | nil => rfl
  | cons group values ih =>
    rw [bits, List.flatMap_cons, List.length_append, Bits.length_ofNat, ← bits, ih,
      List.length_cons, SpeedGroup.width]
    omega

/-! ## Packed values -/

theorem exists_pack_eq (values : List SpeedGroup) : ∃ body, Bits.IsPadded (bits values) body ∧
    pack values = UInt8.ofNat version :: (Varint.encode values.length ++ body) := by
  have hpadded := BitWriter.isPadded_toBytes (writeGroups
    (.new (UInt8.ofNat version :: Varint.encode values.length)) values)
  rw [writeGroups, BitWriter.bits_foldl_append, BitWriter.bits_new] at hpadded
  obtain ⟨body, hbody, hpadded⟩ := hpadded.drop_header
  exact ⟨body, hpadded, hbody⟩

/-- Values come back in order from the bits of their codes, after those that are `done`. -/
theorem readGroups_of_bits (done : List SpeedGroup) {reader : BitReader} {more : List Bool}
    (h : reader.bits = bits values ++ more) :
    ∃ reader', readGroups done values.length reader = .ok (done.reverse ++ values, reader') ∧
      reader'.bits = more := by
  induction values generalizing done reader with
  | nil => exact ⟨reader, by rw [List.append_nil]; rfl, h⟩
  | cons group values ih =>
    rw [bits, List.flatMap_cons, List.append_assoc] at h
    obtain ⟨reader₁, htake, hbits⟩ := BitReader.take_of_bits h
    have hcode : group.code < 2 ^ SpeedGroup.width := group.code_lt
    rw [Bits.length_ofNat, Bits.toNat_ofNat, Nat.mod_eq_of_lt hcode] at htake
    obtain ⟨reader', hrest, hmore⟩ := ih (group :: done) hbits
    refine ⟨reader', ?_, hmore⟩
    have hread : reader.read SpeedGroup.width = (.ok group.code, reader₁) := by
      rw [BitReader.read, if_pos (by decide), htake]
    rw [List.length_cons, readGroups, hread]
    simp only [SpeedGroup.ofCode?_code]
    rw [hrest, List.reverse_cons, List.append_assoc, List.singleton_append]

/-- Once there are three bits for each value, what follows them (`more`) decides. -/
theorem readAll_of_bits {body : Bytes} {more : List Bool}
    (h : Bits.ofBytes body = bits values ++ more) :
    readAll values.length (.new body) =
      if 8 ≤ more.length then .error (.bitStream (.trailingBytes (more.length / 8)))
      else if true ∈ more then .error (.bitStream .nonZeroPadding) else .ok values := by
  rw [← BitReader.bits_new] at h
  obtain ⟨reader, hread, hbits⟩ := readGroups_of_bits [] h
  unfold readAll
  rw [hread]
  simp only [bind, Except.bind, List.reverse_nil, List.nil_append]
  rw [BitReader.finish_eq, hbits]
  by_cases hbytes : 8 ≤ more.length
  · rw [if_pos hbytes, if_pos hbytes]
  · by_cases hzero : true ∈ more
    · simp only [if_neg hbytes, if_pos hzero]
    · simp only [if_neg hbytes, if_neg hzero]

theorem readAll_of_isPadded {body : Bytes} (h : Bits.IsPadded (bits values) body) :
    readAll values.length (.new body) = .ok values := by
  obtain ⟨padding, hlt, hbody⟩ := h
  rw [readAll_of_bits hbody, if_neg (by rw [List.length_replicate]; omega), if_neg (by simp)]

/-! ## Unpacking -/

/-- Once the number of values is read, only `limit` is left to stop them. -/
theorem unpack_eq {body : Bytes} (hbody : Bits.IsPadded (bits values) body)
    (h : Varint.decode (Varint.encode values.length ++ body) = .ok (values.length, body)) :
    unpack (UInt8.ofNat version :: (Varint.encode values.length ++ body)) limit =
      if values.length ≤ limit then .ok values
      else .error (.tooManyValues values.length limit) := by
  have hplausible : ¬ values.length * SpeedGroup.width > body.length * 8 := by
    obtain ⟨padding, -, hbits⟩ := hbody
    have := congrArg List.length hbits
    rw [Bits.length_ofBytes, List.length_append, length_bits] at this
    rw [SpeedGroup.width]
    omega
  unfold unpack
  dsimp only
  rw [if_neg (by decide), h]
  dsimp only
  by_cases hlimit : values.length ≤ limit
  · rw [if_neg (by omega), if_neg hplausible, if_pos hlimit, readAll_of_isPadded hbody]
  · rw [if_pos (by omega), if_neg hlimit]

theorem unpack_pack (h : values.length < 2 ^ 64) (limit : Nat) : unpack (pack values) limit =
    if values.length ≤ limit then .ok values
    else .error (.tooManyValues values.length limit) := by
  obtain ⟨body, hbody, hpack⟩ := exists_pack_eq values
  rw [hpack]
  exact unpack_eq hbody (Varint.decode_encode h body)

/-- No number of values is mistaken for another one, not even one beyond a word: what is `found` in
`pack values` is `values`. -/
theorem eq_of_unpack_pack {found : List SpeedGroup} (h : unpack (pack values) limit = .ok found) :
    found = values := by
  obtain ⟨body, hbody, hpack⟩ := exists_pack_eq values
  rw [hpack] at h
  cases hcount : Varint.decode (Varint.encode values.length ++ body) with
  | error e =>
    unfold unpack at h
    dsimp only at h
    rw [if_neg (by decide), hcount] at h
    cases h
  | ok result =>
    obtain ⟨count, rest⟩ := result
    obtain ⟨rfl, rfl⟩ := Varint.decode_encode_append hcount
    rw [unpack_eq hbody hcount] at h
    split at h
    · exact (Except.ok.inj h).symm
    · cases h

/-! ## Values in a stream -/

/-- The packed length: a version byte, the number of values, and three bits for each. -/
theorem length_pack (values : List SpeedGroup) : (pack values).length =
    1 + (Varint.encode values.length).length + (3 * values.length + 7) / 8 := by
  obtain ⟨body, ⟨padding, hlt, hbody⟩, hpack⟩ := exists_pack_eq values
  have hlength := congrArg List.length hbody
  rw [Bits.length_ofBytes, List.length_append, length_bits, List.length_replicate] at hlength
  rw [hpack, List.length_cons, List.length_append]
  omega

/-- A packed list of no more than `limit` values is inflated, whatever it is:
`maxPackedLength limit` leaves room for it. -/
theorem length_pack_le (hword : 3 * values.length < 2 ^ 63) (h : values.length ≤ limit) :
    (pack values).length ≤ maxPackedLength limit := by
  have hcount : (Varint.encode values.length).length ≤ 9 + 1 :=
    Varint.length_encode_le_of_lt (by omega)
  rw [length_pack]
  simp only [maxPackedLength, maxWord, Bits.maxWord, SpeedGroup.width]
  omega

theorem exists_of_decodeInflated_eq_ok {inflated : Except ZlibError Bytes}
    (h : decodeInflated inflated limit = .ok values) :
    ∃ packed, inflated = .ok packed ∧ unpack packed limit = .ok values := by
  cases inflated with
  | error e => cases h
  | ok packed => exact ⟨packed, rfl, h⟩

/-- A `stream` of packed values is unpacked to them unless they are more than allowed, and which
fault that is depends on whether their bytes still fit in `maxPackedLength limit`. -/
theorem decodeWithLimit_of_inflates {stream : Bytes} (hword : 3 * values.length < 2 ^ 63)
    (hstream : ∀ room, Zlib.inflate stream room =
      if (pack values).length ≤ room then .ok (pack values) else .error (.tooLarge room))
    (limit : Nat) : decodeWithLimit stream limit =
      if values.length ≤ limit then .ok values
      else if (pack values).length ≤ maxPackedLength limit then
        .error (.tooManyValues values.length limit)
      else .error (.stream (.tooLarge (maxPackedLength limit))) := by
  unfold decodeWithLimit decodeInflated
  rw [hstream]
  by_cases hlimit : values.length ≤ limit
  · rw [if_pos (length_pack_le hword hlimit), if_pos hlimit]
    dsimp only
    rw [unpack_pack (by omega), if_pos hlimit]
  · rw [if_neg hlimit]
    by_cases hfits : (pack values).length ≤ maxPackedLength limit
    · rw [if_pos hfits, if_pos hfits]
      dsimp only
      rw [unpack_pack (by omega), if_neg hlimit]
    · rw [if_neg hfits, if_neg hfits]

section Compressed

variable {compress : Bytes → Bytes} (hzlib : Zlib.InflatesBack compress)

include hzlib

theorem decodeWithLimit_pack (hword : 3 * values.length < 2 ^ 63) (limit : Nat) :
    decodeWithLimit (compress (pack values)) limit =
      if values.length ≤ limit then .ok values
      else if (pack values).length ≤ maxPackedLength limit then
        .error (.tooManyValues values.length limit)
      else .error (.stream (.tooLarge (maxPackedLength limit))) :=
  decodeWithLimit_of_inflates hword (hzlib _) limit

theorem eq_of_decode_pack {found : List SpeedGroup}
    (h : decode (compress (pack values)) = .ok found) : found = values := by
  obtain ⟨packed, hpacked, hunpack⟩ := exists_of_decodeInflated_eq_ok h
  rw [hzlib] at hpacked
  split at hpacked <;> cases hpacked
  exact eq_of_unpack_pack hunpack

end Compressed

theorem decode_encode (h : values.length ≤ maxValues) : decode (encode values) = .ok values := by
  have hword : maxValues = 0x1000000 := rfl
  rw [decode, encode, decodeWithLimit_pack Zlib.inflatesBack_deflate (by omega), if_pos h]

end Values

end RoadTraffic
