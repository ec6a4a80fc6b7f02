import Mathlib
import RoadTraffic.Proofs.ValueRoundTrip

/-!
# The bytes of packed values

What is taken for packed values is told from the bytes alone, and so is what is said of bytes that
begin like packed values and are none.

* `Values.codeAt stream index`: the number in the bits of the value at place `index`.
* `Values.fault? limit n body`: what is wrong with the bytes after the number `n`, if anything.
* `Values.unpack_eq_ok_iff`/`unpack_eq_error_iff`: bytes with a sound header are taken if `fault?`
  is `none`, and refused for what it is otherwise.
* `Values.unpack_format`: the bytes that unpack, and what is said of the others.
* `Values.decodeWithLimit_under_every_limit`: what is made of a stream under one limit tells what is
  made of it under every other one.
-/

namespace RoadTraffic

namespace SpeedGroup

theorem code_injective {a b : SpeedGroup} (h : a.code = b.code) : a = b := by
  have ha := ofCode?_code a
  rw [h, ofCode?_code] at ha
  exact (Option.some.inj ha).symm

/-- Three bits are always a code: every `n < 2 ^ width` is that of a group. -/
theorem exists_code_eq {n : Nat} (h : n < 2 ^ width) : ∃ group : SpeedGroup, group.code = n := by
  have hlt : n < all.length := h
  exact ⟨all[n], code_of_ofCode? (List.getElem?_eq_getElem hlt)⟩

end SpeedGroup

namespace Values

variable {values : List SpeedGroup} {limit n : Nat} {count body : Bytes} {stream : List Bool}

/-! ## Codes -/

/-- The number in the three bits of the value at place `index`. -/
def codeAt (stream : List Bool) (index : Nat) : Nat :=
  Bits.toNat ((stream.drop (SpeedGroup.width * index)).take SpeedGroup.width)

/-- The codes of `values` are found where their bits are, whatever comes after them. -/
theorem map_code_eq (values : List SpeedGroup) (more : List Bool) :
    values.map (·.code) = (List.range values.length).map (codeAt (bits values ++ more)) := by
  induction values with
  | nil => rfl
  | cons group values ih =>
    have hbits : bits (group :: values) ++ more =
        Bits.ofNat SpeedGroup.width group.code ++ (bits values ++ more) := by
      rw [bits, List.flatMap_cons, List.append_assoc, ← bits]
    have hcode : group.code < 2 ^ SpeedGroup.width := group.code_lt
    have hhead : codeAt (bits (group :: values) ++ more) 0 = group.code := by
      rw [codeAt, hbits, Nat.mul_zero, List.drop_zero, List.take_left' (Bits.length_ofNat _ _),
        Bits.toNat_ofNat, Nat.mod_eq_of_lt hcode]
    have htail : ∀ i, codeAt (bits (group :: values) ++ more) (i + 1) =
        codeAt (bits values ++ more) i := by
      intro i
      rw [codeAt, codeAt, hbits, Nat.mul_succ, Nat.add_comm, ← List.drop_drop,
        List.drop_left' (Bits.length_ofNat _ _)]
    rw [List.map_cons, ih, List.length_cons, List.range_succ_eq_map, List.map_cons, List.map_map,
      hhead]
    simp only [Function.comp_def, Nat.succ_eq_add_one, htail]

/-- Any bits are those of values, as far as there are three for each. -/
theorem exists_bits_eq (h : 3 * n ≤ stream.length) : ∃ values : List SpeedGroup,
    values.length = n ∧ stream = bits values ++ stream.drop (3 * n) := by
  induction n generalizing stream with
  | zero => exact ⟨[], rfl, rfl⟩
  | succ n ih =>
    have hfield : (stream.take 3).length = SpeedGroup.width := by
      rw [List.length_take, SpeedGroup.width]
      omega
    obtain ⟨values, rfl, hrest⟩ := @ih (stream.drop 3) (by rw [List.length_drop]; omega)
    obtain ⟨group, hcode⟩ := SpeedGroup.exists_code_eq (hfield ▸ Bits.toNat_lt (stream.take 3))
    have hgroup : Bits.ofNat SpeedGroup.width group.code = stream.take 3 := by
      rw [hcode, ← hfield, Bits.ofNat_toNat]
    refine ⟨group :: values, rfl, ?_⟩
    rw [List.drop_drop] at hrest
    rw [bits, List.flatMap_cons, ← bits, hgroup, List.append_assoc,
      show 3 * (values.length + 1) = 3 + 3 * values.length by omega, ← hrest,
      List.take_append_drop]

/-! ## After the number of values -/

/-- What is wrong with the bytes of `body` after the number `n` of values, if anything. The first of
four rules that is broken decides. -/
def fault? (limit n : Nat) (body : Bytes) : Option ValuesError :=
  if limit < n then some (.tooManyValues n limit)
  else if 8 * body.length < 3 * n then some (.implausibleValueCount n (8 * body.length))
  else if (3 * n + 7) / 8 < body.length then
    some (.bitStream (.trailingBytes (body.length - (3 * n + 7) / 8)))
  else if true ∈ (Bits.ofBytes body).drop (3 * n) then some (.bitStream .nonZeroPadding)
  else none

theorem fault?_eq_none_iff : fault? limit n body = none ↔ n ≤ limit ∧
    body.length = (3 * n + 7) / 8 ∧ true ∉ (Bits.ofBytes body).drop (3 * n) := by
  unfold fault?
  constructor
  · intro h
    split_ifs at h with hlimit hroom hbytes hzero
    exact ⟨by omega, by omega, hzero⟩
  · rintro ⟨hlimit, hlength, hzero⟩
    rw [if_neg (by omega), if_neg (by omega), if_neg (by omega), if_neg hzero]

theorem unpack_of_isNumber (hcount : Varint.IsNumber n count) (body : Bytes) (limit : Nat) :
    unpack (0 :: (count ++ body)) limit =
      if limit < n then .error (.tooManyValues n limit)
      else if 8 * body.length < 3 * n then .error (.implausibleValueCount n (8 * body.length))
      else readAll n (.new body) := by
  have hdecode : Varint.decode (count ++ body) = .ok (n, body) :=
    Varint.decode_eq_ok_iff_isNumber.mpr ⟨count, rfl, hcount⟩
  unfold unpack
  dsimp only
  rw [if_neg (by decide), hdecode]
  simp only [SpeedGroup.width, gt_iff_lt, Nat.mul_comm body.length, Nat.mul_comm n]

/-- What `readAll` makes of `n` values for which there are bits: their codes are found, and what is
left over decides. -/
theorem readAll_eq (hroom : 3 * n ≤ 8 * body.length) : ∃ values : List SpeedGroup,
    values.map (·.code) = (List.range n).map (codeAt (Bits.ofBytes body)) ∧
      readAll n (.new body) =
        if (3 * n + 7) / 8 < body.length then
          .error (.bitStream (.trailingBytes (body.length - (3 * n + 7) / 8)))
        else if true ∈ (Bits.ofBytes body).drop (3 * n) then .error (.bitStream .nonZeroPadding)
        else .ok values := by
  have hlength := Bits.length_ofBytes body
  obtain ⟨values, rfl, hbits⟩ := exists_bits_eq (hlength ▸ hroom)
  refine ⟨values, by rw [map_code_eq values, ← hbits], ?_⟩
  have hsurplus : (8 * body.length - 3 * values.length) / 8 =
      body.length - (3 * values.length + 7) / 8 := by omega
  have hwhole : 8 ≤ 8 * body.length - 3 * values.length ↔
      (3 * values.length + 7) / 8 < body.length := by omega
  rw [readAll_of_bits hbits, List.length_drop, hlength, hsurplus]
  simp only [hwhole]

/-- After their number, values are refused if something is wrong with them (`fault?`), and otherwise
their codes are found. -/
theorem unpack_cases (hcount : Varint.IsNumber n count) (body : Bytes) (limit : Nat) :
    (∃ error, fault? limit n body = some error ∧
      unpack (0 :: (count ++ body)) limit = .error error) ∨
    fault? limit n body = none ∧ ∃ values : List SpeedGroup,
      values.map (·.code) = (List.range n).map (codeAt (Bits.ofBytes body)) ∧
        unpack (0 :: (count ++ body)) limit = .ok values := by
  rw [unpack_of_isNumber hcount, fault?]
  by_cases hlimit : limit < n
  · exact .inl ⟨_, if_pos hlimit, if_pos hlimit⟩
  rw [if_neg hlimit, if_neg hlimit]
  by_cases hroom : 8 * body.length < 3 * n
  · exact .inl ⟨_, if_pos hroom, if_pos hroom⟩
  obtain ⟨values, hcodes, hread⟩ := readAll_eq (Nat.not_lt.mp hroom)
  rw [if_neg hroom, if_neg hroom, hread]
  by_cases hbytes : (3 * n + 7) / 8 < body.length
  · exact .inl ⟨_, if_pos hbytes, if_pos hbytes⟩
  rw [if_neg hbytes, if_neg hbytes]
  by_cases hzero : true ∈ (Bits.ofBytes body).drop (3 * n)
  · exact .inl ⟨_, if_pos hzero, if_pos hzero⟩
  · exact .inr ⟨if_neg hzero, values, hcodes, if_neg hzero⟩

theorem unpack_eq_ok_iff (hcount : Varint.IsNumber n count) :
    unpack (0 :: (count ++ body)) limit = .ok values ↔ fault? limit n body = none ∧
      values.map (·.code) = (List.range n).map (codeAt (Bits.ofBytes body)) := by
  obtain ⟨error, hfault, h⟩ | ⟨hnone, found, hfound, h⟩ := unpack_cases hcount body limit
  · simp [h, hfault]
  · have hsame : found.map (·.code) = values.map (·.code) ↔ found = values :=
      (List.map_injective_iff.mpr fun _ _ => SpeedGroup.code_injective).eq_iff
    rw [h, hnone, ← hfound, Except.ok.injEq, ← hsame, eq_comm (a := values.map _)]
    simp

theorem unpack_eq_error_iff (hcount : Varint.IsNumber n count) {error : ValuesError} :
    unpack (0 :: (count ++ body)) limit = .error error ↔ fault? limit n body = some error := by
  obtain ⟨found, hfault, h⟩ | ⟨hnone, found, -, h⟩ := unpack_cases hcount body limit
  · simp [h, hfault]
  · simp [h, hnone]

/-! ## The header -/

/-- What can be wrong with bytes before the number of values is known. -/
inductive IsHeaderFault : ValuesError → Prop where
  | empty : IsHeaderFault .empty
  | unsupportedVersion (found : Nat) : IsHeaderFault (.unsupportedVersion found)
  | valueCount (cause : VarintError) : IsHeaderFault (.valueCount cause)

/-- Bytes begin with the version and a number, or are refused because they do not
(`IsHeaderFault`). -/
theorem header_cases (packed : Bytes) (limit : Nat) :
    (∃ n count body, packed = 0 :: (count ++ body) ∧ Varint.IsNumber n count) ∨
      ∃ error, IsHeaderFault error ∧ unpack packed limit = .error error := by
  cases packed with
  | nil => exact .inr ⟨_, .empty, rfl⟩
  | cons found bytes =>
    by_cases hversion : found.toNat = version
    · cases hcount : Varint.decode bytes with
      | error cause =>
        refine .inr ⟨_, .valueCount cause, ?_⟩
        unfold unpack
        dsimp only
        rw [if_neg (not_not.mpr hversion), hcount]
      | ok result =>
        obtain ⟨count, rfl, hnumber⟩ := Varint.decode_eq_ok_iff_isNumber.mp hcount
        obtain rfl : found = 0 := UInt8.toNat_inj.mp hversion
        exact .inl ⟨result.1, count, result.2, rfl, hnumber⟩
    · exact .inr ⟨_, .unsupportedVersion found.toNat, if_pos hversion⟩

/-- What is said of bytes is said of their header or of what follows it. -/
theorem unpack_error_cases {packed : Bytes} {error : ValuesError}
    (h : unpack packed limit = .error error) :
    IsHeaderFault error ∨ ∃ n body, fault? limit n body = some error := by
  obtain ⟨n, count, body, rfl, hcount⟩ | ⟨found, hfound, h'⟩ := header_cases packed limit
  · exact .inr ⟨n, body, (unpack_eq_error_iff hcount).mp h⟩
  · rw [h', Except.error.injEq] at h
    exact .inl (h ▸ hfound)

theorem exists_of_unpack_eq_ok {packed : Bytes} (h : unpack packed limit = .ok values) :
    ∃ count body, packed = 0 :: (count ++ body) ∧ Varint.IsNumber values.length count ∧
      fault? limit values.length body = none ∧
      values.map (·.code) = (List.range values.length).map (codeAt (Bits.ofBytes body)) := by
  obtain ⟨n, count, body, rfl, hcount⟩ | ⟨error, -, h'⟩ := header_cases packed limit
  · obtain ⟨hnone, hcodes⟩ := (unpack_eq_ok_iff hcount).mp h
    obtain rfl : values.length = n := by simpa using congrArg List.length hcodes
    exact ⟨count, body, rfl, hcount, hnone, hcodes⟩
  · rw [h'] at h
    cases h

/-- **The format.** Packed values are a zero byte, their number `n` in any notation of ten bytes at
most (`Varint.IsNumber`), and `(3 * n + 7) / 8` bytes, three bits for each value filled up with
zeros; the values are those with these codes. Of bytes with such a header the first of four rules
that is broken is told (`fault?`). No code is ever found that is none, so that `.invalidSpeedGroup`
is never told, and no value is looked for where there are no bits. -/
theorem unpack_format (packed : Bytes) (limit : Nat) :
    (∀ values, unpack packed limit = .ok values ↔ ∃ n count body,
      packed = 0 :: (count ++ body) ∧ Varint.IsNumber n count ∧ n ≤ limit ∧
        body.length = (3 * n + 7) / 8 ∧ true ∉ (Bits.ofBytes body).drop (3 * n) ∧
        values.map (·.code) = (List.range n).map (codeAt (Bits.ofBytes body))) ∧
    (∀ n count body, packed = 0 :: (count ++ body) → Varint.IsNumber n count →
      ∀ error, unpack packed limit = .error error ↔ fault? limit n body = some error) ∧
    (∀ code, unpack packed limit ≠ .error (.invalidSpeedGroup code)) ∧
    ∀ wanted available,
      unpack packed limit ≠ .error (.bitStream (.endOfStream wanted available)) := by
  refine ⟨fun values => ⟨fun h => ?_, ?_⟩, ?_, fun code h => ?_, fun wanted available h => ?_⟩
  · obtain ⟨count, body, rfl, hcount, hnone, hcodes⟩ := exists_of_unpack_eq_ok h
    obtain ⟨hlimit, hlength, hzero⟩ := fault?_eq_none_iff.mp hnone
    exact ⟨values.length, count, body, rfl, hcount, hlimit, hlength, hzero, hcodes⟩
  · rintro ⟨n, count, body, rfl, hcount, hlimit, hlength, hzero, hcodes⟩
    exact (unpack_eq_ok_iff hcount).mpr
      ⟨fault?_eq_none_iff.mpr ⟨hlimit, hlength, hzero⟩, hcodes⟩
  · rintro n count body rfl hcount error
    exact unpack_eq_error_iff hcount
  -- Neither is said of a header or of what follows one.
  all_goals
    obtain hheader | ⟨n, body, hbody⟩ := unpack_error_cases h
    · cases hheader
    · unfold fault? at hbody
      split_ifs at hbody <;> cases hbody

/-- Three values whose number takes up ten bytes: taken, one more than allowed, a byte short, a byte
over, and with a bit set behind them. -/
theorem unpack_format_three_values :
    let count : Bytes := 0x83 :: (List.replicate 8 0x80 ++ [0])
    Varint.IsNumber 3 count ∧
      unpack (0 :: (count ++ [0x39, 0x01])) 3 = .ok [.g1, .unknown, .g4] ∧
      unpack (0 :: (count ++ [0x39, 0x01])) 2 = .error (.tooManyValues 3 2) ∧
      unpack (0 :: (count ++ [0x39])) 3 = .error (.implausibleValueCount 3 8) ∧
      unpack (0 :: (count ++ [0x39, 0x01, 0])) 3 = .error (.bitStream (.trailingBytes 1)) ∧
      unpack (0 :: (count ++ [0x39, 0x03])) 3 = .error (.bitStream .nonZeroPadding) := by
  intro count
  have hcount : Varint.IsNumber 3 count := Varint.isNumber_iff_decode.mpr (by cbv)
  refine ⟨hcount, ?_, ?_, ?_, ?_, ?_⟩
  · exact ((unpack_format _ 3).1 _).mpr
      ⟨3, count, [0x39, 0x01], rfl, hcount, by decide, by decide, by decide, by decide⟩
  · exact ((unpack_format _ 2).2.1 3 count _ rfl hcount _).mpr (by decide)
  · exact ((unpack_format _ 3).2.1 3 count _ rfl hcount _).mpr (by decide)
  · exact ((unpack_format _ 3).2.1 3 count _ rfl hcount _).mpr (by decide)
  · exact ((unpack_format _ 3).2.1 3 count _ rfl hcount _).mpr (by decide)

/-! ## Values under one limit and another -/

/-- Whatever else is wrong with values is told before their number is compared to the limit, or does
not depend on it. -/
theorem unpack_of_unpack {packed : Bytes} (h : unpack packed limit = .ok values) (other : Nat) :
    unpack packed other = if values.length ≤ other then .ok values
      else .error (.tooManyValues values.length other) := by
  obtain ⟨count, body, rfl, hcount, hnone, hcodes⟩ := exists_of_unpack_eq_ok h
  obtain ⟨-, hlength, hzero⟩ := fault?_eq_none_iff.mp hnone
  by_cases hother : values.length ≤ other
  · rw [if_pos hother]
    exact (unpack_eq_ok_iff hcount).mpr
      ⟨fault?_eq_none_iff.mpr ⟨hother, hlength, hzero⟩, hcodes⟩
  · rw [if_neg hother]
    exact (unpack_eq_error_iff hcount).mpr (if_pos (Nat.not_le.mp hother))

theorem length_le_of_unpack {packed : Bytes} (h : unpack packed limit = .ok values) :
    packed.length ≤ 11 + (3 * values.length + 7) / 8 := by
  obtain ⟨count, body, rfl, hcount, hnone, -⟩ := exists_of_unpack_eq_ok h
  obtain ⟨-, hlength, -⟩ := fault?_eq_none_iff.mp hnone
  have hten : count.length ≤ 10 := hcount.length_le
  rw [List.length_cons, List.length_append]
  omega

/-- Where the bits of the values that are allowed do not fit in a word, `maxPackedLength` leaves no
more room under one limit than under the other. -/
theorem length_le_maxPackedLength {length other : Nat} (hcap : length ≤ maxPackedLength limit)
    (hlength : length ≤ 11 + (3 * n + 7) / 8) (h : n ≤ other) :
    length ≤ maxPackedLength other := by
  simp only [maxPackedLength, maxWord, Bits.maxWord, SpeedGroup.width] at hcap ⊢
  omega

/-- **The limit only filters.** Values that are let through under one limit are let through under
every `other` one, unless that is less than `values.length`; then their number is told, or that not
even their bytes fit. The room `maxPackedLength other` that a limit leaves for the bytes never keeps
out values that it admits, in whatever notation their number is, and also where the room is as large
as it gets. -/
theorem decodeWithLimit_under_every_limit {bytes : Bytes}
    (h : decodeWithLimit bytes limit = .ok values) :
    ∃ packed, Zlib.inflate bytes (maxPackedLength limit) = .ok packed ∧ ∀ other,
      (decodeWithLimit bytes other =
        if values.length ≤ other then .ok values
        else if packed.length ≤ maxPackedLength other then
          .error (.tooManyValues values.length other)
        else .error (.stream (.tooLarge (maxPackedLength other)))) ∧
      (values.length ≤ other → Zlib.inflate bytes (maxPackedLength other) = .ok packed) := by
  obtain ⟨packed, hzlib, hunpack⟩ := exists_of_decodeInflated_eq_ok h
  obtain ⟨hcap, hinflate⟩ := Zlib.inflate_of_inflate hzlib
  have hlength := length_le_of_unpack hunpack
  refine ⟨packed, hzlib, fun other => ?_⟩
  have hadmits : values.length ≤ other → packed.length ≤ maxPackedLength other :=
    length_le_maxPackedLength hcap hlength
  refine ⟨?_, fun hother => by rw [hinflate, if_pos (hadmits hother)]⟩
  unfold decodeWithLimit decodeInflated
  rw [hinflate]
  by_cases hroom : packed.length ≤ maxPackedLength other
  · rw [if_pos hroom, if_pos hroom]
    exact unpack_of_unpack hunpack other
  · rw [if_neg hroom, if_neg hroom, if_neg (fun hother => hroom (hadmits hother))]

/-- Eight values whose number takes up ten bytes: no room is left under the limit that admits them,
and the room of seven is as large, but not that of five. -/
theorem decodeWithLimit_under_every_limit_eight_values :
    let values := List.replicate 8 SpeedGroup.g4
    let bytes : Bytes := [0x78, 0x01, 0x01, 14, 0, 0xF1, 0xFF] ++
      (0 :: 0x88 :: List.replicate 8 0x80 ++ [0, 0x24, 0x49, 0x92]) ++ [0x2A, 0x86, 0x05, 0x88]
    decodeWithLimit bytes 8 = .ok values ∧ decodeWithLimit bytes Bits.maxWord = .ok values ∧
      decodeWithLimit bytes 7 = .error (.tooManyValues 8 7) ∧
      decodeWithLimit bytes 5 = .error (.stream (.tooLarge 13)) := by
  intro values bytes
  have h : decodeWithLimit bytes 8 = .ok values := by decide +kernel
  obtain ⟨packed, hpacked, hall⟩ := decodeWithLimit_under_every_limit h
  have hzlib : Zlib.inflate bytes (maxPackedLength 8) =
      .ok (0 :: 0x88 :: List.replicate 8 0x80 ++ [0, 0x24, 0x49, 0x92]) := by decide +kernel
  obtain rfl := Except.ok.inj (hpacked.symm.trans hzlib)
  exact ⟨h, (hall Bits.maxWord).1, (hall 7).1, (hall 5).1⟩

end Values

end RoadTraffic
