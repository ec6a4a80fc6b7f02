import Mathlib
import RoadTraffic.Proofs.KeyCodec

/-!
# A key list and its bytes

* `Keys.countKeys_eq_length`: `countKeys rs = (rs.flatMap Run.keys).length`; the count does not
  reach the largest word.
* `Keys.decodeWithLimit_of_encode`: a packed list unpacks to itself, unless it is longer than
  allowed.
* `Keys.encode_of_decodeWithLimit`: bytes that unpack are what their list packs to, except that
  the number of runs may be spelled in a longer way.
* `Keys.decodeWithLimit_append`: bytes that unpack do not with others after them.
-/

namespace RoadTraffic

namespace Keys

/-! ## Packing and unpacking in terms of runs -/

theorem keyCount_eq_length (runs : List Run) :
    keyCount runs = (runs.flatMap Run.keys).length := by
  induction runs with
  | nil => rfl
  | cons run runs ih =>
    rw [List.flatMap_cons, List.length_append, Run.length_keys, ← ih]
    rfl

/-- Roads in rising order leave no room for more of them than there are `UInt32`s above. -/
theorem featureId_add_length_lt {run : Run} {runs : List Run} (h : Ascending (run :: runs)) :
    run.featureId.toNat + runs.length < 2 ^ 32 := by
  induction runs generalizing run with
  | nil => simpa using run.featureId.toNat_lt
  | cons next runs ih =>
    obtain ⟨hlt, hasc⟩ := List.isChain_cons_cons.mp h
    have := ih hasc
    have := UInt32.lt_iff_toNat_lt.mp hlt
    rw [List.length_cons]
    omega

theorem length_lt_of_ascending {runs : List Run} (h : Ascending runs) :
    runs.length < 2 ^ 64 := by
  cases runs with
  | nil => simp
  | cons run runs =>
    have := featureId_add_length_lt h
    rw [List.length_cons]
    omega

theorem length_flatMap_keys_le (runs : List Run) :
    (runs.flatMap Run.keys).length ≤ 2 ^ 17 * runs.length := by
  induction runs with
  | nil => simp
  | cons run runs ih =>
    rw [List.flatMap_cons, List.length_append, Run.length_keys, List.length_cons]
    have := run.size_le
    omega

/-- No list of ascending runs is so long that its length does not fit in a word: at most `2 ^ 32`
roads with `2 ^ 17` keys each. -/
theorem length_flatMap_keys_lt {runs : List Run} (h : Ascending runs) :
    (runs.flatMap Run.keys).length < Bits.maxWord := by
  have hkeys := length_flatMap_keys_le runs
  cases runs with
  | nil => decide
  | cons run runs =>
    have hruns := featureId_add_length_lt h
    rw [List.length_cons] at hkeys
    rw [Bits.maxWord]
    omega

/-- A count that passes `Bits.maxWord` stays there, so that it does not matter when it does. -/
theorem foldl_size_eq (runs : List Run) {start : Nat} (hstart : start ≤ Bits.maxWord) :
    runs.foldl (fun sum run => min Bits.maxWord (sum + run.size)) start =
      min Bits.maxWord (start + (runs.flatMap Run.keys).length) := by
  induction runs generalizing start with
  | nil => exact (Nat.min_eq_right hstart).symm
  | cons run runs ih =>
    rw [List.foldl_cons, ih (Nat.min_le_left _ _), List.flatMap_cons, List.length_append,
      Run.length_keys]
    omega

theorem countKeys_eq_length {runs : List Run} (h : Ascending runs) :
    countKeys runs = (runs.flatMap Run.keys).length := by
  rw [countKeys, foldl_size_eq runs (Nat.zero_le _), Nat.zero_add,
    Nat.min_eq_right (Nat.le_of_lt (length_flatMap_keys_lt h))]

theorem encode_eq_ok_iff {keys : List SegmentId} {bytes : Bytes} :
    encode keys = .ok bytes ↔ ∃ rs body, Ascending rs ∧ keys = rs.flatMap Run.keys ∧
      bytes = UInt8.ofNat version :: (Varint.encode rs.length ++ body) ∧
        Bits.IsPadded (bits rs) body := by
  constructor
  · intro h
    unfold encode at h
    split at h
    · cases h
    · next rs hruns =>
      obtain ⟨hasc, hkeys⟩ := runs_eq_ok_iff.mp hruns
      obtain ⟨body, hbytes, hbody⟩ := exists_encodeRuns rs
      rw [hbytes] at h
      cases h
      exact ⟨rs, body, hasc, hkeys, rfl, hbody⟩
  · rintro ⟨rs, body, hasc, hkeys, rfl, hbody⟩
    obtain ⟨body', hbytes, hbody'⟩ := exists_encodeRuns rs
    obtain rfl := hbody.unique hbody'
    simp only [encode, runs_eq_ok_iff.mpr ⟨hasc, hkeys⟩, hbytes]
    rfl

theorem decodeWithLimit_of_decodeRuns {bytes : Bytes} {rs : List Run}
    (h : decodeRuns bytes = .ok rs) (limit : Nat) : decodeWithLimit bytes limit =
      if (rs.flatMap Run.keys).length ≤ limit then .ok (rs.flatMap Run.keys)
      else .error (.tooManyKeys (rs.flatMap Run.keys).length limit) := by
  unfold decodeWithLimit
  rw [h]
  dsimp only
  rw [countKeys_eq_length (decodeRuns_eq_ok_iff.mp h).1]

theorem exists_decodeRuns_of_decodeWithLimit {bytes : Bytes} {limit : Nat}
    {keys : List SegmentId} (h : decodeWithLimit bytes limit = .ok keys) :
    ∃ rs, decodeRuns bytes = .ok rs ∧ keys = rs.flatMap Run.keys := by
  unfold decodeWithLimit at h
  split at h
  · cases h
  · next rs hruns =>
    split at h
    · cases h
      exact ⟨rs, hruns, rfl⟩
    · cases h

/-! ## From keys to bytes and back -/

/-- The reader `decodeRuns` reads the runs of a packed list back. -/
theorem exists_decodeRuns_of_encode {keys : List SegmentId} {bytes : Bytes}
    (h : encode keys = .ok bytes) :
    ∃ rs, Ascending rs ∧ keys = rs.flatMap Run.keys ∧ decodeRuns bytes = .ok rs := by
  obtain ⟨rs, body, hasc, hkeys, rfl, hbody⟩ := encode_eq_ok_iff.mp h
  refine ⟨rs, hasc, hkeys, decodeRuns_eq_ok_iff.mpr ⟨hasc, ?_⟩⟩
  exact ⟨Varint.encode rs.length, body, rfl,
    Varint.decode_encode_nil (length_lt_of_ascending hasc), hbody⟩

/-- **Round trip.** A packed key list unpacks to itself if `keys.length ≤ limit`; if it is longer,
`.tooManyKeys keys.length limit` is all that is told. -/
theorem decodeWithLimit_of_encode {keys : List SegmentId} {bytes : Bytes}
    (h : encode keys = .ok bytes) (limit : Nat) : decodeWithLimit bytes limit =
      if keys.length ≤ limit then .ok keys else .error (.tooManyKeys keys.length limit) := by
  obtain ⟨rs, -, rfl, hruns⟩ := exists_decodeRuns_of_encode h
  exact decodeWithLimit_of_decodeRuns hruns limit

/-- The lowest and the highest road, the latter with as many segments as a road can have. -/
theorem decodeWithLimit_of_encode_extremes :
    let keys := [⟨0, 0, false⟩, ⟨0xFFFFFFFF, 0xFFFF, true⟩].flatMap Run.keys
    ∃ bytes, encode keys = .ok bytes ∧ decodeWithLimit bytes 65538 = .ok keys ∧
      decodeWithLimit bytes 65537 = .error (.tooManyKeys 65538 65537) := by
  intro keys
  have hlen : keys.length = 65538 := (keyCount_eq_length _).symm
  obtain ⟨body, -, hbody⟩ := exists_encodeRuns [⟨0, 0, false⟩, ⟨0xFFFFFFFF, 0xFFFF, true⟩]
  have hencode : encode keys = .ok _ :=
    encode_eq_ok_iff.mpr ⟨_, body, by simp [Ascending], rfl, rfl, hbody⟩
  have hall := decodeWithLimit_of_encode hencode 65538
  have hless := decodeWithLimit_of_encode hencode 65537
  rw [hlen] at hall hless
  exact ⟨_, hencode, hall, hless⟩

/-- A packed list of no more than `maxKeys` keys, the limit where no other one is given. -/
theorem decode_of_encode {keys : List SegmentId} {bytes : Bytes} (h : encode keys = .ok bytes)
    (hmax : keys.length ≤ maxKeys) : decode bytes = .ok keys := by
  obtain ⟨rs, -, rfl, hruns⟩ := exists_decodeRuns_of_encode h
  rw [decode, decodeWithLimit_of_decodeRuns hruns, if_pos hmax]

theorem pairwise_lt_of_encode {keys : List SegmentId} {bytes : Bytes}
    (h : encode keys = .ok bytes) : keys.Pairwise (· < ·) := by
  obtain ⟨rs, hasc, rfl, -⟩ := exists_decodeRuns_of_encode h
  exact pairwise_lt_flatMap_keys hasc

/-! ## From bytes to keys and back -/

theorem pairwise_lt_of_decode {keys : List SegmentId} {bytes : Bytes}
    (h : decode bytes = .ok keys) : keys.Pairwise (· < ·) := by
  obtain ⟨rs, hruns, rfl⟩ := exists_decodeRuns_of_decodeWithLimit h
  exact pairwise_lt_flatMap_keys (decodeRuns_eq_ok_iff.mp hruns).1

/-- Bytes that unpack are a header and the bits of runs, and their list has these runs. -/
theorem exists_spelling_of_decodeWithLimit {bytes : Bytes} {limit : Nat}
    {keys : List SegmentId} (h : decodeWithLimit bytes limit = .ok keys) :
    ∃ spelling count body, bytes = UInt8.ofNat version :: (spelling ++ body) ∧
      Varint.decode spelling = .ok (count, []) ∧
      encode keys = .ok (UInt8.ofNat version :: (Varint.encode count ++ body)) := by
  obtain ⟨rs, hruns, rfl⟩ := exists_decodeRuns_of_decodeWithLimit h
  obtain ⟨hasc, spelling, body, rfl, hspelling, hbody⟩ := decodeRuns_eq_ok_iff.mp hruns
  exact ⟨spelling, rs.length, body, rfl, hspelling,
    encode_eq_ok_iff.mpr ⟨rs, body, hasc, rfl, rfl, hbody⟩⟩

/-- A list that was unpacked can be packed, and has `maxKeys` keys at most. -/
theorem exists_encode_of_decode {bytes : Bytes} {keys : List SegmentId}
    (h : decode bytes = .ok keys) :
    (∃ packed, encode keys = .ok packed) ∧ keys.length ≤ maxKeys := by
  obtain ⟨_, _, _, -, -, hencode⟩ := exists_spelling_of_decodeWithLimit h
  refine ⟨⟨_, hencode⟩, ?_⟩
  obtain ⟨rs, hruns, rfl⟩ := exists_decodeRuns_of_decodeWithLimit h
  rw [decode, decodeWithLimit_of_decodeRuns hruns] at h
  by_contra hlong
  rw [if_neg hlong] at h
  cases h

/-- **The bytes of a list.** Bytes that unpack are a `version` byte, a number of runs and the bits
of the runs. `encode keys` gives the same bytes with the number spelled in the shortest way
(`Varint.IsShortest`), which leaves no choice but that of the spelling to `other` bytes that unpack
to the same list. -/
theorem encode_of_decodeWithLimit {bytes : Bytes} {limit : Nat} {keys : List SegmentId}
    (h : decodeWithLimit bytes limit = .ok keys) :
    (∃ spelling shortest count body,
      bytes = UInt8.ofNat version :: (spelling ++ body) ∧
      Varint.decode (spelling ++ body) = .ok (count, body) ∧
      Varint.IsShortest shortest count ∧
      encode keys = .ok (UInt8.ofNat version :: (shortest ++ body)) ∧
      (Varint.IsShortest spelling count → encode keys = .ok bytes)) ∧
    ∀ other limit', decodeWithLimit other limit' = .ok keys →
      ∃ count body, Varint.decode bytes.tail = .ok (count, body) ∧
        Varint.decode other.tail = .ok (count, body) := by
  obtain ⟨spelling, count, body, rfl, hspelling, hencode⟩ := exists_spelling_of_decodeWithLimit h
  have hcount : Varint.decode (spelling ++ body) = .ok (count, body) :=
    Varint.decode_eq_ok_iff.mpr ⟨spelling, rfl, hspelling⟩
  have hlt := (Varint.decode_eq_ok_iff_decodeFrom.mp hspelling).2
  constructor
  · refine ⟨spelling, Varint.encode count, count, body, rfl, hcount,
      (Varint.isShortest_iff hlt).mpr rfl, hencode, fun hshortest => ?_⟩
    rw [(Varint.isShortest_iff hlt).mp hshortest, hencode]
  · intro other limit' hother
    obtain ⟨spelling', count', body', rfl, hspelling', hencode'⟩ :=
      exists_spelling_of_decodeWithLimit hother
    have hlt' := (Varint.decode_eq_ok_iff_decodeFrom.mp hspelling').2
    -- Both pack to the same bytes, and a spelling tells where it ends.
    rw [hencode, Except.ok.injEq, List.cons.injEq] at hencode'
    have hsame := Varint.decode_encode hlt body
    rw [hencode'.2, Varint.decode_encode hlt' body'] at hsame
    cases hsame
    exact ⟨count, body, hcount, Varint.decode_eq_ok_iff.mpr ⟨spelling', rfl, hspelling'⟩⟩

/-- One run, counted in two bytes where one would do. -/
theorem encode_of_decodeWithLimit_long_count :
    let keys : List SegmentId := [⟨5, 0, .forward⟩, ⟨5, 1, .forward⟩, ⟨5, 2, .forward⟩]
    decodeWithLimit [0, 0x81, 0, 0x94, 4] 3 = .ok keys ∧
      encode keys = .ok [0, 1, 0x94, 4] := by
  intro keys
  have h : decodeWithLimit [0, 0x81, 0, 0x94, 4] 3 = .ok keys := rfl
  refine ⟨h, ?_⟩
  obtain ⟨⟨spelling, shortest, count, body, hbytes, hcount, hshortest, hencode, -⟩, -⟩ :=
    encode_of_decodeWithLimit h
  have hone : Varint.decode [0x81, 0, 0x94, 4] = .ok (1, [0x94, 4]) := by cbv
  rw [← (List.cons.inj hbytes).2, hone, Except.ok.injEq, Prod.mk.injEq] at hcount
  obtain ⟨rfl, rfl⟩ := hcount
  rw [(Varint.isShortest_iff (by decide)).mp hshortest, Varint.encode] at hencode
  exact hencode

/-! ## Where a packed list ends -/

/-- What follows the bytes of a list is told before anything is made of the list. -/
theorem decodeRuns_append {bytes more : Bytes} {rs : List Run} (h : decodeRuns bytes = .ok rs)
    (hmore : more ≠ []) :
    decodeRuns (bytes ++ more) = .error (.bitStream (.trailingBytes more.length)) := by
  obtain ⟨hasc, spelling, body, rfl, hspelling, hpadded⟩ := decodeRuns_eq_ok_iff.mp h
  have hroom : (bits rs).length ≤ (body ++ more).length * 8 := by
    have := length_bits_le_of_isPadded hpadded
    rw [List.length_append]
    omega
  obtain ⟨padding, hlt, hbody⟩ := hpadded
  have hbits : (BitReader.new (body ++ more)).bits =
      bits rs ++ (List.replicate padding false ++ Bits.ofBytes more) := by
    rw [BitReader.bits_new, Bits.ofBytes_append, hbody, List.append_assoc]
  obtain ⟨reader', -, hleft⟩ := BitReader.take_of_bits hbits
  have hahead : (BitReader.new (body ++ more)).bits = bits rs ++ reader'.bits := by
    rw [hbits, hleft]
  rw [List.cons_append, List.append_assoc, decodeRuns_of_spelling hspelling hroom,
    readRuns_of_bits hasc hahead,
    BitReader.finish_of_bits hleft (by simpa using hlt) hmore]

/-- **A packed list tells where it ends.** Bytes `more` that follow it are counted
(`.trailingBytes more.length`), whatever the limit. So nothing that a list begins with and nothing
that begins with it is taken for a list. -/
theorem decodeWithLimit_append {bytes : Bytes} {limit : Nat} {keys : List SegmentId}
    (h : decodeWithLimit bytes limit = .ok keys) :
    (∀ more limit', more ≠ [] →
      decodeWithLimit (bytes ++ more) limit' =
        .error (.bitStream (.trailingBytes more.length))) ∧
    (∀ cut limit', cut <+: bytes → cut ≠ bytes → ∃ e, decodeWithLimit cut limit' = .error e) ∧
    ∀ other limit' keys', decodeWithLimit other limit' = .ok keys' → bytes <+: other →
      bytes = other := by
  have happend {start more : Bytes} {limit limit' : Nat} {keys : List SegmentId}
      (hstart : decodeWithLimit start limit = .ok keys) (hmore : more ≠ []) :
      decodeWithLimit (start ++ more) limit' =
        .error (.bitStream (.trailingBytes more.length)) := by
    obtain ⟨rs, hruns, -⟩ := exists_decodeRuns_of_decodeWithLimit hstart
    rw [decodeWithLimit, decodeRuns_append hruns hmore]
  refine ⟨fun more limit' hmore => happend h hmore, ?_, ?_⟩
  · rintro cut limit' ⟨more, rfl⟩ hcut
    cases hdecode : decodeWithLimit cut limit' with
    | error e => exact ⟨e, rfl⟩
    | ok keys' =>
      -- The whole would be a list with bytes after it, and it was accepted.
      have hmore : more ≠ [] := fun hnil => hcut (by rw [hnil, List.append_nil])
      rw [happend hdecode hmore] at h
      cases h
  · rintro other limit' keys' hother ⟨more, rfl⟩
    by_contra hne
    have hmore : more ≠ [] := fun hnil => hne (by rw [hnil, List.append_nil])
    rw [happend h hmore] at hother
    cases hother

/-- One run of three segments, with a byte more and with a byte less. -/
theorem decodeWithLimit_append_one_run :
    decodeWithLimit [0, 1, 0x94, 4, 0] 0 = .error (.bitStream (.trailingBytes 1)) ∧
      ∃ e, decodeWithLimit [0, 1, 0x94] 3 = .error e := by
  have h : decodeWithLimit [0, 1, 0x94, 4] 3 =
      .ok [⟨5, 0, .forward⟩, ⟨5, 1, .forward⟩, ⟨5, 2, .forward⟩] := rfl
  obtain ⟨hmore, hcut, -⟩ := decodeWithLimit_append h
  exact ⟨hmore [0] 0 (by decide), hcut [0, 1, 0x94] 3 (by decide) (by decide)⟩

end Keys

end RoadTraffic
