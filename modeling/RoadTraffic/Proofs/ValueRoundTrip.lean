import Mathlib
import RoadTraffic.Proofs.ValueCodec
import RoadTraffic.Proofs.Zlib.Pieces

/-!
# Values and their streams

* `Values.decodeWithLimit_compressed`: values that any compressor made a stream of come back from
  it, unless they are more than allowed.
* `Values.decodeStream_eq_decodeWithLimit`: `decodeStream decompressor bytes limit` is
  `decodeWithLimit bytes limit`, so that it does not matter whether a stream is inflated piece by
  piece or in one go.
* `Values.decodeStream_whole`: bytes that unpack are told from those with others after them
  (`.trailingBytes`) and from those without their end (`.truncated`).
-/

namespace RoadTraffic

namespace Values

/-- **Round trip.** All that is asked of `compress` is that its stream is inflated to `pack values`
in some `room`. Then the values come back under every limit that admits their number, the one that
is exactly their number included. Under any other limit the fault tells their number
(`.tooManyValues`), or that not even their bytes fit (`.tooLarge`). -/
theorem decodeWithLimit_compressed {compress : Bytes → Bytes} {values : List SpeedGroup}
    (hword : 3 * values.length < 2 ^ 63) {room : Nat}
    (hzlib : Zlib.inflate (compress (pack values)) room = .ok (pack values)) (limit : Nat) :
    (decodeWithLimit (compress (pack values)) limit = .ok values ↔ values.length ≤ limit) ∧
    (limit < values.length → decodeWithLimit (compress (pack values)) limit =
      if (pack values).length ≤ maxPackedLength limit then
        .error (.tooManyValues values.length limit)
      else .error (.stream (.tooLarge (maxPackedLength limit)))) := by
  have hdecode := decodeWithLimit_of_inflates hword (Zlib.inflate_of_inflate hzlib).2 limit
  by_cases hlimit : values.length ≤ limit
  · rw [if_pos hlimit] at hdecode
    exact ⟨iff_of_true hdecode hlimit, fun hlt => absurd hlimit (Nat.not_le.mpr hlt)⟩
  · rw [if_neg hlimit] at hdecode
    refine ⟨iff_of_false (fun hok => ?_) hlimit, fun _ => hdecode⟩
    rw [hdecode] at hok
    split at hok <;> cases hok

/-- A hundred values take up forty bytes, which a limit of three does not admit. -/
theorem decodeWithLimit_compressed_hundred :
    let values := List.replicate 100 SpeedGroup.tempBlock
    decodeWithLimit (encode values) 100 = .ok values ∧
      decodeWithLimit (encode values) 99 = .error (.tooManyValues 100 99) ∧
      decodeWithLimit (encode values) 3 = .error (.stream (.tooLarge 13)) := by
  intro values
  have hlength : values.length = 100 := List.length_replicate
  have hcount : Varint.encode 100 = [100] := by
    rw [Varint.encode]
    rfl
  have hpack : (pack values).length = 40 := by
    rw [length_pack, hlength, hcount]
    rfl
  have hzlib : Zlib.inflate (Zlib.deflate (pack values)) 40 = .ok (pack values) := by
    rw [Zlib.inflatesBack_deflate, if_pos hpack.le]
  have hall := decodeWithLimit_compressed (by omega) hzlib
  have hless : (pack values).length ≤ maxPackedLength 99 := by
    rw [hpack]
    decide
  have hfew : ¬ (pack values).length ≤ maxPackedLength 3 := by
    rw [hpack]
    decide
  refine ⟨(hall 100).1.mpr hlength.le, ?_, ?_⟩
  · rw [encode, (hall 99).2 (by omega), if_pos hless, hlength]
  · rw [encode, (hall 3).2 (by omega), if_neg hfew]
    rfl

/-! ## Where packed values end -/

section Pieces

variable {decompressor : Zlib.Decompressor} {bytes : Bytes} {limit : Nat}
  {values : List SpeedGroup}

theorem maxPackedLength_lt (limit : Nat) : maxPackedLength limit < Bits.maxWord := by
  simp only [maxPackedLength, maxWord, Bits.maxWord, SpeedGroup.width]
  omega

/-- **Piece by piece or in one go.** Of a decompressor for what `Zlib.content` tells of `bytes`,
`decodeStream` makes what `decodeWithLimit` makes of them: the values, or the same fault. -/
theorem decodeStream_eq_decodeWithLimit
    (h : decompressor.Streams bytes (Zlib.content bytes).1 (Zlib.content bytes).2)
    (hprompt : (Zlib.content bytes).1.length ≤ maxPackedLength limit ∨
      decompressor.Prompt bytes (Zlib.content bytes).1) :
    decodeStream decompressor bytes limit = decodeWithLimit bytes limit := by
  unfold decodeStream decodeWithLimit
  rw [Zlib.Decompressor.inflate_eq_inflate h hprompt (maxPackedLength_lt limit)]

theorem decodeStream_of_inflate_error {error : ZlibError}
    (h : decompressor.inflate bytes (maxPackedLength limit) = .error error) :
    decodeStream decompressor bytes limit = .error (.stream error) := by
  rw [decodeStream, h, decodeInflated]

/-- **Nothing more and nothing less.** All that is asked of the decompressor is that it goes from
left to right: `content` tells what each input stands for, and the calls hand out that. If `bytes`
unpack to `values`, then with `more` bytes behind them these are counted, and each `cut` that lacks
the end, be it in the header, in a block or in the checksum, is found to be cut off. -/
theorem decodeStream_whole {content : Bytes → Bytes × Zlib.Ending}
    (hcontent : Zlib.LeftToRight content)
    (hstreams : ∀ input, decompressor.Streams input (content input).1 (content input).2)
    (h : decodeStream decompressor bytes limit = .ok values) :
    (∀ more, more ≠ [] → decodeStream decompressor (bytes ++ more) limit =
      .error (.stream (.trailingBytes more.length))) ∧
    ∀ cut, cut <+: bytes → cut ≠ bytes →
      decodeStream decompressor cut limit = .error (.stream .truncated) := by
  obtain ⟨packed, hpacked, -⟩ := exists_of_decodeInflated_eq_ok h
  obtain ⟨rfl, hfits, stop, hstop, hending⟩ :=
    Zlib.Decompressor.exists_of_inflate_eq_ok (hstreams bytes) hpacked
  -- The stream takes up all of the bytes and no more than these.
  obtain rfl : stop = bytes.length := Nat.le_antisymm (hcontent.taken_le hending) hstop
  constructor
  · intro more hmore
    have hlong := hstreams (bytes ++ more)
    rw [hcontent.append hending] at hlong
    have hlength := List.length_pos_iff.mpr hmore
    have htrailing := Zlib.Decompressor.inflate_of_trailing hlong
      (by rw [List.length_append]; omega) hfits (.inl (maxPackedLength_lt limit))
    rw [List.length_append, Nat.add_sub_cancel_left] at htrailing
    exact decodeStream_of_inflate_error htrailing
  · rintro cut ⟨missing, rfl⟩ hcut
    have hmissing : missing ≠ [] := fun hnil => hcut (by rw [hnil, List.append_nil])
    have hshort := hstreams cut
    rw [hcontent.cut hmissing hending] at hshort
    -- What the calls hand out of the part is the beginning of what the whole stands for.
    have hpart := (hcontent.grows cut missing).length_le.trans hfits
    exact decodeStream_of_inflate_error
      (Zlib.Decompressor.inflate_of_truncated hshort hpart (.inl (maxPackedLength_lt limit)))

/-- One value in a stored block: with two bytes more, and then cut in the header, in the block and
in the checksum. -/
theorem decodeStream_whole_stored :
    let decompressor := Zlib.Decompressor.eager Zlib.content
    let bytes : Bytes := [0x78, 0x01, 0x01, 3, 0, 0xFC, 0xFF, 0, 1, 4, 0, 9, 0, 6]
    decodeStream decompressor bytes 1 = .ok [.g4] ∧
      decodeStream decompressor (bytes ++ [0, 0]) 1 = .error (.stream (.trailingBytes 2)) ∧
      ∀ count ∈ [0, 1, 8, 13],
        decodeStream decompressor (bytes.take count) 1 = .error (.stream .truncated) := by
  intro decompressor bytes
  have hstreams := Zlib.Decompressor.streams_eager Zlib.leftToRight_content
  have h : decodeStream decompressor bytes 1 = .ok [.g4] := by
    rw [decodeStream_eq_decodeWithLimit (hstreams bytes) (.inr (Zlib.Decompressor.prompt_eager _))]
    decide +kernel
  obtain ⟨hmore, hcut⟩ := decodeStream_whole Zlib.leftToRight_content hstreams h
  refine ⟨h, hmore [0, 0] (by decide), fun count hcount => ?_⟩
  refine hcut (bytes.take count) (List.take_prefix count bytes) fun heq => ?_
  have hlength := congrArg List.length heq
  rw [List.length_take] at hlength
  fin_cases hcount <;> cases hlength

end Pieces

end Values

end RoadTraffic
