import Mathlib
import RoadTraffic.Proofs.Zlib.Promise
import RoadTraffic.Proofs.Zlib.RoundTrip

/-!
# Inflating piece by piece under a limit

Whatever decompressor is called, what comes out of the calls does not depend on how much room each
of them had.

* `Decompressor.run_of_streams`: what the calls make of an input that stands for `whole`.
* `Decompressor.inflate_of_streams`: the same for `inflate`, in terms of `Ending.result`; by the
  endings `inflate_of_complete`, `inflate_of_trailing` and `inflate_of_truncated`.
* `Decompressor.inflate_eq_inflate`: where the decompressor is prompt or the output fits, the pieces
  come to what `Zlib.inflate` makes of the input in one go, faults included.
* `Decompressor.inflate_under_every_limit`: a stream that was inflated under one limit is inflated
  to the same bytes under every limit that they fit in, and is too large under every other one.
-/

namespace RoadTraffic

namespace Zlib

namespace Decompressor

variable {decompressor : Decompressor} {bytes whole found : Bytes} {ending : Ending}
  {state : decompressor.State} {taken stop spare limit : Nat} {output : Bytes}

/-! ## What comes out of the calls -/

/-- What comes out of `run` is everything that the input stands for. -/
theorem eq_of_run_eq_ok (h : Streams decompressor bytes whole ending)
    (hreaches : Reaches decompressor bytes state taken output)
    (hrun : decompressor.run bytes limit state taken output spare = .ok (stop, found)) :
    found = whole ∧ ending = .complete stop ∧ found.length ≤ limit := by
  fun_induction run with
  | case1 => cases hrun
  | case2 => cases hrun
  | case3 state taken output _ _ _ piece hcall hfits hended =>
    cases hrun
    obtain ⟨hwhole, hending⟩ := h.ends hreaches hcall hended
    exact ⟨hwhole, hending, Nat.not_lt.mp hfits⟩
  | case4 => cases hrun
  | case5 state taken output _ _ _ piece hcall _ hmore _ ih =>
    exact ih (hreaches.call hcall (Bool.eq_false_iff.mpr hmore)) hrun

end Decompressor

/-- What the calls come to if `whole` is not too large: how much of the input was taken, and all of
the output. -/
def Ending.verdict (whole : Bytes) : Ending → Except ZlibError (Nat × Bytes)
  | complete taken => .ok (taken, whole)
  | truncated => .error .truncated
  | corrupt => .error .corrupt

namespace Decompressor

/-- The induction is on the calls of `run`. As long as what is made fits, there is room for a byte
more, so that a call which brings nothing is short of input and not of room. A stop that comes
before `whole` is handed out would hide that `whole` is too large; that is what `hprompt` keeps
out. -/
theorem run_of_streams (h : Streams decompressor bytes whole ending)
    (hprompt : whole.length ≤ limit ∨ Prompt decompressor bytes whole)
    (hword : limit < Bits.maxWord ∨ whole.length < Bits.maxWord)
    (hreaches : Reaches decompressor bytes state taken output) (hfits : output.length ≤ limit)
    (hbegins : output <+: whole) :
    decompressor.run bytes limit state taken output spare =
      if whole.length ≤ limit then ending.verdict whole else .error (.tooLarge limit) := by
  -- Wherever the calls stop, no more than `limit` bytes were handed out.
  have hstop : whole.length ≤ limit ∨ output = whole → whole.length ≤ limit := by
    rintro (hwhole | rfl)
    exacts [hwhole, hfits]
  fun_induction run with
  | case1 state taken output _ _ _ hcall =>
    obtain rfl := h.fails hreaches hcall
    rw [if_pos (hstop (hprompt.imp_right fun hp => hp.fails hreaches hcall)), Ending.verdict]
  | case2 state taken output _ _ _ piece hcall hlarge =>
    have hlength := (h.handsOut hreaches hcall).length_le
    rw [if_neg (by omega)]
  | case3 state taken output _ _ _ piece hcall hfits' hended =>
    obtain ⟨rfl, rfl⟩ := h.ends hreaches hcall hended
    rw [if_pos (Nat.not_lt.mp hfits'), Ending.verdict]
  | case4 state taken output spare room spare' piece hcall _ hmore hnothing =>
    have hlength := hbegins.length_le
    have hroom : 0 < room := by omega
    have hchunk : 0 < chunk bytes := by
      rw [chunk]
      omega
    have hspare : 0 < spare' := by omega
    have hmore := Bool.eq_false_iff.mpr hmore
    obtain rfl := h.stalls hreaches hcall hspare hmore hnothing.1 hnothing.2
    rw [if_pos (hstop (hprompt.imp_right fun hp =>
      hp.stalls hreaches hcall hspare hmore hnothing.1 hnothing.2)), Ending.verdict]
  | case5 state taken output _ _ _ piece hcall hfits' hmore _ ih =>
    have hfits' := Nat.not_lt.mp hfits'
    exact ih (hreaches.call hcall (Bool.eq_false_iff.mpr hmore)) hfits'
      (h.handsOut hreaches hcall) (Or.rec id fun hwhole => hwhole ▸ hfits')

/-! ## What is made of the input -/

theorem exists_of_inflate_eq_ok (h : Streams decompressor bytes whole ending)
    (hinflate : decompressor.inflate bytes limit = .ok found) :
    found = whole ∧ found.length ≤ limit ∧
      ∃ stop, bytes.length ≤ stop ∧ ending = .complete stop := by
  unfold inflate at hinflate
  split at hinflate
  · cases hinflate
  · next stop output hrun =>
    obtain ⟨hwhole, hending, hlength⟩ := eq_of_run_eq_ok h .start hrun
    split at hinflate
    · cases hinflate
    · next hstop =>
      cases hinflate
      exact ⟨hwhole, hlength, stop, Nat.not_lt.mp hstop, hending⟩

/-- **What comes of the pieces.** Under a `limit` that `whole` fits in, the ending of the input
decides: `.ok whole`, `.trailingBytes`, `.truncated` or `.corrupt`. Under any other one the stream
is too large. -/
theorem inflate_of_streams (h : Streams decompressor bytes whole ending)
    (hprompt : whole.length ≤ limit ∨ Prompt decompressor bytes whole)
    (hword : limit < Bits.maxWord ∨ whole.length < Bits.maxWord) :
    decompressor.inflate bytes limit =
      if whole.length ≤ limit then ending.result bytes whole else .error (.tooLarge limit) := by
  unfold inflate
  rw [run_of_streams h hprompt hword .start (Nat.zero_le limit) List.nil_prefix]
  by_cases hfits : whole.length ≤ limit
  · rw [if_pos hfits, if_pos hfits]
    cases ending <;> rfl
  · rw [if_neg hfits, if_neg hfits]

theorem inflate_of_complete (h : Streams decompressor bytes whole (.complete stop))
    (hstop : bytes.length ≤ stop) (hword : limit < Bits.maxWord ∨ whole.length < Bits.maxWord) :
    decompressor.inflate bytes limit =
      if whole.length ≤ limit then .ok whole else .error (.tooLarge limit) := by
  rw [inflate_of_streams h (.inr h.prompt) hword, Ending.result, if_neg (Nat.not_lt.mpr hstop)]

/-- The bytes from `stop` on are not part of the stream, and `.trailingBytes` counts them. -/
theorem inflate_of_trailing (h : Streams decompressor bytes whole (.complete stop))
    (hstop : stop < bytes.length) (hfits : whole.length ≤ limit)
    (hword : limit < Bits.maxWord ∨ whole.length < Bits.maxWord) :
    decompressor.inflate bytes limit = .error (.trailingBytes (bytes.length - stop)) := by
  rw [inflate_of_streams h (.inl hfits) hword, if_pos hfits, Ending.result, if_pos hstop]

/-- An input that ends inside its stream is neither `.corrupt` nor too large: with room for a byte
more, a call that brings nothing is short of input. -/
theorem inflate_of_truncated (h : Streams decompressor bytes whole .truncated)
    (hfits : whole.length ≤ limit) (hword : limit < Bits.maxWord ∨ whole.length < Bits.maxWord) :
    decompressor.inflate bytes limit = .error .truncated := by
  rw [inflate_of_streams h (.inl hfits) hword, if_pos hfits, Ending.result]

/-- **One go or many.** A decompressor for what inputs stand for comes to what `Zlib.inflate` comes
to, be that bytes or any of the faults. Only where a `limit` is exceeded by an input without an end
it matters how the decompressor looks ahead, and so that it is prompt. -/
theorem inflate_eq_inflate
    (h : Streams decompressor bytes (content bytes).1 (content bytes).2)
    (hprompt : (content bytes).1.length ≤ limit ∨ Prompt decompressor bytes (content bytes).1)
    (hlimit : limit < Bits.maxWord) :
    decompressor.inflate bytes limit = Zlib.inflate bytes limit := by
  rw [inflate_of_streams h hprompt (.inl hlimit), inflate_eq_result hlimit]

/-- **The limit is exact.** What a decompressor makes of a stream piece by piece does not exceed the
limit. Under every other limit, and however that cuts the output into pieces, the same bytes come
out wherever they fit, and the stream is too large everywhere else. If they are what the stream is
inflated to in one go, that is the same under every limit too. -/
theorem inflate_under_every_limit (h : Streams decompressor bytes whole ending)
    (hlimit : limit ≤ Bits.maxWord) (hinflate : decompressor.inflate bytes limit = .ok found) :
    found.length ≤ limit ∧
    (∀ other ≤ Bits.maxWord, decompressor.inflate bytes other =
      if found.length ≤ other then .ok found else .error (.tooLarge other)) ∧
    ∀ room, Zlib.inflate bytes room = .ok found → ∀ other ≤ Bits.maxWord,
      Zlib.inflate bytes other = decompressor.inflate bytes other := by
  obtain ⟨rfl, hlength, stop, hstop, rfl⟩ := exists_of_inflate_eq_ok h hinflate
  have hevery : ∀ other ≤ Bits.maxWord, decompressor.inflate bytes other =
      if found.length ≤ other then .ok found else .error (.tooLarge other) := by
    intro other hother
    by_cases hword : other < Bits.maxWord ∨ found.length < Bits.maxWord
    · exact inflate_of_complete h hstop hword
    · -- The output is as long as a word can tell, and the limit was no less.
      obtain rfl : other = limit := by omega
      rw [hinflate, if_pos hlength]
  exact ⟨hlength, hevery, fun room hroom other hother => by
    rw [(inflate_of_inflate hroom).2, hevery other hother]⟩

/-- Six hundred zeros, for which three calls are made: `.ok` under a limit of 600, and
`.tooLarge 599` under one less. -/
theorem inflate_under_every_limit_six_hundred_zeros :
    let zeros : Bytes := List.replicate 600 0
    let decompressor := eager content
    decompressor.inflate (deflate zeros) 1000 = .ok zeros ∧
    decompressor.inflate (deflate zeros) 600 = .ok zeros ∧
    decompressor.inflate (deflate zeros) 599 = .error (.tooLarge 599) ∧
    Zlib.inflate (deflate zeros) 599 = decompressor.inflate (deflate zeros) 599 := by
  intro zeros decompressor
  have hlength : zeros.length = 600 := List.length_replicate
  have hroom : Zlib.inflate (deflate zeros) 600 = .ok zeros := by
    rw [inflatesBack_deflate, if_pos hlength.le]
  have hstreams := streams_eager leftToRight_content (deflate zeros)
  have h : decompressor.inflate (deflate zeros) 1000 = .ok zeros := by
    rw [inflate_eq_inflate hstreams (.inr (prompt_eager _)) (by decide), inflatesBack_deflate,
      if_pos (by omega)]
  obtain ⟨-, hevery, hwhole⟩ := inflate_under_every_limit hstreams (by decide) h
  exact ⟨h, (hevery 600 (by decide)).trans (if_pos hlength.le),
    (hevery 599 (by decide)).trans (if_neg (by omega)), hwhole 600 hroom 599 (by decide)⟩

end Decompressor

end Zlib

end RoadTraffic
