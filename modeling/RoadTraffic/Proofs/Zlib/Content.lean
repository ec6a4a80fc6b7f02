import Mathlib
import RoadTraffic.Proofs.Zlib.Streaming

/-!
# What an input stands for

Apart from any limit, an input stands for some bytes and ends in some way: with the end of its
stream, short of it, or with a broken rule. Both are told from left to right.

* `Ending`: how an input ends; `Ending.result`: what is to be made of an input that ends so.
* `content input`: the bytes that `input` stands for, as far as it goes, and its ending.
* `inflate_eq_result`: `inflate input limit` is told by `content input` and `limit` alone.
* `LeftToRight content`: more input only adds to what is known already; `leftToRight_content`:
  inflation is that way.
* `LeftToRight.append`/`LeftToRight.cut`: what this says of a whole stream with bytes behind it, and
  of one from which the end is missing.
-/

namespace RoadTraffic

namespace Zlib

/-- How an input ends, apart from any limit. -/
inductive Ending where
  /-- The stream takes up the first `taken` bytes. -/
  | complete (taken : Nat)
  /-- The input ends inside the stream. -/
  | truncated
  /-- The stream breaks a rule. -/
  | corrupt
  deriving DecidableEq, Repr

namespace Ending

/-- What is to be made of an `input` that stands for `whole`, if `whole` is not too large. -/
def result (input whole : Bytes) : Ending → Except ZlibError Bytes
  | complete taken =>
    if taken < input.length then .error (.trailingBytes (input.length - taken)) else .ok whole
  | truncated => .error .truncated
  | corrupt => .error .corrupt

/-- The ending of an input of `length` bytes, told by what came of its stream and by how many bytes
are `left`. -/
def ofStream (length left : Nat) : Except ZlibError Unit → Ending
  | .ok () => complete (length - left)
  | .error .truncated => truncated
  | .error _ => corrupt

end Ending

/-- The bytes that an `input` stands for, as far as it goes, and how it ends. No more bytes are
known than `Bits.maxWord`, which a word can count. -/
def content (input : Bytes) : Bytes × Ending :=
  let run := Inflate.stream Bits.maxWord (BitReader.new input).remaining ⟨.new input, #[]⟩
  (run.2.output.toList, .ofStream input.length run.2.input.rest.length run.1)

section Content

variable {input : Bytes} {limit : Nat} {state : Inflater} {result : Except ZlibError Unit}

theorem content_of_stream (h : Inflate.stream Bits.maxWord (BitReader.new input).remaining
      ⟨.new input, #[]⟩ = (result, state)) :
    content input =
      (state.output.toList, .ofStream input.length state.input.rest.length result) := by
  unfold content
  rw [h]

/-- **What decides.** Under a `limit` that a word can exceed, an input is inflated to what its
ending makes of `(content input).1` if that fits, and is too large otherwise. -/
theorem inflate_eq_result (hlimit : limit < Bits.maxWord) : inflate input limit =
    if (content input).1.length ≤ limit then (content input).2.result input (content input).1
    else .error (.tooLarge limit) := by
  have hcapped := Inflate.Capped.stream (BitReader.new input).remaining
  have hrun := hcapped.run Bits.maxWord limit ⟨.new input, #[]⟩ hlimit (Nat.zero_le _)
  rcases hstream : Inflate.stream Bits.maxWord (BitReader.new input).remaining
    ⟨.new input, #[]⟩ with ⟨result, state⟩
  rw [hstream] at hrun
  rw [content_of_stream hstream, Array.length_toList]
  by_cases hfits : state.output.size ≤ limit
  · rw [if_pos hfits] at hrun ⊢
    cases result with
    | error error =>
      rw [inflate_of_stream_error (congrArg Prod.fst hrun)]
      -- With less than the limit produced, only the stream can be at fault.
      obtain hfault | ⟨-, hfull⟩ :=
        hcapped.fault Bits.maxWord _ error (congrArg Prod.fst hstream)
      · cases hfault <;> rfl
      · rw [hstream] at hfull
        exact absurd (hfull.trans hfits) (Nat.not_le.mpr hlimit)
    | ok =>
      have hleft := (hcapped.grows Bits.maxWord ⟨.new input, #[]⟩).rest_le
      rw [hstream] at hleft
      change state.input.rest.length ≤ input.length at hleft
      rw [inflate_of_stream_ok hrun]
      change _ = if input.length - state.input.rest.length < input.length then _ else _
      by_cases hend : state.input.rest = []
      · simp [hend]
      · have hpos := List.length_pos_iff.mpr hend
        rw [if_neg (by simpa using hend), if_pos (by omega), Nat.sub_sub_self hleft]
  · rw [if_neg hfits] at hrun
    rw [if_neg hfits, inflate_of_stream_error hrun]

end Content

/-! ## From left to right -/

/-- What inputs stand for is told from left to right. -/
structure LeftToRight (content : Bytes → Bytes × Ending) : Prop where
  /-- A stream ends within its input. -/
  taken_le : ∀ {input taken}, (content input).2 = .complete taken → taken ≤ input.length
  /-- Whatever comes behind the end of a stream, or behind the place where it breaks a rule, does
  not count. -/
  settled : ∀ {input} more, (content input).2 ≠ .truncated → content (input ++ more) = content input
  /-- What an input stands for is part of what it stands for with more behind it. -/
  grows : ∀ input more, (content input).1 <+: (content (input ++ more)).1

namespace LeftToRight

variable {content : Bytes → Bytes × Ending} {input missing : Bytes}

theorem append (h : LeftToRight content) (hend : (content input).2 = .complete input.length)
    (more : Bytes) : content (input ++ more) = ((content input).1, .complete input.length) := by
  rw [h.settled more (by rw [hend]; simp), ← hend]

/-- Had the stream come to its end in `input`, the bytes of `missing` would be left over, so that
the whole could not be `.complete` with them; had it broken a rule there, it would do so in the
whole. -/
theorem cut (h : LeftToRight content) (hmissing : missing ≠ [])
    (hend : (content (input ++ missing)).2 = .complete (input ++ missing).length) :
    (content input).2 = .truncated := by
  by_contra hcut
  have hsettled := h.settled missing hcut
  rw [hsettled] at hend
  have htaken := h.taken_le hend
  have hlength := List.length_pos_iff.mpr hmissing
  rw [List.length_append] at htaken
  omega

end LeftToRight

/-- Inflation goes from left to right: `streams_stream`, told of what inputs stand for. -/
theorem leftToRight_content : LeftToRight content := by
  have hextend : ∀ input more : Bytes,
      (content input).2 = .truncated ∧ (content input).1 <+: (content (input ++ more)).1 ∨
      content (input ++ more) = content input := by
    intro input more
    have hrun := (streams_stream input more Bits.maxWord).run ⟨.new input, #[]⟩ more
    rcases hstream : Inflate.stream Bits.maxWord (BitReader.new input).remaining
      ⟨.new input, #[]⟩ with ⟨result, state⟩
    rw [hstream] at hrun
    rw [content_of_stream hstream]
    obtain ⟨hcut, hprefix⟩ | hlong := hrun
    · cases hcut
      exact .inl ⟨rfl, hprefix⟩
    · right
      rw [content_of_stream hlong]
      refine Prod.ext rfl ?_
      -- The bytes of `more` are all left over.
      have hleft : (state.extend more).input.rest.length =
          state.input.rest.length + more.length := List.length_append
      cases result with
      | ok =>
        rw [Ending.ofStream, Ending.ofStream, hleft, List.length_append,
          Nat.add_sub_add_right]
      | error error => cases error <;> rfl
  constructor
  · intro input taken hend
    unfold content at hend
    dsimp only at hend
    unfold Ending.ofStream at hend
    split at hend
    · cases hend
      exact Nat.sub_le _ _
    · cases hend
    · cases hend
  · intro input more hend
    exact (hextend input more).resolve_left fun h => hend h.1
  · intro input more
    obtain ⟨-, hprefix⟩ | hsame := hextend input more
    · exact hprefix
    · rw [hsame]

end Zlib

end RoadTraffic
