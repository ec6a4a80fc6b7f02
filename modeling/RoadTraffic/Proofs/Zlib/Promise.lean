import Mathlib
import RoadTraffic.Proofs.Zlib.Content
import RoadTraffic.Zlib.Decompressor

/-!
# What a decompressor promises

Decompressors differ in how they cut a stream into pieces, and they may look ahead. All that is
asked of one is what every streaming inflater promises: what it hands out is the beginning of one
and the same output, it tells the end when all of that is handed out, and it comes to a stop before
the end only for want of room or input.

* `Decompressor.Reaches`: where calls may lead, each of them with any room.
* `Decompressor.Streams decompressor bytes whole ending`: the promise for `bytes`, which stand for
  `whole` and end with `ending`.
* `Decompressor.Prompt decompressor bytes whole`: it does not stop before `whole` is handed out. A
  decompressor that finds the end of a stream has no other choice (`Streams.prompt`).
* `Decompressor.eager content`: a decompressor for whatever inputs stand for. It keeps the promise
  (`streams_eager`) and is prompt (`prompt_eager`).
-/

namespace RoadTraffic

namespace Zlib

namespace Decompressor

/-- Calls lead from `decompressor.start` to a state, with `taken` bytes of the input taken and
`output` handed out. Each of them may have had any `room`. -/
inductive Reaches (decompressor : Decompressor) (bytes : Bytes) :
    decompressor.State → Nat → Bytes → Prop where
  | start : Reaches decompressor bytes decompressor.start 0 []
  | call {state : decompressor.State} {taken room : Nat} {output : Bytes}
      {piece : Piece decompressor.State (bytes.drop taken) room}
      (h : Reaches decompressor bytes state taken output)
      (hcall : decompressor.call state (bytes.drop taken) room = some piece)
      (hmore : piece.ended = false) :
      Reaches decompressor bytes piece.state (taken + piece.taken) (output ++ piece.output)

/-- What the decompressor promises for an input that stands for `whole`, as far as that is known,
and ends with `ending`. -/
structure Streams (decompressor : Decompressor) (bytes whole : Bytes) (ending : Ending) : Prop where
  /-- However the calls are made, they hand out the same bytes in the same order. -/
  handsOut : ∀ {state taken output room piece}, Reaches decompressor bytes state taken output →
    decompressor.call state (bytes.drop taken) room = some piece → output ++ piece.output <+: whole
  /-- The end is told when everything is handed out, and just the stream is taken. -/
  ends : ∀ {state taken output room piece}, Reaches decompressor bytes state taken output →
    decompressor.call state (bytes.drop taken) room = some piece → piece.ended = true →
      output ++ piece.output = whole ∧ ending = .complete (taken + piece.taken)
  /-- With room, a call that brings nothing is short of input. -/
  stalls : ∀ {state taken output room piece}, Reaches decompressor bytes state taken output →
    decompressor.call state (bytes.drop taken) room = some piece → 0 < room →
      piece.ended = false → piece.taken = 0 → piece.output = [] → ending = .truncated
  /-- Only a stream that breaks a rule is refused. -/
  fails : ∀ {state taken output room}, Reaches decompressor bytes state taken output →
    decompressor.call state (bytes.drop taken) room = none → ending = .corrupt

/-- The decompressor is short of input, or refuses it, only once `whole` is handed out. One that
looks ahead may find a broken rule before. -/
structure Prompt (decompressor : Decompressor) (bytes whole : Bytes) : Prop where
  stalls : ∀ {state taken output room piece}, Reaches decompressor bytes state taken output →
    decompressor.call state (bytes.drop taken) room = some piece → 0 < room →
      piece.ended = false → piece.taken = 0 → piece.output = [] → output = whole
  fails : ∀ {state taken output room}, Reaches decompressor bytes state taken output →
    decompressor.call state (bytes.drop taken) room = none → output = whole

variable {decompressor : Decompressor} {bytes whole : Bytes} {stop taken : Nat} {output : Bytes}
  {ending : Ending}

/-- A stream that is `.complete stop` does not stall and does not fail, and so nothing can come in
between. -/
theorem Streams.prompt (h : Streams decompressor bytes whole (.complete stop)) :
    Prompt decompressor bytes whole where
  stalls hreaches hcall hroom hmore htaken hnothing := by
    cases h.stalls hreaches hcall hroom hmore htaken hnothing
  fails hreaches hcall := by cases h.fails hreaches hcall

/-! ## A decompressor that keeps the promise -/

end Decompressor

namespace Ending

/-- How many bytes of an input of `length` bytes are taken. -/
def extent (length : Nat) : Ending → Nat
  | complete stop => min stop length
  | _ => length

/-- The ending as seen from behind the first `taken` bytes, where a stream that is `complete stop`
ends after `stop - taken` more. -/
def after (taken : Nat) : Ending → Ending
  | complete stop => complete (stop - taken)
  | ending => ending

/-- The stream comes to its end, as only `complete` does. -/
def isComplete : Ending → Bool
  | complete _ => true
  | _ => false

variable (ending : Ending) {length taken more : Nat}

theorem after_zero : ending.after 0 = ending := by
  cases ending <;> rfl

theorem after_after : (ending.after taken).after more = ending.after (taken + more) := by
  cases ending with
  | complete stop => rw [after, after, after, Nat.sub_sub]
  | truncated | corrupt => rfl

theorem add_extent_le (h : taken ≤ ending.extent length) :
    taken + (ending.after taken).extent (length - taken) ≤ ending.extent length := by
  cases ending <;> simp only [after, extent] at h ⊢ <;> omega

/-- A stream that is complete behind its first `taken` bytes is so from its beginning, and its
`extent` is what is left to be taken. -/
theorem eq_complete {ending : Ending} (h : (ending.after taken).isComplete)
    (htaken : taken ≤ ending.extent length)
    (hstop : ∀ {stop}, ending = .complete stop → stop ≤ length) :
    ending = .complete (taken + (ending.after taken).extent (length - taken)) := by
  cases ending with
  | complete stop =>
    have := hstop rfl
    simp only [after, extent] at htaken ⊢
    congr 1
    omega
  | truncated | corrupt => cases h

end Ending

namespace Decompressor

variable {content : Bytes → Bytes × Ending}

/-- What is still to be handed out, and the ending: at the first call, where nothing is `left` yet,
all that the input stands for. -/
def pending (content : Bytes → Bytes × Ending) (left : Option (Bytes × Ending)) (input : Bytes) :
    Bytes × Ending := left.getD (content input)

/-- Takes all of the stream that is in the `input`, and hands out as much of what is `left` as there
is `room` for. -/
def handOut (left : Bytes × Ending) (input : Bytes) (room : Nat) :
    Piece (Option (Bytes × Ending)) input room where
  state := some (left.1.drop room, left.2.after (left.2.extent input.length))
  taken := left.2.extent input.length
  output := left.1.take room
  ended := left.2.isComplete && left.1.length ≤ room
  taken_le := by
    cases left.2 with
    | complete stop => exact Nat.min_le_right stop _
    | truncated | corrupt => exact Nat.le_refl _
  length_le := List.length_take_le room left.1

/-- Works out at the first call what the input stands for, its `content`, and hands it out from call
to call. A broken rule is told when nothing is left to hand out before it. -/
def eager (content : Bytes → Bytes × Ending) : Decompressor where
  State := Option (Bytes × Ending)
  start := none
  call state input room :=
    if pending content state input = ([], .corrupt) then none
    else some (handOut (pending content state input) input room)

section Eager

variable {state : (eager content).State} {left : Bytes × Ending} {input : Bytes} {room : Nat}

theorem eq_handOut_of_call {piece : Piece (eager content).State input room}
    (hleft : pending content state input = left)
    (hcall : (eager content).call state input room = some piece) :
    left ≠ ([], .corrupt) ∧ piece = handOut left input room := by
  subst hleft
  simp only [eager] at hcall
  split at hcall
  · cases hcall
  · next hmore => exact ⟨hmore, (Option.some.inj hcall).symm⟩

theorem eq_corrupt_of_call (hleft : pending content state input = left)
    (hcall : (eager content).call state input room = none) : left = ([], .corrupt) := by
  subst hleft
  simp only [eager] at hcall
  split at hcall
  · assumption
  · cases hcall

/-- What is handed out and what is `pending` make up the whole, and no more of the input is taken
than belongs to the stream. -/
theorem exists_pending_of_reaches (h : Reaches (eager content) bytes state taken output) :
    ∃ left, pending content state (bytes.drop taken) = (left, (content bytes).2.after taken) ∧
      output ++ left = (content bytes).1 ∧ taken ≤ (content bytes).2.extent bytes.length := by
  induction h with
  | start => exact ⟨(content bytes).1, by rw [Ending.after_zero]; rfl, rfl, Nat.zero_le _⟩
  | @call _ taken room _ _ _ hcall _ ih =>
    obtain ⟨left, hleft, hwhole, htaken⟩ := ih
    obtain ⟨-, rfl⟩ := eq_handOut_of_call hleft hcall
    refine ⟨left.drop room, ?_, ?_, ?_⟩
    · exact Prod.ext rfl (Ending.after_after _)
    · rw [handOut, List.append_assoc, List.take_append_drop, hwhole]
    · have htaken' := Ending.add_extent_le (content bytes).2 htaken
      rwa [← List.length_drop] at htaken'

/-- A call that brings nothing though there is `room` has nothing `left` to hand out. -/
theorem eq_nil_of_stall {left : Bytes} (hroom : 0 < room) (hnothing : left.take room = []) :
    left = [] := by
  rcases List.take_eq_nil_iff.mp hnothing with hzero | hnil
  · omega
  · exact hnil

/-- An `eager` decompressor keeps the promise for the `content` that it is made for. -/
theorem streams_eager (h : LeftToRight content) (bytes : Bytes) :
    Streams (eager content) bytes (content bytes).1 (content bytes).2 where
  handsOut hreaches hcall := by
    obtain ⟨left, hleft, hwhole, -⟩ := exists_pending_of_reaches hreaches
    obtain ⟨-, rfl⟩ := eq_handOut_of_call hleft hcall
    rw [← hwhole]
    exact (List.prefix_append_right_inj _).mpr (List.take_prefix _ left)
  ends hreaches hcall hended := by
    obtain ⟨left, hleft, hwhole, htaken⟩ := exists_pending_of_reaches hreaches
    obtain ⟨-, rfl⟩ := eq_handOut_of_call hleft hcall
    obtain ⟨hcomplete, hfits⟩ := Bool.and_eq_true_iff.mp hended
    have hall : left.take _ = left := List.take_of_length_le (of_decide_eq_true hfits)
    refine ⟨(congrArg _ hall).trans hwhole, ?_⟩
    have hending := Ending.eq_complete hcomplete htaken h.taken_le
    rwa [← List.length_drop] at hending
  stalls hreaches hcall hroom hmore _ hnothing := by
    obtain ⟨left, hleft, -, -⟩ := exists_pending_of_reaches hreaches
    obtain ⟨hfine, rfl⟩ := eq_handOut_of_call hleft hcall
    obtain rfl := eq_nil_of_stall hroom hnothing
    cases hending : (content bytes).2 with
    | complete stop =>
      rw [hending] at hmore
      cases hmore
    | truncated => rfl
    | corrupt => exact absurd (by rw [hending]; rfl) hfine
  fails hreaches hcall := by
    obtain ⟨left, hleft, -, -⟩ := exists_pending_of_reaches hreaches
    have hcorrupt := congrArg Prod.snd (eq_corrupt_of_call hleft hcall)
    cases hending : (content bytes).2 with
    | corrupt => rfl
    | complete stop | truncated => rw [hending] at hcorrupt; cases hcorrupt

theorem prompt_eager (bytes : Bytes) : Prompt (eager content) bytes (content bytes).1 where
  stalls hreaches hcall hroom _ _ hnothing := by
    obtain ⟨left, hleft, hwhole, -⟩ := exists_pending_of_reaches hreaches
    obtain ⟨-, rfl⟩ := eq_handOut_of_call hleft hcall
    obtain rfl := eq_nil_of_stall hroom hnothing
    rw [← hwhole, List.append_nil]
  fails hreaches hcall := by
    obtain ⟨left, hleft, hwhole, -⟩ := exists_pending_of_reaches hreaches
    obtain rfl := congrArg Prod.fst (eq_corrupt_of_call hleft hcall)
    rw [← hwhole, List.append_nil]

end Eager

end Decompressor

end Zlib

end RoadTraffic
