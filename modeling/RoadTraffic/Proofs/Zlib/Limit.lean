import Mathlib
import RoadTraffic.Proofs.Zlib.Inflation

/-!
# What the limit of inflation decides

A stream is read in the same way under every limit, until more is produced than allowed. So the
limit decides nothing about a stream but whether it is too large.

* `Inflate.Grows step`: the step takes back nothing that was produced and gives back no input.
* `Inflate.Quiet step`: the step produces nothing, and `.tooLarge` is none of its faults.
* `Inflate.Capped step`: what `step limit` does, `step other` does too as long as no more than
  `other` bytes are produced, and beyond that its fault is `.tooLarge other`.
* `inflate_of_inflate`: a stream that was inflated under one limit is inflated to the same bytes
  under every limit that they fit in, and is too large under every other one.
-/

namespace RoadTraffic

/-- The faults that a stream has by itself, whatever the limit: all but `.tooLarge` and
`.trailingBytes`. -/
inductive ZlibError.IsOfStream : ZlibError → Prop where
  | corrupt : IsOfStream .corrupt
  | truncated : IsOfStream .truncated

namespace BitReader

variable {reader reader' : BitReader}

theorem rest_le_of_take {count value : Nat} (h : reader.take count = some (value, reader')) :
    reader'.rest.length ≤ reader.rest.length := by
  have hbits := congrArg List.length (take_eq_some_iff.mp h).2
  rw [List.length_append] at hbits
  rw [length_rest_of_bits, length_rest_of_bits]
  omega

theorem rest_le_of_next? {bit : Bool} (h : reader.next? = some (bit, reader')) :
    reader'.rest.length ≤ reader.rest.length := by
  have hbits := congrArg List.length (bits_eq_of_next? h)
  rw [List.length_cons] at hbits
  rw [length_rest_of_bits, length_rest_of_bits]
  omega

end BitReader

namespace Zlib

/-- In `after` no less is produced than in `before`, and no more is still to be read. -/
structure Inflater.Precedes (before after : Inflater) : Prop where
  output : before.output.toList <+: after.output.toList
  rest_le : after.input.rest.length ≤ before.input.rest.length

theorem Inflater.Precedes.trans {before between after : Inflater} (h : before.Precedes between)
    (h' : between.Precedes after) : before.Precedes after :=
  ⟨h.output.trans h'.output, h'.rest_le.trans h.rest_le⟩

namespace Inflate

/-- The `step` goes on from where it starts, even if it fails. -/
def Grows {α : Type} (step : Inflate α) : Prop :=
  ∀ state : Inflater, state.Precedes (step state).2

/-- The `step` produces nothing, and so no limit can be its fault. -/
structure Quiet {α : Type} (step : Inflate α) : Prop where
  output_eq : ∀ state, (step state).2.output = state.output
  rest_le : ∀ state, (step state).2.input.rest.length ≤ state.input.rest.length
  fault : ∀ state error, (step state).1 = .error error → error.IsOfStream

/-- What the step does under one `limit` it does under every lower one too, unless that would be
more than allowed. -/
structure Capped {α : Type} (step : Nat → Inflate α) : Prop where
  grows : ∀ limit, Grows (step limit)
  /-- Besides the faults of the stream there is only the limit, once that many bytes are there. -/
  fault : ∀ limit state error, (step limit state).1 = .error error →
    error.IsOfStream ∨ error = .tooLarge limit ∧ limit ≤ (step limit state).2.output.size
  run : ∀ limit other state, other < limit → state.output.size ≤ other →
    if (step limit state).2.output.size ≤ other then step other state = step limit state
    else (step other state).1 = .error (.tooLarge other)

variable {α β : Type}

theorem precedes_bind {step : Inflate α} {next : α → Inflate β} {state : Inflater}
    (hnext : ∀ a, Grows (next a)) :
    (step state).2.Precedes ((step >>= next) state).2 := by
  rcases hstep : step state with ⟨error | a, state'⟩
  · rw [bind_of_error hstep]
    exact ⟨List.prefix_rfl, le_rfl⟩
  · rw [bind_of_ok hstep]
    exact hnext a state'

/-! ## Steps that produce nothing -/

namespace Quiet

variable {step : Inflate α} {next : α → Inflate β}

theorem grows (h : Quiet step) : Grows step :=
  fun state => ⟨by rw [h.output_eq], h.rest_le state⟩

theorem pure (a : α) : Quiet (pure a) where
  output_eq _ := rfl
  rest_le _ := le_rfl
  fault _ _ h := by cases h

theorem throw {error : ZlibError} (h : error.IsOfStream) : Quiet (throw error : Inflate α) where
  output_eq _ := rfl
  rest_le _ := le_rfl
  fault _ _ hthrown := by
    cases hthrown
    exact h

theorem get : Quiet get where
  output_eq _ := rfl
  rest_le _ := le_rfl
  fault _ _ h := by cases h

theorem bind (h : Quiet step) (hnext : ∀ a, Quiet (next a)) : Quiet (step >>= next) := by
  constructor
  · intro state
    have houtput := h.output_eq state
    rcases hstep : step state with ⟨error | a, state'⟩ <;> rw [hstep] at houtput
    · rwa [bind_of_error hstep]
    · rw [bind_of_ok hstep, (hnext a).output_eq]
      exact houtput
  · exact fun state => (precedes_bind fun a => (hnext a).grows).rest_le.trans (h.rest_le state)
  · intro state error hfault
    rcases hstep : step state with ⟨error' | a, state'⟩
    · rw [bind_of_error hstep] at hfault
      cases hfault
      exact h.fault state _ (by rw [hstep])
    · rw [bind_of_ok hstep] at hfault
      exact (hnext a).fault state' error hfault

theorem bit : Quiet bit := by
  constructor <;> intro state <;> unfold Inflate.bit
  · split <;> rfl
  · split
    · next h => exact BitReader.rest_le_of_next? h
    · exact le_rfl
  · intro error h
    split at h <;> cases h
    exact .truncated

theorem field (width : Nat) : Quiet (field width) := by
  constructor <;> intro state <;> unfold Inflate.field
  · split <;> rfl
  · split
    · next h => exact BitReader.rest_le_of_take h
    · exact le_rfl
  · intro error h
    split at h <;> cases h
    exact .truncated

theorem align : Quiet align where
  output_eq _ := rfl
  rest_le _ := le_rfl
  fault _ _ h := by cases h

theorem symbol (tree : CodeTree) : Quiet (symbol tree) := by
  induction tree with
  | missing => exact throw .corrupt
  | leaf found => exact pure found
  | node zero one ihZero ihOne =>
    refine bit.bind fun value => ?_
    cases value
    · exact ihZero
    · exact ihOne

theorem inRange (range : SymbolRange) : Quiet (inRange range) :=
  (field range.width).bind fun _ => pure _

theorem fields (width : Nat) (done : Array Nat) (count : Nat) :
    Quiet (fields width done count) := by
  induction count generalizing done with
  | zero => exact pure done
  | succ count ih => exact (field width).bind fun value => ih (done.push value)

theorem codeLengths (code : CodeTree) (wanted : Nat) (done : Array Nat) (fuel : Nat) :
    Quiet (codeLengths code wanted done fuel) := by
  induction fuel generalizing done with
  | zero => exact throw .corrupt
  | succ fuel ih =>
    unfold Inflate.codeLengths
    split
    · exact throw .corrupt
    · split
      · exact pure done
      · refine (symbol code).bind fun found => ?_
        split
        · split
          · exact throw .corrupt
          · exact (field 2).bind fun _ => ih _
        · exact (field 3).bind fun _ => ih _
        · exact (field 7).bind fun _ => ih _
        · exact ih _

theorem ownCodes : Quiet ownCodes := by
  unfold Inflate.ownCodes
  refine (field 5).bind fun _ => (field 5).bind fun _ => (field 4).bind fun given => ?_
  dsimp only
  split
  · exact throw .corrupt
  · refine (fields 3 #[] (4 + given)).bind fun found => ?_
    split
    · exact throw .corrupt
    · refine (codeLengths _ _ _ _).bind fun lengths => ?_
      split
      · exact pure _
      · exact throw .corrupt

theorem header : Quiet header := by
  refine (field 8).bind fun _ => (field 8).bind fun _ => ?_
  dsimp only
  split
  · exact pure _
  · exact throw .corrupt

theorem checksum : Quiet checksum := by
  refine align.bind fun _ => (fields 8 #[] 4).bind fun _ => get.bind fun _ => ?_
  split
  · exact pure _
  · exact throw .corrupt

end Quiet

/-! ## Steps that produce -/

namespace Capped

variable {step : Nat → Inflate α} {next : Nat → α → Inflate β}

theorem of_quiet {step : Inflate α} (h : Quiet step) : Capped fun _ => step where
  grows _ := h.grows
  fault _ state error hfault := .inl (h.fault state error hfault)
  run _ _ state _ hroom := by rw [h.output_eq, if_pos hroom]

theorem bind (h : Capped step) (hnext : ∀ a, Capped fun limit => next limit a) :
    Capped fun limit => step limit >>= next limit := by
  constructor
  · intro limit state
    exact (h.grows limit state).trans (precedes_bind fun a => (hnext a).grows limit)
  · intro limit state error hfault
    rcases hstep : step limit state with ⟨error' | a, state'⟩
    · rw [bind_of_error hstep] at hfault ⊢
      cases hfault
      have hfirst := h.fault limit state _ (congrArg Prod.fst hstep)
      rwa [hstep] at hfirst
    · rw [bind_of_ok hstep] at hfault ⊢
      exact (hnext a).fault limit state' error hfault
  · intro limit other state hlt hroom
    have hfirst := h.run limit other state hlt hroom
    rcases hstep : step limit state with ⟨error | a, state'⟩ <;> rw [hstep] at hfirst <;>
      by_cases hmiddle : state'.output.size ≤ other
    · rw [if_pos hmiddle] at hfirst
      rw [bind_of_error hstep, bind_of_error hfirst, if_pos hmiddle]
    · rw [if_neg hmiddle] at hfirst
      rw [bind_of_error hstep, if_neg hmiddle, fst_bind_of_error hfirst]
    · rw [if_pos hmiddle] at hfirst
      rw [bind_of_ok hstep, bind_of_ok hfirst]
      exact (hnext a).run limit other state' hlt hmiddle
    · -- What is too large already does not get smaller.
      have hgrows := ((hnext a).grows limit state').output.length_le
      rw [if_neg hmiddle] at hfirst
      rw [bind_of_ok hstep, fst_bind_of_error hfirst,
        if_neg (by simp only [Array.length_toList] at hgrows; omega)]

theorem quiet_bind {step : Inflate α} (h : Quiet step)
    (hnext : ∀ a, Capped fun limit => next limit a) :
    Capped fun limit => step >>= next limit := (of_quiet h).bind hnext

theorem produce (byte : UInt8) : Capped fun limit => produce limit byte := by
  constructor
  · intro limit state
    unfold Inflate.produce
    split
    · refine ⟨?_, le_rfl⟩
      rw [Array.toList_push]
      exact List.prefix_append _ _
    · exact ⟨List.prefix_rfl, le_rfl⟩
  · intro limit state error h
    unfold Inflate.produce at h ⊢
    split at h
    · cases h
    · next hfull =>
      cases h
      rw [if_neg hfull]
      exact .inr ⟨rfl, Nat.not_lt.mp hfull⟩
  · intro limit other state hlt hroom
    unfold Inflate.produce
    rw [if_pos (Nat.lt_of_le_of_lt hroom hlt)]
    dsimp only
    rw [Array.size_push]
    by_cases hfits : state.output.size < other
    · rw [if_pos hfits, if_pos (Nat.succ_le_of_lt hfits)]
    · rw [if_neg hfits, if_neg (Nat.not_le.mpr (Nat.lt_succ_of_le (Nat.not_lt.mp hfits)))]

/-- Which byte `repeatByte` goes back to does not depend on the `limit`, and so it is `produce` of
one byte or `.corrupt` under all of them. -/
theorem repeatByte (distance : Nat) : Capped fun limit => repeatByte limit distance := by
  have hcases : ∀ state : Inflater,
      (∃ byte, ∀ limit, Inflate.repeatByte limit distance state =
        Inflate.produce limit byte state) ∨
      ∀ limit, Inflate.repeatByte limit distance state = (.error .corrupt, state) := by
    intro state
    unfold Inflate.repeatByte
    cases state.output[state.output.size - distance]? with
    | none => exact .inr fun _ => rfl
    | some byte => exact .inl ⟨byte, fun _ => rfl⟩
  constructor
  · intro limit state
    obtain ⟨byte, h⟩ | h := hcases state <;> rw [h]
    · exact (produce byte).grows limit state
    · exact ⟨List.prefix_rfl, le_rfl⟩
  · intro limit state error
    obtain ⟨byte, h⟩ | h := hcases state <;> rw [h]
    · exact (produce byte).fault limit state error
    · intro hfault
      cases hfault
      exact .inl .corrupt
  · intro limit other state hlt hroom
    obtain ⟨byte, h⟩ | h := hcases state <;> rw [h, h]
    · exact (produce byte).run limit other state hlt hroom
    · rw [if_pos hroom]

theorem repeatBytes (distance count : Nat) :
    Capped fun limit => repeatBytes limit distance count := by
  induction count with
  | zero => exact of_quiet (.pure ())
  | succ count ih => exact (repeatByte distance).bind fun _ => ih

theorem repetition (distances : CodeTree) (lengths : SymbolRange) :
    Capped fun limit => repetition limit distances lengths := by
  refine quiet_bind (.inRange lengths) fun count => quiet_bind (.symbol distances) fun found => ?_
  split
  · exact of_quiet (.throw .corrupt)
  · next range _ =>
    refine quiet_bind (.inRange range) fun distance => quiet_bind .get fun state => ?_
    split
    · exact repeatBytes distance count
    · exact of_quiet (.throw .corrupt)

theorem symbols (literals distances : CodeTree) (fuel : Nat) :
    Capped fun limit => symbols limit literals distances fuel := by
  induction fuel with
  | zero => exact of_quiet (.throw .truncated)
  | succ fuel ih =>
    refine quiet_bind (.symbol literals) fun found => ?_
    split
    · exact (produce _).bind fun _ => ih
    · split
      · exact of_quiet (.pure ())
      · split
        · exact of_quiet (.throw .corrupt)
        · next range _ => exact (repetition distances range).bind fun _ => ih

theorem copyBytes (count : Nat) : Capped fun limit => copyBytes limit count := by
  induction count with
  | zero => exact of_quiet (.pure ())
  | succ count ih => exact quiet_bind (.field 8) fun _ => (produce _).bind fun _ => ih

theorem storedBlock : Capped storedBlock := by
  refine quiet_bind .align fun _ => quiet_bind (.field 16) fun count =>
    quiet_bind (.field 16) fun complement => ?_
  split
  · exact copyBytes count
  · exact of_quiet (.throw .corrupt)

theorem blocks (fuel left : Nat) : Capped fun limit => blocks limit fuel left := by
  induction left with
  | zero => exact of_quiet (.throw .truncated)
  | succ left ih =>
    have hmore : ∀ last : Bool, Capped fun limit =>
        (if last then Pure.pure () else Inflate.blocks limit fuel left : Inflate Unit) := by
      intro last
      cases last
      · exact ih
      · exact of_quiet (.pure ())
    refine quiet_bind .bit fun last => quiet_bind (.field 2) fun kind => ?_
    dsimp only
    split
    · exact storedBlock.bind fun _ => hmore last
    · exact (symbols _ _ fuel).bind fun _ => hmore last
    · exact quiet_bind .ownCodes fun codes => (symbols _ _ fuel).bind fun _ => hmore last
    · exact quiet_bind (.throw .corrupt) fun _ => hmore last

theorem stream (fuel : Nat) : Capped fun limit => stream limit fuel :=
  quiet_bind .header fun _ => (blocks fuel fuel).bind fun _ => of_quiet .checksum

/-- A step that is done under some `limit` did not exceed it, and does the same under every `other`
that what it produced fits in. -/
theorem run_of_ok (h : Capped step) {limit : Nat} {state state' : Inflater} {a : α}
    (hroom : state.output.size ≤ limit) (hok : step limit state = (.ok a, state')) :
    state'.output.size ≤ limit ∧ ∀ other, state.output.size ≤ other →
      if state'.output.size ≤ other then step other state = (.ok a, state')
      else (step other state).1 = .error (.tooLarge other) := by
  have habove : ∀ larger, limit < larger →
      state'.output.size ≤ limit ∧ step larger state = (.ok a, state') := by
    intro larger hlt
    have hrun := h.run larger limit state hlt hroom
    by_cases hfits : (step larger state).2.output.size ≤ limit
    · rw [if_pos hfits, hok] at hrun
      rw [← hrun] at hfits
      exact ⟨hfits, hrun.symm⟩
    · rw [if_neg hfits, hok] at hrun
      cases hrun
  refine ⟨(habove (limit + 1) (Nat.lt_succ_self limit)).1, fun other hother => ?_⟩
  -- Both limits are compared to one that is above either.
  obtain ⟨-, hlarger⟩ := habove (max limit other + 1) (by omega)
  have hrun := h.run (max limit other + 1) other state (by omega) hother
  rwa [hlarger] at hrun

end Capped

end Inflate

/-- **The limit only caps.** A stream that is inflated under some `limit` does not exceed it, is
inflated to the same bytes wherever they fit, and is too large everywhere else: under `other` it
comes to `.ok bytes` or to `.error (.tooLarge other)`. -/
theorem inflate_of_inflate {input bytes : Bytes} {limit : Nat}
    (h : inflate input limit = .ok bytes) :
    bytes.length ≤ limit ∧ ∀ other, inflate input other =
      if bytes.length ≤ other then .ok bytes else .error (.tooLarge other) := by
  obtain ⟨state, hrun, hend, rfl⟩ := inflate_eq_ok_iff.mp h
  obtain ⟨hlimit, hall⟩ :=
    (Inflate.Capped.stream (BitReader.new input).remaining).run_of_ok (Nat.zero_le _) hrun
  rw [Array.length_toList]
  refine ⟨hlimit, fun other => ?_⟩
  have hother := hall other (Nat.zero_le _)
  by_cases hfits : state.output.size ≤ other
  · rw [if_pos hfits] at hother
    rw [if_pos hfits, inflate_eq_ok_iff]
    exact ⟨state, hother, hend, rfl⟩
  · rw [if_neg hfits] at hother
    rw [if_neg hfits, inflate_of_stream_error hother]

end Zlib

end RoadTraffic
