import Mathlib
import RoadTraffic.Proofs.Zlib.Limit

/-!
# Inflating from left to right

A stream is read from left to right, and nothing is read before it is needed. So what has been made
of the input at hand stays right when more of it comes in.

* `Inflate.Streams short long`: with `more` input, `long` does what `short` did, unless `short` was
  short of input; then `long` goes on from what `short` had produced.
* `streams_stream`: that holds of a whole stream, read from `input` and from `input ++ more`.
-/

namespace RoadTraffic

namespace BitReader

/-- The `reader` with `more` bytes behind those ahead of it. -/
def extend (reader : BitReader) (more : Bytes) : BitReader :=
  { reader with rest := reader.rest ++ more }

variable {reader reader' : BitReader}

theorem bits_extend (reader : BitReader) (more : Bytes) :
    (reader.extend more).bits = reader.bits ++ Bits.ofBytes more := by
  simp [extend, bits]

theorem remaining_le_extend (reader : BitReader) (more : Bytes) :
    reader.remaining ≤ (reader.extend more).remaining := by
  simp only [remaining, extend, List.length_append]
  omega

theorem take_extend {count value : Nat} (h : reader.take count = some (value, reader'))
    (more : Bytes) : (reader.extend more).take count = some (value, reader'.extend more) := by
  obtain ⟨hlt, hbits⟩ := take_eq_some_iff.mp h
  refine take_eq_some_iff.mpr ⟨hlt, ?_⟩
  rw [bits_extend, bits_extend, hbits, List.append_assoc]

theorem next?_extend {bit : Bool} (h : reader.next? = some (bit, reader')) (more : Bytes) :
    (reader.extend more).next? = some (bit, reader'.extend more) := by
  have hbits : (reader.extend more).bits = bit :: (reader'.extend more).bits := by
    rw [bits_extend, bits_extend, bits_eq_of_next? h, List.cons_append]
  obtain ⟨found, hnext, hfound⟩ := next?_of_bits hbits
  rw [hnext, ext_bits hfound]

end BitReader

namespace Zlib

/-- The `state` with `more` bytes behind those that are still to be read. -/
def Inflater.extend (state : Inflater) (more : Bytes) : Inflater :=
  { state with input := state.input.extend more }

namespace Inflate

variable {α β : Type}

/-- With more input behind it, `long` does what `short` does, unless `short` is short of input. The
two are one and the same step, except that `long` may have more fuel. -/
structure Streams (short long : Inflate α) : Prop where
  grows : Grows long
  run : ∀ state more,
    (short state).1 = .error .truncated ∧
      (short state).2.output.toList <+: (long (state.extend more)).2.output.toList ∨
    long (state.extend more) = ((short state).1, (short state).2.extend more)

namespace Streams

variable {short long : Inflate α}

/-! ## Steps -/

theorem of_ok (h : Streams short long) {state state' : Inflater} {a : α}
    (hshort : short state = (.ok a, state')) (more : Bytes) :
    long (state.extend more) = (.ok a, state'.extend more) := by
  obtain ⟨hcut, -⟩ | hlong := h.run state more
  · rw [hshort] at hcut
    cases hcut
  · rw [hlong, hshort]

/-- A step that produces nothing stops with what was there before, so that its bytes need no
proof. -/
theorem of_quiet {step : Inflate α} (h : Quiet step)
    (hrun : ∀ state more, (step state).1 = .error .truncated ∨
      step (state.extend more) = ((step state).1, (step state).2.extend more)) :
    Streams step step where
  grows := h.grows
  run state more := (hrun state more).imp_left fun hcut => ⟨hcut, by
    rw [h.output_eq, h.output_eq]
    exact List.prefix_rfl⟩

theorem pure (a : α) : Streams (pure a) (pure a) := of_quiet (.pure a) fun _ _ => .inr rfl

theorem throw {error : ZlibError} (h : error.IsOfStream) :
    Streams (throw error : Inflate α) (throw error) := of_quiet (.throw h) fun _ _ => .inr rfl

/-- A step that gives up with `.truncated` is not held to anything but `Grows`. -/
theorem throw_truncated {long : Inflate α} (h : Grows long) :
    Streams (MonadExcept.throw ZlibError.truncated) long :=
  ⟨h, fun state more => .inl ⟨rfl, (h (state.extend more)).output⟩⟩

theorem bind {next next' : α → Inflate β} (h : Streams short long)
    (hnext : ∀ a, Streams (next a) (next' a)) : Streams (short >>= next) (long >>= next') := by
  have hgrows : ∀ a, Grows (next' a) := fun a => (hnext a).grows
  constructor
  · exact fun state => (h.grows state).trans (precedes_bind hgrows)
  intro state more
  rcases hshort : short state with ⟨error | a, state'⟩
  · have hrun := h.run state more
    rw [hshort] at hrun
    rw [bind_of_error hshort]
    obtain ⟨hcut, hprefix⟩ | hlong := hrun
    · cases hcut
      exact .inl ⟨rfl, hprefix.trans (precedes_bind hgrows).output⟩
    · exact .inr (bind_of_error hlong)
  · rw [bind_of_ok hshort, bind_of_ok (h.of_ok hshort more)]
    exact (hnext a).run state' more

/-- A step that starts with `get` may look at the state, but not at the input in it. -/
theorem bind_get {next : Inflater → Inflate β}
    (hnext : ∀ state more, next (state.extend more) = next state)
    (h : ∀ state, Streams (next state) (next state)) : Streams (get >>= next) (get >>= next) := by
  have hget : ∀ state, (get >>= next) state = next state state := fun _ => rfl
  constructor
  · intro state
    rw [hget]
    exact (h state).grows state
  · intro state more
    rw [hget, hget, hnext]
    exact (h state).run state more

/-! ## Reading -/

theorem bit : Streams bit bit := by
  refine of_quiet .bit fun state more => ?_
  unfold Inflate.bit
  cases h : state.input.next? with
  | none => exact .inl rfl
  | some result =>
    right
    simp only [Inflater.extend, BitReader.next?_extend h more]

theorem field (width : Nat) : Streams (field width) (field width) := by
  refine of_quiet (.field width) fun state more => ?_
  unfold Inflate.field
  cases h : state.input.take width with
  | none => exact .inl rfl
  | some result =>
    right
    simp only [Inflater.extend, BitReader.take_extend h more]

theorem align : Streams align align := of_quiet .align fun _ _ => .inr rfl

theorem symbol (tree : CodeTree) : Streams (symbol tree) (symbol tree) := by
  induction tree with
  | missing => exact throw .corrupt
  | leaf found => exact pure found
  | node zero one ihZero ihOne =>
    refine bit.bind fun value => ?_
    cases value
    · exact ihZero
    · exact ihOne

theorem inRange (range : SymbolRange) : Streams (inRange range) (inRange range) :=
  (field range.width).bind fun _ => pure _

theorem fields (width : Nat) (done : Array Nat) (count : Nat) :
    Streams (fields width done count) (fields width done count) := by
  induction count generalizing done with
  | zero => exact pure done
  | succ count ih => exact (field width).bind fun value => ih (done.push value)

theorem codeLengths (code : CodeTree) (wanted : Nat) (done : Array Nat) (fuel : Nat) :
    Streams (codeLengths code wanted done fuel) (codeLengths code wanted done fuel) := by
  induction fuel generalizing done with
  | zero => exact throw .corrupt
  | succ fuel ih =>
    unfold Inflate.codeLengths
    split
    · exact throw .corrupt
    · split
      · exact pure done
      · refine (symbol code).bind fun found => ?_
        split
        · split
          · exact throw .corrupt
          · exact (field 2).bind fun _ => ih _
        · exact (field 3).bind fun _ => ih _
        · exact (field 7).bind fun _ => ih _
        · exact ih _

theorem ownCodes : Streams ownCodes ownCodes := by
  unfold Inflate.ownCodes
  refine (field 5).bind fun _ => (field 5).bind fun _ => (field 4).bind fun given => ?_
  dsimp only
  split
  · exact throw .corrupt
  · refine (fields 3 #[] (4 + given)).bind fun found => ?_
    split
    · exact throw .corrupt
    · refine (codeLengths _ _ _ _).bind fun lengths => ?_
      split
      · exact pure _
      · exact throw .corrupt

/-! ## Producing -/

variable (limit : Nat)

theorem produce (byte : UInt8) : Streams (produce limit byte) (produce limit byte) := by
  refine ⟨(Capped.produce byte).grows limit, fun state more => .inr ?_⟩
  unfold Inflate.produce
  by_cases hroom : state.output.size < limit
  · rw [if_pos hroom]
    exact if_pos hroom
  · rw [if_neg hroom]
    exact if_neg hroom

theorem repeatByte (distance : Nat) :
    Streams (repeatByte limit distance) (repeatByte limit distance) := by
  refine ⟨(Capped.repeatByte distance).grows limit, fun state more => ?_⟩
  unfold Inflate.repeatByte
  simp only [Inflater.extend]
  split
  · next byte _ => exact (produce limit byte).run state more
  · exact .inr rfl

theorem repeatBytes (distance count : Nat) :
    Streams (repeatBytes limit distance count) (repeatBytes limit distance count) := by
  induction count with
  | zero => exact pure ()
  | succ count ih => exact (repeatByte limit distance).bind fun _ => ih

theorem repetition (distances : CodeTree) (lengths : SymbolRange) :
    Streams (repetition limit distances lengths) (repetition limit distances lengths) := by
  refine (inRange lengths).bind fun count => (symbol distances).bind fun found => ?_
  split
  · exact throw .corrupt
  · next range _ =>
    refine (inRange range).bind fun distance => bind_get (fun _ _ => rfl) fun state => ?_
    split
    · exact repeatBytes limit distance count
    · exact throw .corrupt

theorem copyBytes (count : Nat) : Streams (copyBytes limit count) (copyBytes limit count) := by
  induction count with
  | zero => exact pure ()
  | succ count ih => exact (field 8).bind fun _ => (produce limit _).bind fun _ => ih

theorem storedBlock : Streams (storedBlock limit) (storedBlock limit) := by
  refine align.bind fun _ => (field 16).bind fun count => (field 16).bind fun complement => ?_
  split
  · exact copyBytes limit count
  · exact throw .corrupt

/-- Running out of fuel is `.truncated`, like a want of input, so that more fuel is no more than
more input. -/
theorem symbols (literals distances : CodeTree) {fuel fuel' : Nat} (h : fuel ≤ fuel') :
    Streams (symbols limit literals distances fuel) (symbols limit literals distances fuel') := by
  induction fuel generalizing fuel' with
  | zero => exact throw_truncated ((Capped.symbols literals distances fuel').grows limit)
  | succ fuel ih =>
    cases fuel' with
    | zero => exact absurd h (Nat.not_succ_le_zero fuel)
    | succ fuel' =>
      have hrest := ih (Nat.le_of_succ_le_succ h)
      refine (symbol literals).bind fun found => ?_
      split
      · exact (produce limit _).bind fun _ => hrest
      · split
        · exact pure ()
        · split
          · exact throw .corrupt
          · next range _ => exact (repetition limit distances range).bind fun _ => hrest

theorem blocks {fuel fuel' left left' : Nat} (hfuel : fuel ≤ fuel') (hleft : left ≤ left') :
    Streams (blocks limit fuel left) (blocks limit fuel' left') := by
  induction left generalizing left' with
  | zero => exact throw_truncated ((Capped.blocks fuel' left').grows limit)
  | succ left ih =>
    cases left' with
    | zero => exact absurd hleft (Nat.not_succ_le_zero left)
    | succ left' =>
      have hmore : ∀ last : Bool, Streams
          (if last then Pure.pure () else Inflate.blocks limit fuel left : Inflate Unit)
          (if last then Pure.pure () else Inflate.blocks limit fuel' left') := by
        intro last
        cases last
        · exact ih (Nat.le_of_succ_le_succ hleft)
        · exact pure ()
      refine bit.bind fun last => (field 2).bind fun kind => ?_
      dsimp only
      split
      · exact (storedBlock limit).bind fun _ => hmore last
      · exact (symbols limit _ _ hfuel).bind fun _ => hmore last
      · exact ownCodes.bind fun codes => (symbols limit _ _ hfuel).bind fun _ => hmore last
      · exact (throw .corrupt).bind fun _ => hmore last

/-! ## The frame -/

theorem header : Streams header header := by
  refine (field 8).bind fun _ => (field 8).bind fun _ => ?_
  dsimp only
  split
  · exact pure _
  · exact throw .corrupt

theorem checksum : Streams checksum checksum := by
  refine align.bind fun _ => (fields 8 #[] 4).bind fun _ =>
    bind_get (fun _ _ => rfl) fun state => ?_
  split
  · exact pure _
  · exact throw .corrupt

theorem stream {fuel fuel' : Nat} (h : fuel ≤ fuel') :
    Streams (stream limit fuel) (stream limit fuel') :=
  header.bind fun _ => (blocks limit h h).bind fun _ => checksum

end Streams

end Inflate

/-! ## Whole streams -/

theorem streams_stream (input more : Bytes) (limit : Nat) :
    Inflate.Streams (Inflate.stream limit (BitReader.new input).remaining)
      (Inflate.stream limit (BitReader.new (input ++ more)).remaining) :=
  .stream limit ((BitReader.new input).remaining_le_extend more)

end Zlib

end RoadTraffic
