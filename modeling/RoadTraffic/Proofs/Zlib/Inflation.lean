import Mathlib
import RoadTraffic.Proofs.BitStream
import RoadTraffic.Zlib.Inflate

/-!
# Steps of inflation as lists of bits

A step of inflation is told by the bits it takes from the input and by what it gives for them.

* `Reads step bits value`: the step takes `bits` and gives `value`.
* `Produces limit all step bits start stop`: the step takes `bits` and produces the bytes of `all`
  from `start` to `stop`, or fails with `.tooLarge limit` because they do not fit.
* `Produces.bind`/`Produces.of_reads`: the rules for `>>=`.
* `inflate_eq_ok_iff`: what the steps of a whole stream make of an input.
-/

namespace RoadTraffic

namespace Zlib

namespace Inflate

/-- The `step` takes `bits` from the input, gives `value` and changes nothing else. -/
def Reads {α : Type} (step : Inflate α) (bits : List Bool) (value : α) : Prop :=
  ∀ state more, state.input.bits = bits ++ more →
    ∃ input, step state = (.ok value, { state with input }) ∧ input.bits = more

/-- After the bytes of `all` before `start`, the `step` takes `bits` from the input and produces the
bytes of `all` up to `stop`. If these are more than `limit`, its fault is `.tooLarge limit`. -/
structure Produces (limit : Nat) (all : Bytes) (step : Inflate Unit) (bits : List Bool)
    (start stop : Nat) : Prop where
  le : start ≤ stop
  le_length : stop ≤ all.length
  run : ∀ state more, state.input.bits = bits ++ more → state.output.toList = all.take start →
    start ≤ limit →
    if stop ≤ limit then
      ∃ state', step state = (.ok (), state') ∧ state'.input.bits = more ∧
        state'.output.toList = all.take stop
    else (step state).1 = .error (.tooLarge limit)

/-! ## Reading -/

namespace Reads

variable {α β : Type} {step : Inflate α} {next : α → Inflate β} {bits more : List Bool}
  {a : α} {b : β}

theorem pure (value : α) : Reads (pure value) [] value :=
  fun state _ h => ⟨state.input, rfl, h⟩

theorem bind (h : Reads step bits a) (hnext : Reads (next a) more b) :
    Reads (step >>= next) (bits ++ more) b := by
  intro state rest hbits
  rw [List.append_assoc] at hbits
  obtain ⟨input, hstep, hinput⟩ := h state _ hbits
  obtain ⟨input', hstep', hinput'⟩ := hnext { state with input } rest hinput
  exact ⟨input', (bind_of_ok hstep).trans hstep', hinput'⟩

theorem bit (value : Bool) : Reads bit [value] value := by
  intro state more h
  obtain ⟨input, hnext, hinput⟩ := BitReader.next?_of_bits h
  exact ⟨input, by simp [Inflate.bit, hnext], hinput⟩

theorem field {width value : Nat} (h : value < 2 ^ width) :
    Reads (field width) (Bits.ofNat width value) value := by
  intro state more hbits
  obtain ⟨input, htake, hinput⟩ := BitReader.take_of_bits hbits
  rw [Bits.length_ofNat, Bits.toNat_ofNat, Nat.mod_eq_of_lt h] at htake
  exact ⟨input, by simp [Inflate.field, htake], hinput⟩

theorem symbol {tree : CodeTree} {found : Nat} {path : List Bool}
    (h : tree.path? found = some path) : Reads (symbol tree) path found := by
  induction tree generalizing path with
  | missing => simp [CodeTree.path?] at h
  | leaf other =>
    simp only [CodeTree.path?] at h
    split at h
    · next heq =>
      obtain rfl := heq
      obtain rfl := Option.some.inj h
      exact .pure other
    · cases h
  | node zero one ihZero ihOne =>
    simp only [CodeTree.path?] at h
    split at h
    · next tail htail =>
      obtain rfl := Option.some.inj h
      exact (Reads.bit false).bind (ihZero htail)
    · obtain ⟨tail, htail, rfl⟩ := Option.map_eq_some_iff.mp h
      exact (Reads.bit true).bind (ihOne htail)

theorem inRange {range : SymbolRange} {value : Nat} (hstart : range.start ≤ value)
    (h : value - range.start < 2 ^ range.width) :
    Reads (inRange range) (Bits.ofNat range.width (value - range.start)) value := by
  have hread : Reads (Inflate.inRange range)
      (Bits.ofNat range.width (value - range.start) ++ [])
      (range.start + (value - range.start)) := by
    unfold Inflate.inRange
    exact (Reads.field h).bind (.pure _)
  rwa [List.append_nil, Nat.add_sub_cancel' hstart] at hread

/-- As many fields of eight bits as there are `bytes`, read from `Bits.ofBytes bytes`, are the bytes
themselves. -/
theorem fields (bytes : Bytes) (done : Array Nat) :
    Reads (fields 8 done bytes.length) (Bits.ofBytes bytes)
      (done ++ (bytes.map UInt8.toNat).toArray) := by
  induction bytes generalizing done with
  | nil => simpa [Inflate.fields] using Reads.pure done
  | cons byte bytes ih =>
    have hdone : done ++ ((byte :: bytes).map UInt8.toNat).toArray =
        done.push byte.toNat ++ (bytes.map UInt8.toNat).toArray := by simp
    rw [hdone, Bits.ofBytes_cons, List.length_cons, Inflate.fields]
    exact (Reads.field byte.toNat_lt).bind (ih (done.push byte.toNat))

end Reads

/-! ## Producing -/

namespace Produces

variable {limit : Nat} {all : Bytes} {bits more : List Bool} {start middle stop : Nat}
  {step : Inflate Unit}

theorem pure (h : start ≤ all.length) : Produces limit all (pure ()) [] start start := by
  refine ⟨le_rfl, h, fun state more hbits houtput hroom => ?_⟩
  rw [if_pos hroom]
  exact ⟨state, rfl, hbits, houtput⟩

theorem bind {next : Unit → Inflate Unit} (h : Produces limit all step bits start middle)
    (hnext : Produces limit all (next ()) more middle stop) :
    Produces limit all (step >>= next) (bits ++ more) start stop := by
  refine ⟨h.le.trans hnext.le, hnext.le_length, fun state rest hbits houtput hroom => ?_⟩
  rw [List.append_assoc] at hbits
  have hrun := h.run state _ hbits houtput hroom
  by_cases hmiddle : middle ≤ limit
  · rw [if_pos hmiddle] at hrun
    obtain ⟨state', hstep, hbits', houtput'⟩ := hrun
    rw [bind_of_ok hstep]
    exact hnext.run state' rest hbits' houtput' hmiddle
  · rw [if_neg hmiddle] at hrun
    rw [if_neg (fun hstop => hmiddle (hnext.le.trans hstop)), fst_bind_of_error hrun]

/-- The rule `Produces.bind` behind a step that takes no bits. -/
theorem bind_nil {next : Unit → Inflate Unit} (h : Produces limit all step [] start middle)
    (hnext : Produces limit all (next ()) more middle stop) :
    Produces limit all (step >>= next) more start stop := h.bind hnext

theorem of_reads {α : Type} {step : Inflate α} {next : α → Inflate Unit} {a : α}
    (h : Reads step bits a) (hnext : Produces limit all (next a) more start stop) :
    Produces limit all (step >>= next) (bits ++ more) start stop := by
  refine ⟨hnext.le, hnext.le_length, fun state rest hbits houtput hroom => ?_⟩
  rw [List.append_assoc] at hbits
  obtain ⟨input, hstep, hinput⟩ := h state _ hbits
  rw [bind_of_ok hstep]
  exact hnext.run { state with input } rest hinput houtput hroom

/-- A `get` hands on a `state` with `state.output.size = start`: the output so far tells how many
bytes it is. -/
theorem of_get {next : Inflater → Inflate Unit} (hstart : start ≤ all.length)
    (h : ∀ state, state.output.size = start → Produces limit all (next state) bits start stop) :
    Produces limit all (get >>= next) bits start stop := by
  have hsize : ∀ state : Inflater, state.output.toList = all.take start →
      state.output.size = start := fun state houtput => by
    rw [← Array.length_toList, houtput, List.length_take, Nat.min_eq_left hstart]
  have hnext := h ⟨.new [], (all.take start).toArray⟩ (hsize _ rfl)
  exact ⟨hnext.le, hnext.le_length, fun state rest hbits houtput hroom =>
    (h state (hsize state houtput)).run state rest hbits houtput hroom⟩

theorem produce {byte : UInt8} (h : all[start]? = some byte) :
    Produces limit all (produce limit byte) [] start (start + 1) := by
  obtain ⟨hlt, rfl⟩ := List.getElem?_eq_some_iff.mp h
  refine ⟨Nat.le_succ start, hlt, fun state more hbits houtput hroom => ?_⟩
  have hsize : state.output.size = start := by
    rw [← Array.length_toList, houtput, List.length_take, Nat.min_eq_left hlt.le]
  unfold Inflate.produce
  rw [hsize]
  by_cases hfits : start < limit
  · rw [if_pos hfits, if_pos (Nat.succ_le_of_lt hfits)]
    refine ⟨_, rfl, hbits, ?_⟩
    rw [Array.toList_push, houtput, List.take_concat_get' all start hlt]
  · rw [if_neg hfits, if_neg (by omega)]

/-- A byte that equals the one `distance` places before it is produced by going back to that, as
`repeatByte` does. -/
theorem repeatByte {distance : Nat} (hdistance : 0 < distance) (hstart : distance ≤ start)
    (hlt : start < all.length) (h : all[start - distance]? = all[start]?) :
    Produces limit all (repeatByte limit distance) [] start (start + 1) := by
  have hproduce : Produces limit all (Inflate.produce limit all[start]) [] start (start + 1) :=
    produce (List.getElem?_eq_getElem hlt)
  refine ⟨hproduce.le, hproduce.le_length, fun state more hbits houtput hroom => ?_⟩
  have hsize : state.output.size = start := by
    rw [← Array.length_toList, houtput, List.length_take, Nat.min_eq_left hlt.le]
  have hbyte : state.output[state.output.size - distance]? = some all[start] := by
    rw [← Array.getElem?_toList, houtput, hsize, List.getElem?_take_of_lt (by omega), h,
      List.getElem?_eq_getElem hlt]
  unfold Inflate.repeatByte
  rw [hbyte]
  exact hproduce.run state more hbits houtput hroom

theorem repeatBytes {distance count : Nat} (hdistance : 0 < distance)
    (hstart : start ≤ all.length)
    (h : ∀ i, start ≤ i → i < start + count →
      distance ≤ i ∧ i < all.length ∧ all[i - distance]? = all[i]?) :
    Produces limit all (repeatBytes limit distance count) [] start (start + count) := by
  induction count generalizing start with
  | zero => exact pure hstart
  | succ count ih =>
    obtain ⟨hle, hlt, hbyte⟩ := h start le_rfl (by omega)
    have hnext : start + 1 ≤ all.length := hlt
    have hrest := ih hnext fun i hi hstop => h i (by omega) (by omega)
    rw [Nat.add_assoc, Nat.add_comm 1] at hrest
    exact (repeatByte hdistance hle hlt hbyte).bind hrest

end Produces

end Inflate

/-! ## The whole input -/

section Whole

variable {input bytes : Bytes} {limit : Nat}

theorem inflate_of_stream_error {error : ZlibError}
    (h : (Inflate.stream limit (BitReader.new input).remaining ⟨.new input, #[]⟩).1 =
      .error error) :
    inflate input limit = .error error := by
  unfold inflate
  dsimp only
  rw [show Inflate.stream limit (BitReader.new input).remaining ⟨.new input, #[]⟩ =
    (.error error, _) from Prod.ext h rfl]

theorem inflate_of_stream_ok {state : Inflater}
    (h : Inflate.stream limit (BitReader.new input).remaining ⟨.new input, #[]⟩ =
      (.ok (), state)) :
    inflate input limit =
      if state.input.rest.isEmpty then .ok state.output.toList
      else .error (.trailingBytes state.input.rest.length) := by
  unfold inflate
  dsimp only
  rw [h]

/-- The result of `inflate` is `.ok bytes` if `Inflate.stream` comes to `bytes` and leaves nothing
behind it. -/
theorem inflate_eq_ok_iff : inflate input limit = .ok bytes ↔
    ∃ state, Inflate.stream limit (BitReader.new input).remaining ⟨.new input, #[]⟩ =
      (.ok (), state) ∧ state.input.rest = [] ∧ state.output.toList = bytes := by
  rcases hrun : Inflate.stream limit (BitReader.new input).remaining ⟨.new input, #[]⟩ with
    ⟨error | ⟨⟩, state⟩
  · rw [inflate_of_stream_error (congrArg Prod.fst hrun)]
    refine iff_of_false (fun h => by cases h) fun h => ?_
    obtain ⟨_, hsame, -, -⟩ := h
    cases hsame
  · rw [inflate_of_stream_ok hrun]
    constructor
    · intro h
      by_cases hend : state.input.rest = []
      · exact ⟨state, rfl, hend, by simpa [hend] using h⟩
      · simp [hend] at h
    · rintro ⟨_, hsame, hend, rfl⟩
      cases hsame
      simp [hend]

end Whole

end Zlib

end RoadTraffic
