import Mathlib
import RoadTraffic.Proofs.BitPlaces
import RoadTraffic.Proofs.FieldStream
import RoadTraffic.Proofs.GammaReading

/-!
# Fields at their places

Fields are read one after the other, and a field that cannot be read does not keep the next ones
from it. What each of them comes to is told by the place in front of it and the bits at the places
after that, and so is whether the end is accepted in the end.

* `Bits.WordAt`/`GammaAt`: what a number, or a gamma code, at `place` comes to, and the place after
  it.
* `BitField.ReadsAt`/`ReadAllAt`: the same for one field, and for fields one after the other.
* `BitField.EndsAt`: what the end comes to at a place.
* `BitField.ReadAllAt.unique`: `bytes` leave no choice in any of this.
* `BitReader.StandsAt`: `reader` is in front of `place`.
* `BitReader.StandsAt.finds_field`/`BitField.finds_attemptAll`: one read, and a run of them.
* `BitReader.StandsAt.endsAt_finish`: the end.
-/

namespace RoadTraffic

namespace Bits

/-! ## Numbers at a place -/

/-- What reading `width` bits from `place` on comes to, and the place after that. -/
inductive WordAt (bytes : Bytes) (place width : Nat) : Except BitError Nat → Nat → Prop where
  /-- The bits of the number are those at the places. -/
  | there {value : Nat} (h : place + width ≤ 8 * bytes.length)
      (hbits : ∀ i, value.testBit i = (decide (i < width) && bitAt bytes (place + i))) :
      WordAt bytes place width (.ok value) (place + width)
  /-- There are not so many bits left, and none of them is taken. -/
  | short (h : 8 * bytes.length < place + width) :
      WordAt bytes place width (.error (.endOfStream width (8 * bytes.length - place))) place

/-- What reading a gamma code from `place` on comes to, and the place after what is taken of it. -/
inductive GammaAt (bytes : Bytes) (place : Nat) : Except BitError Nat → Nat → Prop where
  /-- The one after the zeros is the highest bit of the number; those below it are read as one. -/
  | ofWord {zeros next : Nat} {low : Except BitError Nat} (hzeros : zeros < wordWidth)
      (hzero : ∀ i < zeros, bitAt bytes (place + i) = false)
      (hone : bitAt bytes (place + zeros) = true)
      (hlow : WordAt bytes (place + zeros + 1) zeros low next) :
      GammaAt bytes place (low.map (2 ^ zeros + ·)) next
  /-- There are nothing but zeros up to the end. -/
  | exhausted (h : 8 * bytes.length < place + wordWidth)
      (hzero : ∀ i, bitAt bytes (place + i) = false) :
      GammaAt bytes place (.error (.endOfStream 1 0)) (8 * bytes.length)
  /-- There are more zeros than the number could have bits below its highest one. -/
  | overflow (h : place + wordWidth ≤ 8 * bytes.length)
      (hzero : ∀ i < wordWidth, bitAt bytes (place + i) = false) :
      GammaAt bytes place (.error .gammaOverflow) (place + wordWidth)

variable {bytes : Bytes} {place width : Nat}

theorem WordAt.unique {a b : Except BitError Nat} {next next' : Nat}
    (ha : WordAt bytes place width a next) (hb : WordAt bytes place width b next') :
    a = b ∧ next = next' := by
  cases ha with
  | there h hbits =>
    cases hb with
    | there h' hbits' =>
      refine ⟨congrArg Except.ok (Nat.eq_of_testBit_eq fun i => ?_), rfl⟩
      rw [hbits, hbits']
    | short h' => omega
  | short h =>
    cases hb with
    | there h' hbits' => omega
    | short h' => exact ⟨rfl, rfl⟩

/-- The first one after zeros is at one place only: `m = n`. -/
theorem zeros_unique {m n : Nat} (hm : ∀ i < m, bitAt bytes (place + i) = false)
    (hm1 : bitAt bytes (place + m) = true) (hn : ∀ i < n, bitAt bytes (place + i) = false)
    (hn1 : bitAt bytes (place + n) = true) : m = n := by
  rcases Nat.lt_trichotomy m n with h | h | h
  · simp [hn m h] at hm1
  · exact h
  · simp [hm n h] at hn1

theorem GammaAt.unique {a b : Except BitError Nat} {next next' : Nat}
    (ha : GammaAt bytes place a next) (hb : GammaAt bytes place b next') :
    a = b ∧ next = next' := by
  cases ha with
  | ofWord hzeros hzero hone hlow =>
    cases hb with
    | ofWord hzeros' hzero' hone' hlow' =>
      obtain rfl := zeros_unique hzero hone hzero' hone'
      obtain ⟨rfl, rfl⟩ := hlow.unique hlow'
      exact ⟨rfl, rfl⟩
    | exhausted h' hzero' => simp [hzero'] at hone
    | overflow h' hzero' => simp [hzero' _ hzeros] at hone
  | exhausted h hzero =>
    cases hb with
    | ofWord hzeros' hzero' hone' hlow' => simp [hzero] at hone'
    | exhausted h' hzero' => exact ⟨rfl, rfl⟩
    | overflow h' hzero' => omega
  | overflow h hzero =>
    cases hb with
    | ofWord hzeros' hzero' hone' hlow' => simp [hzero _ hzeros'] at hone'
    | exhausted h' hzero' => omega
    | overflow h' hzero' => exact ⟨rfl, rfl⟩

end Bits

namespace BitField

/-! ## Fields at their places -/

/-- A field that can be asked for: no word is wider than `Bits.wordWidth`. -/
def Kind.IsReadable : Kind → Prop
  | word width => width ≤ Bits.wordWidth
  | bit => True
  | gamma => True

/-- What reading a field of some `Kind` at `place` comes to, and the place after that. -/
inductive ReadsAt (bytes : Bytes) (place : Nat) :
    Kind → Except BitError BitField → Nat → Prop where
  | word {width next : Nat} {result : Except BitError Nat}
      (h : Bits.WordAt bytes place width result next) :
      ReadsAt bytes place (.word width) (result.map (.word width)) next
  | bit (h : place < 8 * bytes.length) :
      ReadsAt bytes place .bit (.ok (.bit (Bits.bitAt bytes place))) (place + 1)
  | bitShort (h : place = 8 * bytes.length) :
      ReadsAt bytes place .bit (.error (.endOfStream 1 0)) place
  | gamma {next : Nat} {result : Except BitError Nat} (h : Bits.GammaAt bytes place result next) :
      ReadsAt bytes place .gamma (result.map .gamma) next

/-- What reading fields of `kinds` one after the other comes to, whether or not some of them fail.
No place on the way is beyond the end. -/
inductive ReadAllAt (bytes : Bytes) :
    Nat → List Kind → List (Except BitError BitField) → Nat → Prop where
  | nil {place : Nat} (h : place ≤ 8 * bytes.length) : ReadAllAt bytes place [] [] place
  | cons {place next last : Nat} {kind : Kind} {kinds : List Kind}
      {result : Except BitError BitField} {results : List (Except BitError BitField)}
      (h : place ≤ 8 * bytes.length) (hread : ReadsAt bytes place kind result next)
      (hrest : ReadAllAt bytes next kinds results last) :
      ReadAllAt bytes place (kind :: kinds) (result :: results) last

/-- What the end comes to at `place`: how many bytes are not begun, and else whether a bit is set in
what is left of the last one. -/
structure EndsAt (bytes : Bytes) (place : Nat) (result : Except BitError Unit) : Prop where
  ok_iff : result = .ok () ↔
    8 * bytes.length - place < 8 ∧ ∀ i, place ≤ i → Bits.bitAt bytes i = false
  trailing : 0 < bytes.length - (place + 7) / 8 →
    result = .error (.trailingBytes (bytes.length - (place + 7) / 8))
  padding : bytes.length - (place + 7) / 8 = 0 → result ≠ .ok () → result = .error .nonZeroPadding

section Unique

variable {bytes : Bytes} {kind : Kind} {kinds : List Kind}

theorem ReadsAt.unique {place next next' : Nat} {a b : Except BitError BitField}
    (ha : ReadsAt bytes place kind a next) (hb : ReadsAt bytes place kind b next') :
    a = b ∧ next = next' := by
  cases ha with
  | word h =>
    cases hb with
    | word h' =>
      obtain ⟨rfl, rfl⟩ := h.unique h'
      exact ⟨rfl, rfl⟩
  | bit h =>
    cases hb with
    | bit h' => exact ⟨rfl, rfl⟩
    | bitShort h' => omega
  | bitShort h =>
    cases hb with
    | bit h' => omega
    | bitShort h' => exact ⟨rfl, rfl⟩
  | gamma h =>
    cases hb with
    | gamma h' =>
      obtain ⟨rfl, rfl⟩ := h.unique h'
      exact ⟨rfl, rfl⟩

/-- The `bytes` leave no choice in what is read: results and last place are determined. -/
theorem ReadAllAt.unique {place last last' : Nat} {a b : List (Except BitError BitField)}
    (ha : ReadAllAt bytes place kinds a last) (hb : ReadAllAt bytes place kinds b last') :
    a = b ∧ last = last' := by
  induction ha generalizing b with
  | nil h =>
    cases hb with
    | nil h' => exact ⟨rfl, rfl⟩
  | cons h hread hrest ih =>
    cases hb with
    | cons h' hread' hrest' =>
      obtain ⟨rfl, rfl⟩ := hread.unique hread'
      obtain ⟨rfl, rfl⟩ := ih hrest'
      exact ⟨rfl, rfl⟩

end Unique

end BitField

namespace BitReader

/-! ## In front of a place -/

/-- The reader is in front of `place` of `bytes`, which is not beyond the end. -/
structure StandsAt (reader : BitReader) (bytes : Bytes) (place : Nat) : Prop where
  within : place ≤ 8 * bytes.length
  ahead : reader.bits = (Bits.ofBytes bytes).drop place

theorem standsAt_new (bytes : Bytes) : (new bytes).StandsAt bytes 0 where
  within := Nat.zero_le _
  ahead := rfl

variable {reader after : BitReader} {bytes : Bytes} {place : Nat}

theorem StandsAt.place_add_length (h : reader.StandsAt bytes place) :
    place + reader.bits.length = 8 * bytes.length := by
  rw [h.ahead, List.length_drop, Bits.length_ofBytes, Nat.add_sub_cancel' h.within]

theorem StandsAt.remaining_eq (h : reader.StandsAt bytes place) :
    reader.remaining = 8 * bytes.length - place := by
  rw [← length_bits, ← h.place_add_length, Nat.add_sub_cancel_left]

theorem StandsAt.getD_bits (h : reader.StandsAt bytes place) (i : Nat) :
    reader.bits.getD i false = Bits.bitAt bytes (place + i) := by
  rw [← Bits.getD_ofBytes, h.ahead]
  simp [List.getD, List.getElem?_drop]

/-- A reader that has bits left only after `count` others stands at the place after these. -/
theorem StandsAt.advance {count : Nat} (h : reader.StandsAt bytes place)
    (hcount : count ≤ reader.bits.length) (hafter : after.bits = reader.bits.drop count) :
    after.StandsAt bytes (place + count) := by
  have hplace := h.place_add_length
  exact ⟨by omega, by rw [hafter, h.ahead, List.drop_drop]⟩

/-! ## A read at a place -/

/-- What is read is what is to be `found` at a place, and the reader goes on after that. -/
def Finds {α : Type} (bytes : Bytes) (found : α → Nat → Prop) (read : α × BitReader) : Prop :=
  ∃ next, found read.1 next ∧ read.2.StandsAt bytes next

theorem Finds.map {α β : Type} {found : α → Nat → Prop} {found' : β → Nat → Prop} {make : α → β}
    {read : α × BitReader} (h : Finds bytes found read)
    (hmake : ∀ a next, found a next → found' (make a) next) :
    Finds bytes found' (read.map make id) := by
  obtain ⟨next, hfound, hnext⟩ := h
  exact ⟨next, hmake _ _ hfound, hnext⟩

theorem StandsAt.finds_read (h : reader.StandsAt bytes place) {width : Nat}
    (hwidth : width ≤ Bits.wordWidth) :
    Finds bytes (Bits.WordAt bytes place width) (reader.read width) := by
  have hplace := h.place_add_length
  by_cases hroom : width ≤ reader.bits.length
  · obtain ⟨after, hread, hafter⟩ := read_of_le hwidth hroom
    rw [hread]
    refine ⟨place + width, .there (by omega) fun i => ?_, h.advance hroom hafter⟩
    rw [Bits.testBit_toNat, ← h.getD_bits]
    by_cases hi : i < width <;> simp [List.getD, hi]
  · rw [read_of_lt hwidth (Nat.not_le.mp hroom), h.remaining_eq]
    exact ⟨place, .short (by omega), h⟩

theorem StandsAt.finds_readBit (h : reader.StandsAt bytes place) :
    Finds bytes (BitField.ReadsAt bytes place .bit) (BitField.Kind.read reader .bit) := by
  have hplace := h.place_add_length
  have hbit := h.getD_bits 0
  rw [BitField.Kind.read]
  cases hbits : reader.bits with
  | nil =>
    rw [hbits, List.length_nil] at hplace
    rw [readBit_of_bits_nil hbits]
    exact ⟨place, .bitShort (by omega), h⟩
  | cons bit more =>
    obtain ⟨after, hread, hafter⟩ := readBit_of_bits hbits
    rw [hbits] at hbit
    rw [hbits, List.length_cons] at hplace
    obtain rfl : bit = Bits.bitAt bytes place := hbit
    rw [hread]
    refine ⟨place + 1, .bit (by omega), h.advance (by rw [hbits]; simp) ?_⟩
    rw [hbits]
    exact hafter

/-- After `zeros` zeros and the one, what is left of a gamma code is read as a number. -/
theorem readGammaFrom_eq_of_true (h : reader.readBit = (.ok true, after)) (zeros budget : Nat) :
    readGammaFrom zeros (budget + 1) reader =
      (after.read zeros).map (·.map (2 ^ zeros + ·)) id := by
  rw [readGammaFrom, h]
  simp only [Nat.one_shiftLeft]
  rcases after.read zeros with ⟨_ | low, last⟩ <;> rfl

/-- The `reader.zeros` zeros ahead are at the places ahead. -/
theorem StandsAt.bitAt_zeros (h : reader.StandsAt bytes place) {i : Nat} (hi : i < reader.zeros) :
    Bits.bitAt bytes (place + i) = false := by
  rw [← h.getD_bits, bits_eq_zeros_append, List.getD_append _ _ _ _ (by simpa using hi)]
  simp [List.getD]

theorem StandsAt.finds_readGamma (h : reader.StandsAt bytes place) :
    Finds bytes (Bits.GammaAt bytes place) reader.readGamma := by
  have hplace := h.place_add_length
  have hlength := reader.length_bits
  have hle : reader.zeros ≤ reader.bits.length := (List.takeWhile_prefix _).length_le
  by_cases hmany : Bits.wordWidth ≤ reader.zeros
  -- More zeros than a word has bits: the read gives up after `wordWidth` of them.
  · obtain ⟨after, hread, -, hafter⟩ := ends_overflow hmany
    rw [hread]
    exact ⟨place + Bits.wordWidth,
      .overflow (by omega) fun i hi => h.bitAt_zeros (hi.trans_le hmany),
      h.advance (hmany.trans hle) hafter⟩
  have hfew : reader.zeros < Bits.wordWidth := Nat.not_le.mp hmany
  by_cases hone : reader.zeros < reader.remaining
  · -- The one is there, and what is below it is a number.
    obtain ⟨more, hbits⟩ := exists_bits_eq_of_zeros_lt hone
    obtain ⟨before, budget, hbefore, hread⟩ := readGamma_of_zeros hfew hbits
    obtain ⟨after, hbit, hafter⟩ := readBit_of_bits hbefore
    have hstands : after.StandsAt bytes (place + (reader.zeros + 1)) := by
      refine h.advance (by omega) ?_
      rw [hafter, hbits]
      simp [List.drop_append]
    have hbitAt : Bits.bitAt bytes (place + reader.zeros) = true := by
      rw [← h.getD_bits, hbits]
      simp [List.getD]
    rw [hread, readGammaFrom_eq_of_true hbit]
    exact (hstands.finds_read hfew.le).map fun low next =>
      .ofWord hfew (fun i => h.bitAt_zeros) hbitAt
  -- Nothing but zeros up to the end, all of which are consumed.
  · have hall : reader.zeros = reader.remaining := by omega
    obtain ⟨after, hread, -, hafter⟩ := ends_exhausted hall (by omega)
    rw [hread]
    refine ⟨8 * bytes.length, .exhausted (by omega) fun i => ?_, ?_⟩
    · rw [← h.getD_bits, bits_eq_replicate_of_zeros_eq hall]
      simp [List.getD]
    · have hend : place + reader.remaining = 8 * bytes.length := by omega
      exact hend ▸ h.advance hlength.ge hafter

/-- One step of a run: `kind.read` finds what `ReadsAt` says of its place. -/
theorem StandsAt.finds_field (h : reader.StandsAt bytes place) {kind : BitField.Kind}
    (hkind : kind.IsReadable) :
    Finds bytes (BitField.ReadsAt bytes place kind) (kind.read reader) := by
  cases kind with
  | word width => exact (h.finds_read hkind).map fun _ _ => .word
  | bit => exact h.finds_readBit
  | gamma => exact h.finds_readGamma.map fun _ _ => .gamma

/-! ## The end at a place -/

/-- No bit is set ahead exactly if none is set from `place` on. -/
theorem StandsAt.true_notMem_bits_iff (h : reader.StandsAt bytes place) :
    true ∉ reader.bits ↔ ∀ i, place ≤ i → Bits.bitAt bytes i = false := by
  constructor
  · intro hzero i hi
    obtain ⟨ahead, rfl⟩ := Nat.exists_eq_add_of_le hi
    rw [← h.getD_bits]
    by_cases hlt : ahead < reader.bits.length
    · rw [List.getD_eq_getElem _ _ hlt]
      exact Bool.eq_false_iff.mpr fun hone => hzero (hone ▸ List.getElem_mem hlt)
    · exact List.getD_eq_default _ _ (by omega)
  · intro hzero hmem
    obtain ⟨i, hi, hone⟩ := List.getElem_of_mem hmem
    have hbit := h.getD_bits i
    rw [List.getD_eq_getElem _ _ hi, hone, hzero _ (Nat.le_add_right _ _)] at hbit
    cases hbit

theorem StandsAt.endsAt_finish (h : reader.StandsAt bytes place) :
    BitField.EndsAt bytes place reader.finish := by
  have hplace := h.place_add_length
  rw [finish_eq]
  constructor
  · rw [← h.true_notMem_bits_iff, ← h.remaining_eq, ← length_bits]
    by_cases hbytes : 8 ≤ reader.bits.length
    · rw [if_pos hbytes]
      exact iff_of_false (by simp) fun hend => by omega
    · rw [if_neg hbytes, and_iff_right (Nat.not_le.mp hbytes)]
      by_cases hone : true ∈ reader.bits <;> simp [hone]
  · intro hwhole
    have hcount : reader.bits.length / 8 = bytes.length - (place + 7) / 8 := by omega
    rw [if_pos (by omega), hcount]
  · intro hwhole hok
    rw [if_neg (by omega)] at hok ⊢
    by_cases hone : true ∈ reader.bits
    · exact if_pos hone
    · exact absurd (if_neg hone) hok

end BitReader

namespace BitField

/-! ## Runs -/

/-- Reads fields of `kinds` one after the other, whether or not some of them fail. -/
def attemptAll : List Kind → BitReader → List (Except BitError BitField) × BitReader
  | [], reader => ([], reader)
  | kind :: kinds, reader =>
    (attemptAll kinds (kind.read reader).2).map ((kind.read reader).1 :: ·) id

/-- Every read of a run finds what is at its place, and the next one starts where it stopped:
`attemptAll` finds what `ReadAllAt` says. -/
theorem finds_attemptAll {reader : BitReader} {bytes : Bytes} {place : Nat}
    (h : reader.StandsAt bytes place) {kinds : List Kind}
    (hkinds : ∀ kind ∈ kinds, kind.IsReadable) :
    BitReader.Finds bytes (ReadAllAt bytes place kinds) (attemptAll kinds reader) := by
  induction kinds generalizing reader place with
  | nil => exact ⟨place, .nil h.within, h⟩
  | cons kind kinds ih =>
    rw [List.forall_mem_cons] at hkinds
    obtain ⟨next, hread, hnext⟩ := h.finds_field hkinds.1
    exact (ih hnext hkinds.2).map fun results last => .cons h.within hread

end BitField

end RoadTraffic
