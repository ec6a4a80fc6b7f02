import Mathlib
import RoadTraffic.Proofs.Gamma

/-!
# Streams of fields

A stream is written and read field by field: a number of some width, a single bit, or the gamma code
of a number. The kinds of the fields are not in the stream, but known to both sides.

* `BitField.exists_writeAll`: `writeAll` writes `fields.flatMap bits`.
* `BitField.readAll_eq_ok_iff`: `readAll` reads `fields` exactly if their bits are ahead.
* `BitField.readAll_writeAll`: streams that are read to their end and lists of fields are the same.
-/

namespace RoadTraffic

/-- A value in a stream, and how it is put there. -/
inductive BitField where
  /-- The bits of `value` up to `width`. -/
  | word (width value : Nat)
  | bit (bit : Bool)
  /-- The gamma code of `value`. -/
  | gamma (value : Nat)
  deriving DecidableEq, Repr

namespace BitField

/-- How a value is put into a stream. -/
inductive Kind where
  | word (width : Nat)
  | bit
  | gamma
  deriving DecidableEq, Repr

def kind : BitField → Kind
  | word width _ => .word width
  | bit _ => .bit
  | gamma _ => .gamma

/-- A field that can be written: no word is wider than `Bits.wordWidth`, and only positive words
have a gamma code. -/
def IsWritable : BitField → Prop
  | word width _ => width ≤ Bits.wordWidth
  | bit _ => True
  | gamma value => 0 < value ∧ value < 2 ^ Bits.wordWidth

/-- The field without the bits of its value that have no place in it: `value % 2 ^ width`. -/
def reduced : BitField → BitField
  | word width value => word width (value % 2 ^ width)
  | bit b => bit b
  | gamma value => gamma value

/-- The bits of a field in a stream. -/
def bits : BitField → List Bool
  | word width value => Bits.ofNat width value
  | bit b => [b]
  | gamma value => Gamma.bits value

@[simp] theorem kind_reduced (field : BitField) : field.reduced.kind = field.kind := by
  cases field <;> rfl

@[simp] theorem bits_reduced (field : BitField) : field.reduced.bits = field.bits := by
  cases field with
  | word width value => exact Bits.ofNat_mod width value
  | bit b => rfl
  | gamma value => rfl

@[simp] theorem reduced_reduced (field : BitField) : field.reduced.reduced = field.reduced := by
  cases field with
  | word width value => exact congrArg (word width) (Nat.mod_mod _ _)
  | bit b => rfl
  | gamma value => rfl

theorem isWritable_reduced {field : BitField} (h : field.IsWritable) :
    field.reduced.IsWritable := by
  cases field <;> exact h

/-! ## Writing -/

/-- Writes one field. -/
def write (writer : BitWriter) : BitField → Except BitError BitWriter
  | word width value => writer.write value width
  | bit b => .ok (writer.push b)
  | gamma value => writer.writeGamma value

/-- Writes fields one after the other. -/
def writeAll (writer : BitWriter) (fields : List BitField) : Except BitError BitWriter :=
  fields.foldlM write writer

theorem exists_write (writer : BitWriter) {field : BitField} (h : field.IsWritable) :
    ∃ writer', field.write writer = .ok writer' ∧ writer'.bits = writer.bits ++ field.bits := by
  cases field with
  | word width value => exact ⟨_, BitWriter.write_eq_ok h writer value, writer.bits_append _⟩
  | bit b => exact ⟨_, rfl, writer.bits_push b⟩
  | gamma value => exact writer.writeGamma_eq_ok h.1 h.2

theorem exists_writeAll (writer : BitWriter) {fields : List BitField}
    (h : ∀ field ∈ fields, field.IsWritable) : ∃ writer', writeAll writer fields = .ok writer' ∧
      writer'.bits = writer.bits ++ fields.flatMap bits := by
  induction fields generalizing writer with
  | nil => exact ⟨writer, rfl, by simp⟩
  | cons field fields ih =>
    rw [List.forall_mem_cons] at h
    obtain ⟨writer₁, hwrite, hbits₁⟩ := exists_write writer h.1
    obtain ⟨writer', hrest, hbits'⟩ := ih writer₁ h.2
    refine ⟨writer', ?_, ?_⟩
    · rw [writeAll, List.foldlM_cons, hwrite]
      exact hrest
    · rw [hbits', hbits₁, List.flatMap_cons, List.append_assoc]

/-! ## Reading -/

/-- Reads a field of this kind, with the reader of numbers, of bits, or of gamma codes. -/
def Kind.read (reader : BitReader) : Kind → Except BitError BitField × BitReader
  | word width => (reader.read width).map (·.map (.word width)) id
  | bit => reader.readBit.map (·.map .bit) id
  | gamma => reader.readGamma.map (·.map .gamma) id

/-- Reads fields of `kinds`, until one of them cannot be read. -/
def readAll : List Kind → BitReader → Except BitError (List BitField × BitReader)
  | [], reader => .ok ([], reader)
  | kind :: kinds, reader =>
    match kind.read reader with
    | (.error e, _) => .error e
    | (.ok field, reader) => (readAll kinds reader).map (Prod.map (field :: ·) id)

/-- What a read returns is told in another type, that of `make`. -/
theorem map_eq_ok_iff {α β : Type} {make : α → β} {result : Except BitError α × BitReader} {b : β}
    {reader : BitReader} : result.map (·.map make) id = (.ok b, reader) ↔
      ∃ a, b = make a ∧ result = (.ok a, reader) := by
  obtain ⟨outcome, reader'⟩ := result
  cases outcome with
  | error e => simp [Except.map]
  | ok a => simp [Except.map, eq_comm]

/-- A field of `kind` is read exactly if its bits are ahead; none of its value is lost
(`field.reduced = field`). -/
theorem read_eq_ok_iff {kind : Kind} {field : BitField} {reader reader' : BitReader} :
    kind.read reader = (.ok field, reader') ↔ field.kind = kind ∧ field.IsWritable ∧
      field.reduced = field ∧ reader.bits = field.bits ++ reader'.bits := by
  cases kind with
  | word width =>
    rw [Kind.read, map_eq_ok_iff]
    simp only [BitReader.read_eq_ok_iff]
    constructor
    · rintro ⟨value, rfl, hwidth, hlt, hbits⟩
      exact ⟨rfl, hwidth, congrArg (word width) (Nat.mod_eq_of_lt hlt), hbits⟩
    · rintro ⟨hkind, hwidth, hreduced, hbits⟩
      cases field <;> cases hkind
      next value =>
        injection hreduced with _ hmod
        exact ⟨value, rfl, hwidth, hmod ▸ Nat.mod_lt _ (Nat.two_pow_pos width), hbits⟩
  | bit =>
    rw [Kind.read, map_eq_ok_iff]
    simp only [BitReader.readBit_eq_ok_iff]
    constructor
    · rintro ⟨b, rfl, hbits⟩
      exact ⟨rfl, trivial, rfl, hbits⟩
    · rintro ⟨hkind, -, -, hbits⟩
      cases field <;> cases hkind
      exact ⟨_, rfl, hbits⟩
  | gamma =>
    rw [Kind.read, map_eq_ok_iff]
    simp only [BitReader.readGamma_eq_ok_iff]
    constructor
    · rintro ⟨value, rfl, hpos, hlt, hbits⟩
      exact ⟨rfl, ⟨hpos, hlt⟩, rfl, hbits⟩
    · rintro ⟨hkind, hwritable, -, hbits⟩
      cases field <;> cases hkind
      exact ⟨_, rfl, hwritable.1, hwritable.2, hbits⟩

/-- The loop `readAll` goes on after a field exactly if that was read. -/
theorem readAll_cons_eq_ok_iff {kind : Kind} {kinds : List Kind} {fields : List BitField}
    {reader reader' : BitReader} : readAll (kind :: kinds) reader = .ok (fields, reader') ↔
      ∃ field rest reader₁, fields = field :: rest ∧ kind.read reader = (.ok field, reader₁) ∧
        readAll kinds reader₁ = .ok (rest, reader') := by
  rw [readAll]
  match hread : kind.read reader with
  | (.error e, reader₁) => simp
  | (.ok field, reader₁) =>
    match hrest : readAll kinds reader₁ with
    | .error e => simp [hrest, Except.map]
    | .ok (rest, reader₂) =>
      simp only [hrest, Except.map, Prod.map, id, Except.ok.injEq, Prod.mk.injEq]
      constructor
      · rintro ⟨rfl, rfl⟩
        exact ⟨field, rest, reader₁, rfl, ⟨rfl, rfl⟩, hrest⟩
      · rintro ⟨field', rest', reader₁', rfl, ⟨rfl, rfl⟩, hrest'⟩
        rw [hrest, Except.ok.injEq, Prod.mk.injEq] at hrest'
        exact ⟨by rw [hrest'.1], hrest'.2⟩

/-- The `fields` are read exactly if their bits are ahead; none of their values is lost. -/
theorem readAll_eq_ok_iff {kinds : List Kind} {fields : List BitField}
    {reader reader' : BitReader} : readAll kinds reader = .ok (fields, reader') ↔
      fields.map kind = kinds ∧ (∀ field ∈ fields, field.IsWritable ∧ field.reduced = field) ∧
        reader.bits = fields.flatMap bits ++ reader'.bits := by
  induction kinds generalizing fields reader with
  | nil =>
    rw [readAll, Except.ok.injEq, Prod.mk.injEq, List.map_eq_nil_iff]
    constructor
    · rintro ⟨rfl, rfl⟩
      exact ⟨rfl, by simp, rfl⟩
    · rintro ⟨rfl, -, hbits⟩
      exact ⟨rfl, BitReader.ext_bits hbits⟩
  | cons kind kinds ih =>
    rw [readAll_cons_eq_ok_iff]
    constructor
    · rintro ⟨field, rest, reader₁, rfl, hread, hrest⟩
      obtain ⟨rfl, hwritable, hreduced, hbits⟩ := read_eq_ok_iff.mp hread
      obtain ⟨rfl, hall, hbits₁⟩ := ih.mp hrest
      refine ⟨rfl, List.forall_mem_cons.mpr ⟨⟨hwritable, hreduced⟩, hall⟩, ?_⟩
      rw [hbits, hbits₁, List.flatMap_cons, List.append_assoc]
    · rintro ⟨hkinds, hall, hbits⟩
      obtain ⟨field, rest, rfl, rfl, rfl⟩ := List.map_eq_cons_iff.mp hkinds
      rw [List.forall_mem_cons] at hall
      rw [List.flatMap_cons, List.append_assoc] at hbits
      -- The reader after the first field is the one with the other bits ahead.
      obtain ⟨reader₁, -, hbits₁⟩ := BitReader.take_of_bits hbits
      exact ⟨field, rest, reader₁, rfl,
        read_eq_ok_iff.mpr ⟨rfl, hall.1.1, hall.1.2, by rw [hbits, hbits₁]⟩,
        ih.mpr ⟨rfl, hall.2, hbits₁⟩⟩

/-! ## There and back -/

theorem readAll_of_writeAll {fields : List BitField} (h : ∀ field ∈ fields, field.IsWritable) :
    ∃ writer reader, writeAll (.new []) fields = .ok writer ∧
      readAll (fields.map kind) (.new writer.toBytes) = .ok (fields.map reduced, reader) ∧
      reader.finish = .ok () := by
  obtain ⟨writer, hwrite, hbits⟩ := exists_writeAll (.new []) h
  obtain ⟨padding, hlt, hbytes⟩ := writer.isPadded_toBytes
  rw [hbits, BitWriter.bits_new, Bits.ofBytes_nil, List.nil_append] at hbytes
  have hwritten : (BitReader.new writer.toBytes).bits = fields.flatMap bits ++
      List.replicate padding false := hbytes
  obtain ⟨reader, -, hreader⟩ := BitReader.take_of_bits hwritten
  refine ⟨writer, reader, hwrite, ?_, BitReader.finish_eq_ok_iff.mpr ⟨padding, hlt, hreader⟩⟩
  refine readAll_eq_ok_iff.mpr ⟨?_, ?_, ?_⟩
  · simp
  · intro field hfield
    obtain ⟨written, hmem, rfl⟩ := List.mem_map.mp hfield
    exact ⟨isWritable_reduced (h written hmem), written.reduced_reduced⟩
  · rw [BitReader.bits_new, hbytes, hreader, List.flatMap_map]
    simp only [bits_reduced]

theorem writeAll_of_readAll {bytes : Bytes} {kinds : List Kind} {fields : List BitField}
    {reader : BitReader} (h : readAll kinds (.new bytes) = .ok (fields, reader))
    (hfinish : reader.finish = .ok ()) : fields.map kind = kinds ∧
      ∃ writer, writeAll (.new []) fields = .ok writer ∧ writer.toBytes = bytes := by
  obtain ⟨hkinds, hall, hbits⟩ := readAll_eq_ok_iff.mp h
  obtain ⟨padding, hlt, hpadding⟩ := BitReader.finish_eq_ok_iff.mp hfinish
  obtain ⟨writer, hwrite, hbits'⟩ :=
    exists_writeAll (.new []) fun field hfield => (hall field hfield).1
  rw [BitWriter.bits_new, Bits.ofBytes_nil, List.nil_append] at hbits'
  have hbytes : Bits.IsPadded writer.bits bytes :=
    ⟨padding, hlt, by rw [hbits', ← hpadding, ← hbits, BitReader.bits_new]⟩
  exact ⟨hkinds, writer, hwrite, writer.isPadded_toBytes.unique hbytes⟩

/-- **Streams are lists of fields.** Fields that are written can be read back, each of them but for
the bits that had no place in it (`reduced`), and nothing is left: `finish` succeeds. Fields that
are read so that nothing is left are written as the very bytes they were read from. -/
theorem readAll_writeAll :
    (∀ fields : List BitField, (∀ field ∈ fields, field.IsWritable) →
      ∃ writer reader, writeAll (.new []) fields = .ok writer ∧
        readAll (fields.map kind) (.new writer.toBytes) = .ok (fields.map reduced, reader) ∧
        reader.finish = .ok ()) ∧
      ∀ (bytes : Bytes) (kinds : List Kind) (fields : List BitField) (reader : BitReader),
        readAll kinds (.new bytes) = .ok (fields, reader) → reader.finish = .ok () →
          fields.map kind = kinds ∧
            ∃ writer, writeAll (.new []) fields = .ok writer ∧ writer.toBytes = bytes :=
  ⟨fun _ h => readAll_of_writeAll h, fun _ _ _ _ h hfinish => writeAll_of_readAll h hfinish⟩

/-- A number that is too wide for its place, between others of all kinds; and a byte that is read up
to its last three bits, which are zero. -/
theorem readAll_writeAll_mixed :
    let fields := [word 3 13, gamma 6, bit true, word 64 (2 ^ 64 - 1), word 0 7]
    let read := [word 4 10, bit true, word 0 0]
    (∃ writer reader, writeAll (.new []) fields = .ok writer ∧
        readAll (fields.map kind) (.new writer.toBytes) =
          .ok ([word 3 5, gamma 6, bit true, word 64 (2 ^ 64 - 1), word 0 0], reader) ∧
        reader.finish = .ok ()) ∧
      (∃ reader, readAll [.word 4, .bit, .word 0] (.new [0x1A]) = .ok (read, reader) ∧
        reader.finish = .ok ()) ∧
      ∃ writer, writeAll (.new []) read = .ok writer ∧ writer.toBytes = [0x1A] := by
  intro fields read
  have hwritable : ∀ field ∈ fields, field.IsWritable := by
    simp [fields, IsWritable, Bits.wordWidth]
  have hread : readAll [.word 4, .bit, .word 0] (.new [0x1A]) =
      .ok (read, ⟨[false, false, false], [], by decide⟩) := rfl
  have hfinish : BitReader.finish ⟨[false, false, false], [], by decide⟩ = .ok () := rfl
  exact ⟨readAll_writeAll.1 fields hwritable, ⟨_, hread, hfinish⟩,
    (readAll_writeAll.2 _ _ _ _ hread hfinish).2⟩

end BitField

end RoadTraffic
