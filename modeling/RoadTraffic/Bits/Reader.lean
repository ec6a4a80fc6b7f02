import RoadTraffic.Bits.Basic
import RoadTraffic.Bits.Error

/-!
# Reading bits

A reader walks over a string of bytes bit by bit, lowest bit of each byte first.

* `BitReader.length_bits`: `remaining` counts the bits ahead.
* `BitReader.take_eq`: a field of `n` bits is the number spelled by the next `n` bits, and it is
  refused exactly if fewer are ahead.
-/

namespace RoadTraffic

/-- What is still to be read: the rest of the byte at hand, and the bytes after it. -/
structure BitReader where
  pending : List Bool
  rest : Bytes
  pending_lt : pending.length < 8

namespace BitReader

/-- A reader in front of the first bit of `bytes`. -/
def new (bytes : Bytes) : BitReader where
  pending := []
  rest := bytes
  pending_lt := Bits.length_nil_lt

/-- The number of bits ahead of the `reader`, padding included. -/
def remaining (reader : BitReader) : Nat := reader.pending.length + 8 * reader.rest.length

/-- The next bit, if there is one. -/
def next? : BitReader → Option (Bool × BitReader)
  | ⟨bit :: pending, rest, h⟩ =>
    some (bit, ⟨pending, rest, by simp only [List.length_cons] at h; omega⟩)
  | ⟨[], [], _⟩ => none
  | ⟨[], byte :: rest, _⟩ =>
    some (byte.toNat % 2 == 1,
      ⟨Bits.ofNat 7 (byte.toNat / 2), rest, by rw [Bits.length_ofNat]; decide⟩)

/-- The number in the next `count` bits, lowest first, if there are that many. -/
def take : (count : Nat) → BitReader → Option (Nat × BitReader)
  | 0, reader => some (0, reader)
  | count + 1, reader =>
    match reader.next? with
    | none => none
    | some (bit, reader) =>
      match take count reader with
      | none => none
      | some (high, reader) => some (bit.toNat + 2 * high, reader)

/-- A field of `count` bits, at most a word. A read that fails leaves the `reader` where it was. -/
def read (count : Nat) (reader : BitReader) : Except BitError Nat × BitReader :=
  if count ≤ Bits.wordWidth then
    match reader.take count with
    | some (value, reader) => (.ok value, reader)
    | none => (.error (.endOfStream count reader.remaining), reader)
  else (.error (.wideRead count), reader)

/-- A field of one bit. -/
def readBit (reader : BitReader) : Except BitError Bool × BitReader :=
  match reader.read 1 with
  | (.ok value, reader) => (.ok (value == 1), reader)
  | (.error e, reader) => (.error e, reader)

/-- Skips what is left of the byte at hand, so that `rest` is what is still to be read. -/
def align (reader : BitReader) : BitReader := new reader.rest

/-- Accepts the end of the stream: no whole byte is in `rest`, and what is `pending` is zero. -/
def finish (reader : BitReader) : Except BitError Unit :=
  if reader.rest.length ≠ 0 then .error (.trailingBytes reader.rest.length)
  else if reader.pending.any id then .error .nonZeroPadding
  else .ok ()

/-! ## The bits ahead -/

/-- The bits still to be read, in the order in which they are. -/
def bits (reader : BitReader) : List Bool := reader.pending ++ Bits.ofBytes reader.rest

@[simp] theorem bits_new (bytes : Bytes) : (new bytes).bits = Bits.ofBytes bytes := rfl

@[simp] theorem length_bits (reader : BitReader) : reader.bits.length = reader.remaining := by
  simp [bits, remaining]

theorem next?_eq_none {reader : BitReader} : reader.next? = none ↔ reader.bits = [] := by
  match reader with
  | ⟨_ :: _, _, _⟩ => simp [next?, bits]
  | ⟨[], [], _⟩ => simp [next?, bits]
  | ⟨[], _ :: _, _⟩ => simp [next?, bits, Bits.ofByte, Bits.ofNat]

theorem bits_eq_of_next? {reader reader' : BitReader} {bit : Bool}
    (h : reader.next? = some (bit, reader')) : reader.bits = bit :: reader'.bits := by
  match reader with
  | ⟨_ :: _, _, _⟩ =>
    simp only [next?, Option.some.injEq, Prod.mk.injEq] at h
    obtain ⟨rfl, rfl⟩ := h
    rfl
  | ⟨[], [], _⟩ => simp [next?] at h
  | ⟨[], byte :: _, _⟩ =>
    simp only [next?, Option.some.injEq, Prod.mk.injEq] at h
    obtain ⟨rfl, rfl⟩ := h
    rfl

/-- What `take count` gives is the number spelled by the `count` bits it takes; there is none if
fewer are ahead. -/
theorem take_eq (count : Nat) (reader : BitReader) :
    match reader.take count with
    | none => reader.bits.length < count
    | some (value, reader') => ∃ field, field.length = count ∧
        reader.bits = field ++ reader'.bits ∧ value = Bits.toNat field := by
  induction count generalizing reader with
  | zero => exact ⟨[], rfl, rfl, rfl⟩
  | succ count ih =>
    unfold take
    cases hnext : reader.next? with
    | none => simp [next?_eq_none.1 hnext]
    | some head =>
      obtain ⟨bit, reader'⟩ := head
      have hbits := bits_eq_of_next? hnext
      have := ih reader'
      dsimp only
      cases htake : reader'.take count with
      | none =>
        rw [htake] at this
        rw [hbits, List.length_cons]
        exact Nat.succ_lt_succ this
      | some tail =>
        rw [htake] at this
        obtain ⟨field, hlen, hrest, hvalue⟩ := this
        exact ⟨bit :: field, by simp [hlen], by simp [hbits, hrest], by simp [Bits.toNat, hvalue]⟩

end BitReader

end RoadTraffic
