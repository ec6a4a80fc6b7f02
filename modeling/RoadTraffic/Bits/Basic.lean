/-!
# Bits, lowest first

A number is spelled as the list of its bits with the lowest bit first, and a string of bytes as
the bits of its bytes one after the other. This is the reading order of every bit stream in the
library.

* `Bits.ofNat_toNat`: every list of bits is the spelling of its number.
-/

namespace RoadTraffic

/-- A string of bytes. -/
abbrev Bytes := List UInt8

namespace Bits

/-- The `width` lowest bits of `n`, lowest first. -/
def ofNat : (width n : Nat) → List Bool
  | 0, _ => []
  | width + 1, n => (n % 2 == 1) :: ofNat width (n / 2)

/-- The number with the given bits, lowest first: `Σ bᵢ * 2 ^ i`. -/
def toNat : List Bool → Nat
  | [] => 0
  | b :: bs => b.toNat + 2 * toNat bs

/-- The eight bits of a `byte`, lowest first. -/
def ofByte (byte : UInt8) : List Bool := ofNat 8 byte.toNat

/-- The byte with the given `bits`; those that are not given are zero. -/
def toByte (bits : List Bool) : UInt8 := UInt8.ofNat (toNat bits)

/-- The bits of a string of `bytes`, those of each byte lowest first. -/
def ofBytes (bytes : Bytes) : List Bool := bytes.flatMap ofByte

/-- No bits are less than a byte, as `BitReader.pending` and `BitWriter.pending` have to be. -/
theorem length_nil_lt : ([] : List Bool).length < 8 := by decide

/-! ## Numbers -/

@[simp] theorem length_ofNat (width n : Nat) : (ofNat width n).length = width := by
  induction width generalizing n with
  | zero => rfl
  | succ width ih => simp [ofNat, ih]

theorem ofNat_toNat (bits : List Bool) : ofNat bits.length (toNat bits) = bits := by
  induction bits with
  | nil => rfl
  | cons b bits ih =>
    have hmod : (b.toNat + 2 * toNat bits) % 2 = b.toNat := by
      cases b <;> simp
    have hdiv : (b.toNat + 2 * toNat bits) / 2 = toNat bits := by
      have := b.toNat_lt
      omega
    simp only [List.length_cons, ofNat, toNat, hmod, hdiv, ih]
    cases b <;> rfl

/-! ## Bytes -/

@[simp] theorem length_ofByte (byte : UInt8) : (ofByte byte).length = 8 := length_ofNat 8 _

@[simp] theorem ofBytes_nil : ofBytes [] = [] := rfl

@[simp] theorem ofBytes_cons (byte : UInt8) (bytes : Bytes) :
    ofBytes (byte :: bytes) = ofByte byte ++ ofBytes bytes := rfl

@[simp] theorem ofBytes_append (a b : Bytes) : ofBytes (a ++ b) = ofBytes a ++ ofBytes b :=
  List.flatMap_append

@[simp] theorem length_ofBytes (bytes : Bytes) : (ofBytes bytes).length = 8 * bytes.length := by
  induction bytes with
  | nil => rfl
  | cons byte bytes ih => simp [ih]; omega

end Bits

end RoadTraffic
