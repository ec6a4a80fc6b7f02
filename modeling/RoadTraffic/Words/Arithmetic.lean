/-!
# Arithmetic in machine words

A machine counts in words of fixed width. Its operations are spelled out here so that none of them
goes wrong in silence: where a sum, a difference or a product does not fit, a word is shifted by its
whole width or more, or a list has no such item, the computation stops with a `Trap`. An operation
that goes on hands out its result with what is known of it, as `Word.add` does with
`c.toNat = a.toNat + b.toNat`.
-/

namespace RoadTraffic

/-- Why a machine stops. -/
inductive Trap where
  /-- A sum, a product or a length does not fit in a word. -/
  | overflow
  /-- A difference is below zero. -/
  | underflow
  /-- A word is divided by zero. -/
  | zeroDivisor
  /-- The logarithm of zero is asked for. -/
  | zeroLogarithm
  /-- A word is shifted by its width or more. -/
  | wideShift
  /-- A list has no item or end at that place. -/
  | outOfBounds
  /-- A field of more than 64 bits is read or written. -/
  | wideField
  deriving DecidableEq, Repr

/-- What comes of a computation that may be stopped by a `Trap`. -/
abbrev Checked := Except Trap

/-- The words that sizes are told in, of 64 bits. -/
abbrev Word := BitVec 64

namespace Word

variable {α : Type} {w v : Nat}

/-! ## Sums, differences and products -/

/-- The sum `a + b`, stopped by `.overflow`. -/
def add (a b : BitVec w) : Checked {c : BitVec w // c.toNat = a.toNat + b.toNat} :=
  if h : a.uaddOverflow b then .error .overflow
  else .ok ⟨a + b, BitVec.toNat_add_of_not_uaddOverflow h⟩

/-- The difference `a - b`, stopped by `.underflow`. -/
def sub (a b : BitVec w) : Checked {c : BitVec w // c.toNat = a.toNat - b.toNat} :=
  if h : a.usubOverflow b then .error .underflow
  else .ok ⟨a - b, BitVec.toNat_sub_of_not_usubOverflow h⟩

/-- The product `a * b`, stopped by `.overflow`. -/
def mul (a b : BitVec w) : Checked {c : BitVec w // c.toNat = a.toNat * b.toNat} :=
  if h : a.umulOverflow b then .error .overflow
  else .ok ⟨a * b, BitVec.toNat_mul_of_not_umulOverflow h⟩

/-- The quotient `a / b`, stopped by `.zeroDivisor`. -/
def div (a b : BitVec w) : Checked {c : BitVec w // c.toNat = a.toNat / b.toNat} :=
  if b = 0 then .error .zeroDivisor else .ok ⟨a / b, BitVec.toNat_udiv⟩

/-- The remainder `a % b`, stopped by `.zeroDivisor`. -/
def mod (a b : BitVec w) : Checked {c : BitVec w // c.toNat = a.toNat % b.toNat} :=
  if b = 0 then .error .zeroDivisor else .ok ⟨a % b, BitVec.toNat_umod⟩

/-! ## Results that are cut off or left out -/

/-- The sum `a + b`, or the largest word in its place. -/
def addCapped (a b : BitVec w) : BitVec w :=
  if a.uaddOverflow b then BitVec.allOnes w else a + b

/-- The product `a * b`, or the largest word in its place. -/
def mulCapped (a b : BitVec w) : BitVec w :=
  if a.umulOverflow b then BitVec.allOnes w else a * b

/-- The difference `a - b`, or zero in its place. -/
def subCapped (a b : BitVec w) : BitVec w :=
  if a.usubOverflow b then 0 else a - b

/-- The sum `a + b`, if it fits. -/
def add? (a b : BitVec w) : Option (BitVec w) :=
  if a.uaddOverflow b then none else some (a + b)

/-- The difference `a - b`, if it is not below zero. -/
def sub? (a b : BitVec w) : Option (BitVec w) :=
  if a.usubOverflow b then none else some (a - b)

/-- The same number in a word of `v` bits, if it fits. -/
def resize? (v : Nat) (a : BitVec w) : Option (BitVec v) :=
  if (a.setWidth v).toNat = a.toNat then some (a.setWidth v) else none

/-- The lesser of two words. -/
def least (a b : BitVec w) : BitVec w := if a.toNat ≤ b.toNat then a else b

/-- The greater of two words. -/
def greatest (a b : BitVec w) : BitVec w := if a.toNat ≤ b.toNat then b else a

@[simp] theorem toNat_least (a b : BitVec w) : (least a b).toNat = min a.toNat b.toNat := by
  unfold least
  split <;> omega

@[simp] theorem toNat_greatest (a b : BitVec w) :
    (greatest a b).toNat = max a.toNat b.toNat := by
  unfold greatest
  split <;> omega

/-! ## Shifts -/

/-- Moves the bits up by `places`; those beyond the width `w` are lost. -/
def shiftLeft (a : BitVec w) (places : BitVec v) : Checked (BitVec w) :=
  if places.toNat < w then .ok (a <<< places.toNat) else .error .wideShift

/-- Moves the bits down by `places`. -/
def shiftRight (a : BitVec w) (places : BitVec v) : Checked (BitVec w) :=
  if places.toNat < w then .ok (a >>> places.toNat) else .error .wideShift

/-- The word in which the lowest `bits` bits are set: `2 ^ bits - 1`. -/
def lowMask (w : Nat) (bits : BitVec v) : Checked (BitVec w) := do
  let top ← shiftLeft (1 : BitVec w) bits
  let mask ← sub top 1
  return mask

/-- The place of the highest bit that is set in `a`. -/
def log2 (a : BitVec w) : Checked (BitVec 32) :=
  if a = 0 then .error .zeroLogarithm else .ok (BitVec.ofNat 32 a.toNat.log2)

/-! ## Lists -/

/-- The number `n` as a word, stopped by `.overflow`. -/
def ofNat (n : Nat) : Checked {c : Word // c.toNat = n} :=
  if h : (BitVec.ofNat 64 n).toNat = n then .ok ⟨_, h⟩ else .error .overflow

/-- The number of `items` as a word. -/
def length (items : List α) : Checked {n : Word // n.toNat = items.length} := ofNat items.length

/-- The item at a `place`, stopped by `.outOfBounds`. -/
def item (items : List α) (place : Word) : Checked α :=
  match items[place.toNat]? with
  | some found => .ok found
  | none => .error .outOfBounds

/-- The `items` from a `place` on. The place behind the last one is within bounds. -/
def suffix (items : List α) (place : Word) :
    Checked {rest : List α // rest = items.drop place.toNat} :=
  if place.toNat ≤ items.length then .ok ⟨_, rfl⟩ else .error .outOfBounds

/-! ## Bytes -/

/-- The number of bytes that `bits` bits take up, the last of which need not be full. -/
def byteCount (bits : Word) : Checked Word := do
  let whole ← div bits 8
  let left ← mod bits 8
  if left.1 = 0 then return whole
  let all ← add whole.1 1
  return all

/-- The place of the bit at `position` in its byte. -/
def bitOffset (position : Word) : BitVec 32 := (position % 8).setWidth 32

@[simp] theorem toNat_bitOffset (position : Word) :
    (bitOffset position).toNat = position.toNat % 8 := by
  have hlt : position.toNat % 8 < 8 := Nat.mod_lt _ (by decide)
  rw [bitOffset, BitVec.toNat_setWidth, BitVec.toNat_umod]
  exact Nat.mod_eq_of_lt (Nat.lt_trans hlt (by decide))

end Word

end RoadTraffic
