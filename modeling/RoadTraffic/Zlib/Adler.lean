import RoadTraffic.Bits.Basic

/-!
# Adler-32

The checksum of a zlib stream: two sums modulo the largest prime below `2 ^ 16`, of the bytes and
of the sums so far.
-/

namespace RoadTraffic

namespace Zlib

/-- The largest prime below `2 ^ 16`. -/
def adlerModulus : Nat := 65521

/-- The two `sums`, that of the bytes and that of the sums so far, one `byte` further. -/
def adlerStep (sums : Nat × Nat) (byte : UInt8) : Nat × Nat :=
  let low := (sums.1 + byte.toNat) % adlerModulus
  (low, (sums.2 + low) % adlerModulus)

/-- The checksum of a string of `bytes`: the sum of the sums in the high half, that of the bytes in
the low one. -/
def adler32 (bytes : Bytes) : Nat :=
  let sums := bytes.foldl adlerStep (1, 0)
  sums.2 * 0x10000 + sums.1

theorem adler32_lt (bytes : Bytes) : adler32 bytes < 0x100000000 := by
  have step : ∀ sums byte, (adlerStep sums byte).1 < 65521 ∧ (adlerStep sums byte).2 < 65521 :=
    fun _ _ => ⟨Nat.mod_lt _ (by decide), Nat.mod_lt _ (by decide)⟩
  have sums : ∀ (bytes : Bytes) s, s.1 < 65521 ∧ s.2 < 65521 →
      (bytes.foldl adlerStep s).1 < 65521 ∧ (bytes.foldl adlerStep s).2 < 65521 := by
    intro bytes
    induction bytes with
    | nil => exact fun _ h => h
    | cons byte bytes ih => exact fun s _ => ih _ (step s byte)
  have := sums bytes (1, 0) (by decide)
  simp only [adler32]
  omega

end Zlib

end RoadTraffic
