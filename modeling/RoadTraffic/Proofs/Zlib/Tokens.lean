import Mathlib
import RoadTraffic.Zlib.Deflate

/-!
# The pieces of deflated data

The pieces that bytes are cut into stand for exactly those bytes: a literal for the byte in its
place, and a repetition for a stretch of bytes each of which equals the one three places before it.

* `Covers`: the pieces stand for the bytes between two places.
* `covers_tokens`: the pieces of a string of bytes stand for all of it.
-/

namespace RoadTraffic

namespace Zlib

/-- The byte at `i` equals the one `period` places before it. -/
def IsRepeat (all : Bytes) (i : Nat) : Prop :=
  period ≤ i ∧ i < all.length ∧ all[i - period]? = all[i]?

/-- The pieces stand for the bytes of `all` between two places: a `.literal` for the byte in its
place, and `.again count` for `count` bytes with `IsRepeat`. -/
inductive Covers (all : Bytes) : Nat → List Token → Nat → Prop where
  | nil (place : Nat) : Covers all place [] place
  | literal {start stop : Nat} {byte : UInt8} {tokens : List Token}
      (hbyte : all[start]? = some byte) (rest : Covers all (start + 1) tokens stop) :
      Covers all start (.literal byte :: tokens) stop
  | again {start stop count : Nat} {tokens : List Token} (hmin : repetitionLengths.1 ≤ count)
      (hmax : count ≤ repetitionLengths.2)
      (hrepeat : ∀ i, start ≤ i → i < start + count → IsRepeat all i)
      (rest : Covers all (start + count) tokens stop) :
      Covers all start (.again count :: tokens) stop

namespace Covers

variable {all : Bytes} {start middle stop : Nat} {tokens more : List Token}

theorem append (h : Covers all start tokens middle) (hmore : Covers all middle more stop) :
    Covers all start (tokens ++ more) stop := by
  induction h with
  | nil => exact hmore
  | literal hbyte _ ih => exact .literal hbyte (ih hmore)
  | again hmin hmax hrepeat _ ih => exact .again hmin hmax hrepeat (ih hmore)

/-- Bytes one by one, each as a `.literal`, stand for themselves. -/
theorem literals {bytes : Bytes}
    (h : ∀ i byte, bytes[i]? = some byte → all[start + i]? = some byte) :
    Covers all start (bytes.map Token.literal) (start + bytes.length) := by
  induction bytes generalizing start with
  | nil => exact .nil start
  | cons byte bytes ih =>
    have htail : ∀ i byte', bytes[i]? = some byte' → all[start + 1 + i]? = some byte' := by
      intro i byte' hi
      rw [Nat.add_assoc, Nat.add_comm 1 i]
      exact h (i + 1) byte' hi
    have hrest := ih htail
    rw [Nat.add_assoc, Nat.add_comm 1] at hrest
    exact .literal (h 0 byte rfl) hrest

end Covers

/-- The `stretch` is that of `all` from `start` on, and is made of repeating bytes alone. -/
def IsStretch (all : Bytes) (start : Nat) (stretch : Array UInt8) : Prop :=
  ∀ i byte, stretch[i]? = some byte → all[start + i]? = some byte ∧ IsRepeat all (start + i)

/-- The marks tell no byte of `all` from `place` on to repeat which does not. -/
def AreMarks (all : Bytes) (place : Nat) (marked : List (UInt8 × Bool)) : Prop :=
  ∀ i entry, marked[i]? = some entry →
    all[place + i]? = some entry.1 ∧ (entry.2 = true → IsRepeat all (place + i))

variable {all : Bytes} {start place : Nat} {done : Array Token} {stretch : Array UInt8}

theorem IsStretch.empty : IsStretch all start #[] := by
  intro i byte h
  simp at h

theorem IsStretch.push {byte : UInt8} (h : IsStretch all start stretch)
    (hbyte : all[start + stretch.size]? = some byte)
    (hrepeat : IsRepeat all (start + stretch.size)) : IsStretch all start (stretch.push byte) := by
  intro i byte' hi
  rw [Array.getElem?_push] at hi
  split at hi
  · next heq =>
    subst heq
    rw [← Option.some.inj hi]
    exact ⟨hbyte, hrepeat⟩
  · exact h i byte' hi

theorem AreMarks.head {entry : UInt8 × Bool} {marked : List (UInt8 × Bool)}
    (h : AreMarks all place (entry :: marked)) :
    all[place]? = some entry.1 ∧ (entry.2 = true → IsRepeat all place) := h 0 entry rfl

theorem AreMarks.tail {entry : UInt8 × Bool} {marked : List (UInt8 × Bool)}
    (h : AreMarks all place (entry :: marked)) : AreMarks all (place + 1) marked := by
  intro i entry' hi
  rw [Nat.add_assoc, Nat.add_comm 1 i]
  exact h (i + 1) entry' hi

theorem areMarks_markRepeats (all : Bytes) : AreMarks all 0 (markRepeats all) := by
  intro i entry h
  rw [Nat.zero_add]
  simp only [markRepeats, List.getElem?_zipWith] at h
  split at h
  · next byte earlier hbyte hearlier =>
    obtain rfl := Option.some.inj h
    refine ⟨hbyte, fun hrepeat => ?_⟩
    obtain rfl := eq_of_beq hrepeat
    have hlt : i < all.length := (List.getElem?_eq_some_iff.mp hbyte).1
    by_cases hperiod : i < period
    · rw [List.getElem?_append_left (by simpa using hperiod)] at hearlier
      simp [hperiod] at hearlier
    · rw [List.getElem?_append_right (by simpa using hperiod), List.length_replicate,
        List.getElem?_map] at hearlier
      refine ⟨not_lt.mp hperiod, hlt, ?_⟩
      rw [hbyte]
      simpa using hearlier
  · cases h

/-! ## Cutting -/

theorem covers_flush (hdone : Covers all 0 done.toList start) (h : IsStretch all start stretch)
    (hmax : stretch.size ≤ repetitionLengths.2) :
    Covers all 0 (flush done stretch).toList (start + stretch.size) := by
  unfold flush
  split
  · rw [Array.toList_append, Array.toList_map]
    refine hdone.append ?_
    have hbytes : ∀ i byte, stretch.toList[i]? = some byte → all[start + i]? = some byte :=
      fun i byte hi => (h i byte (by simpa using hi)).1
    exact .literals hbytes
  · next hmin =>
    rw [Array.toList_push]
    refine hdone.append (.again (not_lt.mp hmin) hmax (fun i hstart hstop => ?_) (.nil _))
    obtain ⟨k, rfl⟩ := Nat.exists_eq_add_of_le hstart
    exact (h k stretch[k] (Array.getElem?_eq_getElem (by omega))).2

/-- The induction is on the bytes that are still `marked`: the pieces so far stand for the bytes
before the stretch at hand, and the marks are those of the bytes behind it. -/
theorem covers_tokensFrom {marked : List (UInt8 × Bool)} (hdone : Covers all 0 done.toList start)
    (h : IsStretch all start stretch) (hmax : stretch.size < repetitionLengths.2)
    (hmarked : AreMarks all (start + stretch.size) marked) :
    Covers all 0 (tokensFrom done stretch marked).toList
      (start + stretch.size + marked.length) := by
  fun_induction tokensFrom done stretch marked generalizing start with
  | case1 done stretch => exact covers_flush hdone h hmax.le
  | case2 done stretch byte rest ih =>
    have hflush := covers_flush hdone h hmax.le
    have hpush : Covers all 0 ((flush done stretch).push (.literal byte)).toList
        (start + stretch.size + 1) := by
      rw [Array.toList_push]
      exact hflush.append (.literal hmarked.head.1 (.nil _))
    have := ih hpush .empty (by decide) hmarked.tail
    simpa [Nat.add_assoc, Nat.add_comm 1] using this
  | case3 done stretch byte rest hfull ih =>
    have hstretch := h.push hmarked.head.1 (hmarked.head.2 rfl)
    have hflush := covers_flush hdone hstretch (by rw [Array.size_push]; exact hfull.le)
    rw [Array.size_push, ← Nat.add_assoc] at hflush
    have := ih hflush .empty (by decide) hmarked.tail
    simpa [Nat.add_assoc, Nat.add_comm 1] using this
  | case4 done stretch byte rest hroom ih =>
    have hstretch := h.push hmarked.head.1 (hmarked.head.2 rfl)
    have := ih hdone hstretch (by rw [Array.size_push]; omega)
      (by rw [Array.size_push, ← Nat.add_assoc]; exact hmarked.tail)
    rw [Array.size_push] at this
    simpa [Nat.add_assoc, Nat.add_comm 1] using this

theorem covers_tokens (bytes : Bytes) : Covers bytes 0 (tokens bytes) bytes.length := by
  have hstart : Covers bytes 0 (#[] : Array Token).toList 0 := .nil 0
  have h := covers_tokensFrom hstart .empty (by decide) (areMarks_markRepeats bytes)
  have hlength : (markRepeats bytes).length = bytes.length := by
    simp [markRepeats]
  simpa [hlength, tokens] using h

end Zlib

end RoadTraffic
