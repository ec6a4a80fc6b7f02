import Mathlib
import RoadTraffic.Proofs.FieldPlaces
import RoadTraffic.Proofs.Words.Reader

/-!
# Reading fields in machine words

The cursor of the machine goes from place to place as the reader does, in bytes that stay the same,
whether or not what is read on the way is there.

* `BitCursor.KeepsBytes bytes x`: the computation `x` leaves the cursor in `bytes`.
* `BitField.runs_readInWords`/`runs_attemptAllInWords`: one field, and fields one after the other.
* `BitField.attemptAll_places`: what a run of reads comes to, place by place, and its end.
-/

namespace RoadTraffic

namespace BitCursor

/-! ## The bytes of the machine -/

/-- Whatever comes of `x`, the cursor is still in the same `bytes`. -/
def KeepsBytes {α : Type} (bytes : Bytes) (x : Checked (α × BitCursor)) : Prop :=
  ∀ a cursor, x = .ok (a, cursor) → cursor.bytes = bytes

namespace KeepsBytes

variable {α β : Type} {bytes : Bytes}

theorem pure {a : α} {cursor : BitCursor} (h : cursor.bytes = bytes) :
    KeepsBytes bytes (Pure.pure (a, cursor)) := by
  rintro _ _ ⟨⟩
  exact h

theorem error (trap : Trap) : KeepsBytes bytes (.error trap : Checked (α × BitCursor)) := by
  rintro _ _ ⟨⟩

theorem bind {x : Checked β} {f : β → Checked (α × BitCursor)} (hf : ∀ b, KeepsBytes bytes (f b)) :
    KeepsBytes bytes (x >>= f) := by
  intro a cursor hx
  obtain ⟨b, -, hb⟩ := bind_eq_ok_iff.mp hx
  exact hf b a cursor hb

/-- The sequence `x >>= f` keeps the bytes if `x` does and `f` does so from where that left the
cursor. -/
theorem andThen {x : Checked (β × BitCursor)} {f : β × BitCursor → Checked (α × BitCursor)}
    (hx : KeepsBytes bytes x)
    (hf : ∀ b cursor, cursor.bytes = bytes → KeepsBytes bytes (f (b, cursor))) :
    KeepsBytes bytes (x >>= f) := by
  intro a cursor h
  obtain ⟨⟨b, cursor'⟩, hb, ha⟩ := bind_eq_ok_iff.mp h
  exact hf b cursor' (hx b cursor' hb) a cursor ha

/-- What is known of a computation that is not stopped (`P`), and the bytes. -/
theorem runs {x : Checked (α × BitCursor)} {P : α × BitCursor → Prop} (hx : KeepsBytes bytes x)
    (h : Runs x P) : Runs x fun result => P result ∧ result.2.bytes = bytes := by
  obtain ⟨⟨a, cursor⟩, hrun, ha⟩ := h
  exact ⟨(a, cursor), hrun, ha, hx a cursor hrun⟩

end KeepsBytes

variable {cursor : BitCursor} {bytes : Bytes}

theorem keepsBytes_readFrom {count filled : BitVec 32} {value : Word}
    (h : cursor.bytes = bytes) : KeepsBytes bytes (readFrom count filled value cursor) := by
  induction hleft : count.toNat - filled.toNat using Nat.strongRecOn
    generalizing filled value cursor with
  | _ left ih =>
    rw [readFrom]
    split
    · next hmore =>
      refine .bind fun byte => .bind fun room => .bind fun wanted => .bind fun low =>
        .bind fun mask => .bind fun piece => .bind fun filled' => .bind fun position => ?_
      have hoffset := Word.toNat_bitOffset cursor.position
      have height : (8 : BitVec 32).toNat = 8 := rfl
      have htake := Word.toNat_least room.1 wanted.1
      have hroom := room.2
      have hwanted := wanted.2
      have hfilled := filled'.2
      exact ih _ (by omega) h rfl
    · exact .pure h

theorem keepsBytes_read (h : cursor.bytes = bytes) (count : BitVec 32) :
    KeepsBytes bytes (cursor.read count) := by
  unfold read
  split
  · exact .error _
  · refine .bind fun available => ?_
    split
    · exact .pure h
    · exact .andThen (keepsBytes_readFrom h) fun value cursor' h' => .pure h'

theorem keepsBytes_readBit (h : cursor.bytes = bytes) : KeepsBytes bytes cursor.readBit := by
  refine .andThen (keepsBytes_read h 1) fun result cursor' h' => ?_
  cases result <;> exact .pure h'

theorem keepsBytes_readGammaFrom {zeros : BitVec 32} (h : cursor.bytes = bytes) :
    KeepsBytes bytes (readGammaFrom zeros cursor) := by
  induction hleft : 64 - zeros.toNat using Nat.strongRecOn generalizing zeros cursor with
  | _ left ih =>
    rw [readGammaFrom]
    refine .andThen (keepsBytes_readBit h) fun result cursor₁ h₁ => ?_
    rcases result with e | (_ | _)
    · exact .pure h₁
    · -- One zero more.
      refine .bind fun zeros' => ?_
      have hone : (1 : BitVec 32).toNat = 1 := rfl
      have hzeros := zeros'.2
      dsimp only
      split
      · exact .pure h₁
      · exact ih _ (by omega) h₁ rfl
    · -- The zeros are over.
      refine .bind fun top => .andThen (keepsBytes_read h₁ zeros) fun low cursor₂ h₂ => ?_
      cases low <;> exact .pure h₂

end BitCursor

namespace BitField

/-! ## By the machine -/

/-- Reads a field of this kind in machine words, as `Kind.read` does in numbers. -/
def Kind.readInWords (cursor : BitCursor) : Kind → Checked (Except BitError BitField × BitCursor)
  | word width => do
    let result ← cursor.read (BitVec.ofNat 32 width)
    return result.map (·.map fun value => .word width value.toNat) id
  | bit => do
    let result ← cursor.readBit
    return result.map (·.map .bit) id
  | gamma => do
    let result ← cursor.readGamma
    return result.map (·.map fun value => .gamma value.toNat) id

/-- Reads fields of `kinds` one after the other in machine words, whether or not some of them
fail. -/
def attemptAllInWords :
    List Kind → BitCursor → Checked (List (Except BitError BitField) × BitCursor)
  | [], cursor => .ok ([], cursor)
  | kind :: kinds, cursor => do
    let read ← kind.readInWords cursor
    let run ← attemptAllInWords kinds read.2
    return run.map (read.1 :: ·) id

variable {cursor : BitCursor} {reader : BitReader}

/-- A field is made of what is read in words as it is of what is read in numbers: `make` keeps
`Agree`. -/
theorem runs_map_of_agree {α β : Type} {same : α → β} (make : β → BitField)
    {x : Checked (Except BitError α × BitCursor)} {read : Except BitError β × BitReader}
    (hx : Runs x (BitCursor.Agree same · read)) :
    Runs (x >>= fun result => pure (result.map (·.map fun a => make (same a)) id))
      (BitCursor.Agree id · (read.map (·.map make) id)) := by
  refine hx.bind ?_
  rintro ⟨result, cursor'⟩ ⟨hresult, hviews⟩
  refine Runs.pure ⟨?_, hviews⟩
  rw [Prod.map_fst, Prod.map_fst, ← hresult]
  cases result <;> rfl

theorem keepsBytes_readInWords {bytes : Bytes} (h : cursor.bytes = bytes) (kind : Kind) :
    BitCursor.KeepsBytes bytes (kind.readInWords cursor) := by
  cases kind with
  | word width => exact .andThen (BitCursor.keepsBytes_read h _) fun _ _ h' => .pure h'
  | bit => exact .andThen (BitCursor.keepsBytes_readBit h) fun _ _ h' => .pure h'
  | gamma => exact .andThen (BitCursor.keepsBytes_readGammaFrom h) fun _ _ h' => .pure h'

theorem runs_readInWords (h : cursor.Views reader) {kind : Kind} (hkind : kind.IsReadable) :
    Runs (kind.readInWords cursor) fun result =>
      BitCursor.Agree id result (kind.read reader) ∧ result.2.bytes = cursor.bytes := by
  refine (keepsBytes_readInWords rfl kind).runs ?_
  cases kind with
  | word width =>
    have hwidth : width ≤ 64 := hkind
    have hcount := Word.toNat_count hwidth
    have hread := BitCursor.runs_read h (BitVec.ofNat 32 width) (hcount.trans_le hwidth)
    rw [hcount] at hread
    exact runs_map_of_agree (word width) hread
  | bit => exact runs_map_of_agree bit (BitCursor.runs_readBit h)
  | gamma => exact runs_map_of_agree gamma (BitCursor.runs_readGamma h)

/-- The machine reads the same fields as `attemptAll`, and its cursor is where the reader is. -/
theorem runs_attemptAllInWords (h : cursor.Views reader) {kinds : List Kind}
    (hkinds : ∀ kind ∈ kinds, kind.IsReadable) :
    Runs (attemptAllInWords kinds cursor) fun run =>
      run.1 = (attemptAll kinds reader).1 ∧ run.2.Views (attemptAll kinds reader).2 ∧
        run.2.bytes = cursor.bytes := by
  induction kinds generalizing cursor reader with
  | nil => exact Runs.ok ⟨rfl, h, rfl⟩
  | cons kind kinds ih =>
    rw [List.forall_mem_cons] at hkinds
    refine (runs_readInWords h hkinds.1).bind ?_
    rintro ⟨result, cursor'⟩ ⟨⟨hresult, hviews⟩, hbytes⟩
    refine (ih hviews hkinds.2).bind ?_
    rintro ⟨results, last⟩ ⟨hresults, hlast, hlastBytes⟩
    rw [Except.map_id] at hresult
    refine Runs.pure ⟨?_, hlast, hlastBytes.trans hbytes⟩
    exact congrArg₂ List.cons hresult hresults

/-! ## Runs and their ends -/

/-- **Where fields are read.** However fields are read one after the other, whether or not some of
them fail, none starts beyond the end of the bytes, and each comes to what the bits at its place
tell and to nothing else (`ReadAllAt`): a number is read if its bits are there, and they are the
bits of the number; else the read fails with how many were asked for and how many there are, and
takes none. At the end, fewer than eight zeros are accepted and nothing else; whole bytes are told
before padding (`EndsAt`). The machine is not stopped by any of this as long as it can count the
bits: its cursor goes the same way in the same bytes, and what is left is a difference that never
falls below zero. -/
theorem attemptAll_places (bytes : Bytes) {kinds : List Kind}
    (h : ∀ kind ∈ kinds, kind.IsReadable) : ∃ place ≤ 8 * bytes.length,
      (∀ results last, ReadAllAt bytes 0 kinds results last ↔
        results = (attemptAll kinds (.new bytes)).1 ∧ last = place) ∧
      (attemptAll kinds (.new bytes)).2.remaining = 8 * bytes.length - place ∧
      EndsAt bytes place (attemptAll kinds (.new bytes)).2.finish ∧
      (8 * bytes.length < 2 ^ 64 → ∃ cursor,
        attemptAllInWords kinds (.new bytes) = .ok ((attemptAll kinds (.new bytes)).1, cursor) ∧
        cursor.bytes = bytes ∧ cursor.position.toNat = place ∧
        (∃ ahead, cursor.remaining = .ok ahead ∧ ahead.toNat = 8 * bytes.length - place) ∧
        cursor.finish = .ok (attemptAll kinds (.new bytes)).2.finish) := by
  obtain ⟨place, hreads, hstands⟩ := finds_attemptAll (BitReader.standsAt_new bytes) h
  have hremaining := hstands.remaining_eq
  refine ⟨place, hstands.within, fun results last => ⟨fun h' => h'.unique hreads, ?_⟩, hremaining,
    hstands.endsAt_finish, fun hfits => ?_⟩
  · rintro ⟨rfl, rfl⟩
    exact hreads
  obtain ⟨⟨results, cursor⟩, hrun, hresults, hviews, hbytes⟩ :=
    runs_attemptAllInWords (BitCursor.views_new (bytes.length.mul_comm 8 ▸ hfits)) h
  obtain ⟨ahead, hahead, hcount⟩ := BitCursor.runs_remaining hviews
  obtain ⟨result, hfinish, rfl⟩ := BitCursor.runs_finish hviews
  change cursor.bytes = bytes at hbytes
  have hleft : _ = cursor.bytes.length * 8 - cursor.position.toNat := hviews.remaining_eq
  have hinside : cursor.position.toNat ≤ cursor.bytes.length * 8 := hviews.within
  have hwithin := hstands.within
  rw [hbytes] at hleft hinside
  rw [show results = _ from hresults] at hrun
  exact ⟨cursor, hrun, hbytes, by omega, ⟨ahead, hahead, hcount.trans hremaining⟩, hfinish⟩

/-- Two reads that fail on the way, of a number, which takes nothing, and of a gamma code, which
takes its zeros and the one; and a last bit that is zero. -/
theorem attemptAll_places_failing :
    let bytes : Bytes := [0x16, 0x10]
    let kinds : List Kind := [.word 3, .gamma, .word 20, .bit, .gamma, .word 2, .word 0]
    let results : List (Except BitError BitField) := [.ok (word 3 6), .ok (gamma 2),
      .error (.endOfStream 20 10), .ok (bit false), .error (.endOfStream 5 3), .ok (word 2 0),
      .ok (word 0 0)]
    (∀ kind ∈ kinds, kind.IsReadable) ∧ ReadAllAt bytes 0 kinds results 15 ∧
      EndsAt bytes 15 (.ok ()) ∧ ∃ cursor, attemptAllInWords kinds (.new bytes) =
        .ok (results, cursor) ∧ cursor.position.toNat = 15 ∧ cursor.finish = .ok (.ok ()) := by
  intro bytes kinds results
  have hreadable : ∀ kind ∈ kinds, kind.IsReadable := by
    simp [kinds, Kind.IsReadable, Bits.wordWidth]
  have hresults : (attemptAll kinds (.new bytes)).1 = results := rfl
  have hok : (attemptAll kinds (.new bytes)).2.finish = .ok () := rfl
  obtain ⟨place, hplace, hreads, hremaining, hends, hmachine⟩ := attemptAll_places bytes hreadable
  obtain rfl : place = 15 := by
    change place ≤ 16 at hplace
    change 1 = 16 - place at hremaining
    omega
  obtain ⟨cursor, hrun, -, hposition, -, hfinish⟩ := hmachine (by decide)
  rw [hok] at hends hfinish
  rw [hresults] at hrun
  exact ⟨hreadable, (hreads results 15).mpr ⟨hresults.symm, rfl⟩, hends, cursor, hrun, hposition,
    hfinish⟩

end BitField

end RoadTraffic
