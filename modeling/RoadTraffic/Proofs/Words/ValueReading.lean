import Mathlib
import RoadTraffic.Proofs.Varint
import RoadTraffic.Proofs.Words.KeyReading
import RoadTraffic.Words.Values

/-!
# Unpacking values in machine words

No byte string makes the machine stop while it unpacks speed groups, whatever decompressor is called
for it. The decompressor can neither take more than it is given nor hand out more than there is
room for, so that a word can tell what it has taken and made.

* `Zlib.Decompressor.runs_runInWords`/`runs_inflateInWords`: what is made of the calls is the same.
* `Values.runs_unpackInWords`: packed values, once they are inflated.
* `Values.runs_decodeInWords`: the machine goes through, and comes to what the values are.
-/

namespace RoadTraffic

namespace Zlib

namespace Decompressor

variable {decompressor : Decompressor} {bytes : Bytes} {limit : Word}

/-! ## Calls -/

theorem runs_roomInWords (hbytes : bytes.length * 8 < 2 ^ 64) (made spare : Word) :
    Runs (roomInWords bytes limit made spare) fun room => room.toNat =
      max spare.toNat (min (min Bits.maxWord (limit.toNat + 1) - made.toNat) (chunk bytes)) := by
  have hone : (1 : Word).toNat = 1 := rfl
  have hleast : (64 : Word).toNat = 64 := rfl
  have hfour : (4 : Word).toNat = 4 := rfl
  have hword : Bits.maxWord = 2 ^ 64 - 1 := rfl
  refine Runs.length (by omega) ?_
  rintro ⟨total, htotal⟩
  have hgreatest := Word.toNat_greatest total 64
  dsimp only
  refine Runs.mul (by rw [hfour]; omega) ?_
  rintro ⟨chunk, hchunk⟩
  refine Runs.pure ?_
  rw [Word.toNat_greatest, Word.toNat_least, Word.toNat_subCapped, Word.toNat_addCapped, hone,
    hchunk, hgreatest, hleast, hfour, htotal, hword, Decompressor.chunk]

/-- What is made and what there is room for stay below the first length that is too large,
`limit + 1`. The induction is on what can still be taken and handed out. -/
theorem runs_runInWords (hbytes : bytes.length * 8 < 2 ^ 64) {state : decompressor.State}
    {taken : Word} {output : Bytes} {spare : Word} (htaken : taken.toNat ≤ bytes.length)
    (hword : output.length + spare.toNat ≤ Bits.maxWord)
    (hlimit : output.length + spare.toNat ≤ limit.toNat + 1) :
    Runs (decompressor.runInWords bytes limit state taken output spare) fun result =>
      result.map (Prod.map BitVec.toNat id) =
        decompressor.run bytes limit.toNat state taken.toNat output spare.toNat := by
  induction hleft : (bytes.length - taken.toNat) + (limit.toNat - output.length)
    using Nat.strongRecOn generalizing state taken output spare with
  | _ left ih =>
    have hmax : Bits.maxWord = 2 ^ 64 - 1 := rfl
    rw [runInWords]
    refine Runs.length (by omega) ?_
    rintro ⟨made, hmade⟩
    refine (runs_roomInWords hbytes made spare).bind fun room hroom => ?_
    refine Runs.length (by omega) ?_
    rintro ⟨total, htotal⟩
    dsimp only at hroom ⊢
    -- No more is taken than there is, so that looking up the rest is not stopped.
    have hfound : (Word.least taken total).toNat = taken.toNat := by
      rw [Word.toNat_least, htotal, Nat.min_eq_left htaken]
    refine Runs.suffix (by omega) ?_
    rintro ⟨rest, hrest⟩
    obtain rfl : rest = bytes.drop taken.toNat := by rw [hrest, hfound]
    dsimp only
    rw [hmade] at hroom
    rw [run, ← hroom]
    -- From here on it only matters that the room does not reach beyond the limit.
    obtain ⟨hword, hlimit⟩ : output.length + room.toNat ≤ Bits.maxWord ∧
        output.length + room.toNat ≤ limit.toNat + 1 := by omega
    clear hroom
    cases decompressor.call state (bytes.drop taken.toNat) room.toNat with
    | none => exact Runs.pure rfl
    | some piece =>
      have hpieceTaken := piece.taken_le
      have hpieceLength := piece.length_le
      have hnothing : piece.output = [] ↔ piece.output.length = 0 := List.length_eq_zero_iff.symm
      rw [List.length_drop] at hpieceTaken
      have hlength : (output ++ piece.output).length = output.length + piece.output.length :=
        List.length_append
      refine Runs.length (by omega) ?_
      rintro ⟨made', hmade'⟩
      refine Runs.ofNat (by omega) ?_
      rintro ⟨took, htook⟩
      refine Runs.add (by dsimp only; omega) ?_
      rintro ⟨taken', htaken'⟩
      dsimp only at htaken' ⊢
      rw [htook] at htaken'
      have hstall : (taken' = taken ∧ made' = made) ↔ (piece.taken = 0 ∧ piece.output = []) := by
        rw [← BitVec.toNat_inj, ← BitVec.toNat_inj, htaken', hmade', hmade, hlength, hnothing]
        omega
      simp only [hmade', hstall]
      split_ifs with hlarge hended hstalled
      · exact Runs.pure rfl
      · exact Runs.pure (congrArg Except.ok (Prod.ext htaken' rfl))
      · exact Runs.pure rfl
      rw [hnothing] at hstalled
      refine Runs.sub (by omega) ?_
      rintro ⟨used, hused⟩
      refine Runs.sub (by dsimp only; omega) ?_
      rintro ⟨spare', hspare'⟩
      dsimp only at hspare' ⊢
      rw [hused, hmade', hmade, hlength, Nat.add_sub_cancel_left] at hspare'
      have hrest := @ih _ (by omega) piece.state taken' (output ++ piece.output) spare'
        (by omega) (by omega) (by omega) rfl
      rwa [htaken', hspare'] at hrest

theorem runs_inflateInWords (hbytes : bytes.length * 8 < 2 ^ 64) :
    Runs (decompressor.inflateInWords bytes limit)
      (· = decompressor.inflate bytes limit.toNat) := by
  have hzero : (0 : Word).toNat = 0 := rfl
  refine (runs_runInWords hbytes (by omega) (by simp) (by simp)).bind ?_
  intro result hresult
  rw [inflate, show decompressor.run bytes limit.toNat decompressor.start 0 [] 0 = _ from
    hresult.symm]
  cases result with
  | error e => exact Runs.pure rfl
  | ok result =>
    obtain ⟨taken, output⟩ := result
    refine Runs.length (by omega) ?_
    rintro ⟨total, htotal⟩
    dsimp only [Except.map, Prod.map, id]
    by_cases htaken : taken.toNat < bytes.length
    · rw [if_pos (show taken.toNat < total.toNat by omega), if_pos htaken]
      refine Runs.sub (by omega) ?_
      rintro ⟨left, hleft⟩
      exact Runs.pure (by rw [hleft, htotal])
    · rw [if_neg (show ¬ taken.toNat < total.toNat by omega), if_neg htaken]
      exact Runs.pure rfl

end Decompressor

end Zlib

namespace BitCursor

variable {cursor : BitCursor} {reader : BitReader}

/-! ## Speed groups -/

theorem runs_readGroups {done : List SpeedGroup} {count : Nat} (h : cursor.Views reader) :
    Runs (readGroups done count cursor) (Follows · (Values.readGroups done count reader)) := by
  induction count generalizing done cursor reader with
  | zero => exact Runs.pure (.ok _ h)
  | succ count ih =>
    unfold readGroups Values.readGroups
    refine runs_bind_of_agree (runs_read h 3 (by decide)) ?_ ?_ <;>
      intro found cursor' reader' hread hviews <;>
      rw [show reader.read SpeedGroup.width = _ from hread]
    · exact Runs.pure (.error _)
    · have hlt : found.toNat < 2 ^ 3 := (BitReader.read_eq_ok_iff.mp hread).2.1
      have hcode : (Word.resize? 8 found).bind (fun code => SpeedGroup.ofCode? code.toNat) =
          SpeedGroup.ofCode? found.toNat := by
        rw [Word.resize?_eq (by decide), if_pos (by omega), Option.bind_some, BitVec.toNat_ofNat,
          Nat.mod_eq_of_lt (by omega)]
      dsimp only
      rw [hcode]
      cases SpeedGroup.ofCode? found.toNat with
      | none => exact Runs.pure (.error _)
      | some group => exact ih hviews

theorem runs_readAllGroups {count : Nat} (h : cursor.Views reader) :
    Runs (readAllGroups count cursor) (· = Values.readAll count reader) := by
  refine runs_bind_of_follows (runs_readGroups h) (fun _ => rfl) ?_
  intro groups cursor' reader' hviews
  refine (runs_finish hviews).bind ?_
  rintro _ rfl
  dsimp only
  cases reader'.finish with
  | error e => exact Runs.pure rfl
  | ok => exact Runs.pure rfl

end BitCursor

namespace Values

variable {bytes : Bytes} {limit : Word}

theorem runs_maxPackedLengthInWords (count : Word) :
    Runs (maxPackedLengthInWords count) fun longest =>
      longest.toNat = maxPackedLength count.toNat := by
  refine Runs.byteCount fun length hlength => Runs.pure ?_
  have heleven : (11 : Word).toNat = 11 := rfl
  have hthree : (3 : Word).toNat = SpeedGroup.width := rfl
  rw [Word.toNat_addCapped, hlength, Word.toNat_mulCapped, heleven, hthree]
  rfl

theorem runs_unpackInWords (h : bytes.length * 8 < 2 ^ 64) :
    Runs (unpackInWords bytes limit) (· = unpack bytes limit.toNat) := by
  cases bytes with
  | nil => exact Runs.pure rfl
  | cons found body =>
    rw [unpackInWords, unpack]
    by_cases hversion : found.toNat ≠ version
    · rw [if_pos hversion, if_pos hversion]
      exact Runs.pure rfl
    rw [if_neg hversion, if_neg hversion]
    cases hcount : Varint.decode body with
    | error e => exact Runs.pure rfl
    | ok result =>
      obtain ⟨values, rest⟩ := result
      obtain ⟨spelling, rfl, -⟩ := Varint.decode_eq_ok_iff.mp hcount
      have hlt := (Varint.decode_eq_ok_iff_decodeFrom.mp hcount).2
      rw [List.length_cons, List.length_append] at h
      refine Runs.ofNat hlt ?_
      rintro ⟨count, rfl⟩
      dsimp only
      by_cases hmany : count.toNat > limit.toNat
      · rw [if_pos hmany, if_pos hmany]
        exact Runs.pure rfl
      rw [if_neg hmany, if_neg hmany]
      refine Runs.lengthInBits (by omega) ?_
      rintro length ⟨bits, _⟩ hbits
      dsimp only at hbits ⊢
      have hroom : rest.length * 8 < (Word.mulCapped count 3).toNat ↔
          count.toNat * SpeedGroup.width > rest.length * 8 := Word.lt_toNat_mulCapped_iff (by omega)
      simp only [hbits, hroom]
      split
      · exact Runs.pure rfl
      · exact BitCursor.runs_readAllGroups (BitCursor.views_new (by omega))

/-- The machine goes through, whatever its `bytes` are and whatever the `decompressor` makes of
them. -/
theorem runs_decodeInWords {decompressor : Zlib.Decompressor} (hbytes : bytes.length * 8 < 2 ^ 64)
    (hpacked : ∀ packed, decompressor.inflate bytes (maxPackedLength limit.toNat) = .ok packed →
      packed.length * 8 < 2 ^ 64) :
    Runs (decodeInWords decompressor bytes limit) (· =
      decodeInflated (decompressor.inflate bytes (maxPackedLength limit.toNat)) limit.toNat) := by
  refine (runs_maxPackedLengthInWords limit).bind fun longest hlongest => ?_
  refine (Zlib.Decompressor.runs_inflateInWords hbytes).bind ?_
  rintro _ rfl
  rw [hlongest]
  cases hinflate : decompressor.inflate bytes (maxPackedLength limit.toNat) with
  | error e => exact Runs.pure rfl
  | ok packed => exact runs_unpackInWords (hpacked packed hinflate)

end Values

end RoadTraffic
