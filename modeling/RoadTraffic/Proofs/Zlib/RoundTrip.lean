import Mathlib
import RoadTraffic.Proofs.Zlib.Inflation
import RoadTraffic.Proofs.Zlib.Tokens

/-!
# Inflating what was deflated

* `InflatesBack`: what a compressor makes of bytes is inflated to those bytes, if they fit.
* `inflatesBack_deflate`: `deflate` is such a compressor.
-/

namespace RoadTraffic

namespace Zlib

/-- What the compressor makes of `bytes` is one stream, which is inflated to `bytes`; the only fault
is that they are more than the `limit`. -/
def InflatesBack (compress : Bytes → Bytes) : Prop :=
  ∀ bytes limit, inflate (compress bytes) limit =
    if bytes.length ≤ limit then .ok bytes else .error (.tooLarge limit)

/-! ## The fixed codes -/

/-- The symbols that have a code in the tree, from left to right. -/
def CodeTree.symbols : CodeTree → List Nat
  | missing => []
  | leaf symbol => [symbol]
  | node zero one => zero.symbols ++ one.symbols

theorem CodeTree.path?_isSome {tree : CodeTree} {symbol : Nat} :
    (tree.path? symbol).isSome ↔ symbol ∈ tree.symbols := by
  induction tree with
  | missing => simp [path?, symbols]
  | leaf found =>
    rw [path?, symbols, List.mem_singleton, eq_comm (a := symbol)]
    split <;> simp [*]
  | node zero one ihZero ihOne =>
    rw [symbols, List.mem_append, ← ihZero, ← ihOne, path?]
    cases zero.path? symbol <;> simp

theorem symbols_fixedLiterals : fixedLiterals.symbols =
    List.range' 256 24 ++ List.range 144 ++ List.range' 280 8 ++ List.range' 144 112 := by
  decide +kernel

theorem symbols_fixedDistances : fixedDistances.symbols = List.range 32 := by
  decide +kernel

theorem path?_fixedLiterals {symbol : Nat} (h : symbol ≤ endOfBlock + lengthRanges.length) :
    fixedLiterals.path? symbol = some (literalCode symbol) := by
  have hlt : symbol < endOfBlock + 1 + lengthRanges.length := by omega
  have hmem : symbol ∈ fixedLiterals.symbols := by
    rw [symbols_fixedLiterals]
    have : symbol < 286 := hlt
    simp only [List.mem_append, List.mem_range'_1, List.mem_range]
    omega
  obtain ⟨path, hpath⟩ := Option.isSome_iff_exists.mp (CodeTree.path?_isSome.mpr hmem)
  have hcode : literalCodes[symbol]? = some path := by
    unfold literalCodes
    rw [Array.getElem?_map, Array.getElem?_range, if_pos hlt, Option.map_some, hpath,
      Option.getD_some]
  rw [hpath, literalCode, hcode, Option.getD_some]

theorem path?_fixedDistances : fixedDistances.path? (period - 1) = some periodCode := by
  have hmem : period - 1 ∈ fixedDistances.symbols := by
    rw [symbols_fixedDistances]
    decide
  obtain ⟨path, hpath⟩ := Option.isSome_iff_exists.mp (CodeTree.path?_isSome.mpr hmem)
  rw [periodCode, hpath, Option.getD_some]

/-- The code `literalCode` is not the code of one symbol alone, and so no symbol has the empty
word. -/
theorem length_literalCode_pos {symbol : Nat} (h : symbol ≤ endOfBlock + lengthRanges.length) :
    0 < (literalCode symbol).length := by
  have hpath := path?_fixedLiterals h
  cases hcode : literalCode symbol with
  | cons => simp
  | nil =>
    rw [hcode] at hpath
    have hroot : ∀ tree : CodeTree, tree.path? symbol = some [] → tree.symbols = [symbol] := by
      intro tree htree
      cases tree with
      | missing => simp [CodeTree.path?] at htree
      | leaf found =>
        simp only [CodeTree.path?] at htree
        split at htree
        · next heq => rw [CodeTree.symbols, heq]
        · cases htree
      | node zero one =>
        simp only [CodeTree.path?] at htree
        split at htree <;> simp at htree
    have hlength := congrArg List.length (hroot _ hpath)
    rw [symbols_fixedLiterals] at hlength
    simp at hlength

/-- The last of `lengthRanges` that starts no later than a length has room for it, and `lengthBits`
names the length by it. -/
theorem exists_lengthRange {count : Nat} (hmin : repetitionLengths.1 ≤ count)
    (hmax : count ≤ repetitionLengths.2) :
    ∃ index range, lengthRanges[index]? = some range ∧ range.start ≤ count ∧
      count - range.start < 2 ^ range.width ∧
      lengthBits count = literalCode (endOfBlock + 1 + index) ++
        Bits.ofNat range.width (count - range.start) := by
  have hfind : ∀ count < 259, 3 ≤ count → ∃ entry,
      lengthRanges.zipIdx.reverse.find? (fun entry => entry.1.start ≤ count) = some entry ∧
        count - entry.1.start < 2 ^ entry.1.width := by
    decide +kernel
  obtain ⟨⟨range, index⟩, hentry, hwidth⟩ := hfind count (Nat.lt_succ_of_le hmax) hmin
  have hmem := List.mem_reverse.mp (List.mem_of_find?_eq_some hentry)
  have hstart := List.find?_some hentry
  refine ⟨index, range, List.mem_zipIdx_iff_getElem?.mp hmem, by simpa using hstart, hwidth, ?_⟩
  unfold lengthBits
  simp only [hentry]

namespace Inflate

variable {limit fuel : Nat} {all : Bytes} {start stop : Nat} {pieces : List Token}
  {literals distances : CodeTree}

/-! ## The block -/

/-- A repetition goes back `period` bytes, where by `IsRepeat` the same bytes stand. -/
theorem Produces.again {count : Nat} {range : SymbolRange}
    (hdistances : distances.path? (period - 1) = some periodCode) (hstart : range.start ≤ count)
    (hwidth : count - range.start < 2 ^ range.width) (hmin : 0 < count)
    (hrepeat : ∀ i, start ≤ i → i < start + count → IsRepeat all i) :
    Produces limit all (repetition limit distances range)
      (Bits.ofNat range.width (count - range.start) ++ periodCode) start (start + count) := by
  have hperiod : period ≤ start := (hrepeat start le_rfl (by omega)).1
  have hlength : start < all.length := (hrepeat start le_rfl (by omega)).2.1
  have hbytes : Produces limit all (Inflate.repeatBytes limit period count) [] start
      (start + count) := .repeatBytes (by decide) hlength.le hrepeat
  have hdistance : Reads (inRange ⟨period, 0⟩) [] period := .inRange le_rfl (by decide)
  unfold repetition
  refine .of_reads (.inRange hstart hwidth) ?_
  rw [← List.append_nil periodCode]
  refine .of_reads (.symbol hdistances) ?_
  rw [← List.append_nil []]
  refine .of_reads hdistance ?_
  refine .of_get hlength.le fun state hsize => ?_
  rw [hsize, if_pos hperiod]
  exact hbytes

/-- Each piece takes one turn of `symbols`, and the end of the block one more. All that counts of
the two codes is how they spell the symbols at hand. -/
theorem produces_symbols
    (hliterals : ∀ symbol, symbol ≤ endOfBlock + lengthRanges.length →
      literals.path? symbol = some (literalCode symbol))
    (hdistances : distances.path? (period - 1) = some periodCode)
    (h : Covers all start pieces stop) (hstop : stop ≤ all.length)
    (hfuel : pieces.length < fuel) :
    Produces limit all (symbols limit literals distances fuel)
      (pieces.flatMap Token.bits ++ literalCode endOfBlock) start stop := by
  induction h generalizing fuel with
  | nil place =>
    cases fuel with
    | zero => exact absurd hfuel (Nat.not_lt_zero _)
    | succ fuel =>
      have hend := Reads.symbol (hliterals endOfBlock (Nat.le_add_right _ _))
      rw [List.flatMap_nil, List.nil_append, ← List.append_nil (literalCode endOfBlock)]
      refine .of_reads hend ?_
      rw [if_neg (Nat.lt_irrefl _), if_pos rfl]
      exact .pure hstop
  | @literal start stop byte pieces hbyte rest ih =>
    cases fuel with
    | zero => exact absurd hfuel (Nat.not_lt_zero _)
    | succ fuel =>
      have hlt : byte.toNat < endOfBlock := byte.toNat_lt
      have hcode := Reads.symbol (hliterals byte.toNat (hlt.le.trans (Nat.le_add_right _ _)))
      rw [List.flatMap_cons, List.append_assoc]
      refine .of_reads hcode ?_
      rw [if_pos hlt, UInt8.ofNat_toNat]
      exact .bind_nil (.produce hbyte) (ih hstop (Nat.lt_of_succ_lt_succ hfuel))
  | @again start stop count pieces hmin hmax hrepeat rest ih =>
    cases fuel with
    | zero => exact absurd hfuel (Nat.not_lt_zero _)
    | succ fuel =>
      obtain ⟨index, range, hrange, hstart, hwidth, hbits⟩ := exists_lengthRange hmin hmax
      have hindex : index < lengthRanges.length := (List.getElem?_eq_some_iff.mp hrange).1
      have hcode := Reads.symbol (hliterals (endOfBlock + 1 + index) (by omega))
      rw [List.flatMap_cons, Token.bits, hbits]
      simp only [List.append_assoc]
      refine .of_reads hcode ?_
      rw [if_neg (by omega), if_neg (by omega),
        show endOfBlock + 1 + index - endOfBlock - 1 = index by omega, hrange,
        ← List.append_assoc]
      exact .bind (.again hdistances hstart hwidth (Nat.lt_of_lt_of_le (by decide) hmin) hrepeat)
        (ih hstop (Nat.lt_of_succ_lt_succ hfuel))

theorem produces_blocks {left : Nat} (h : Covers all start pieces stop)
    (hstop : stop ≤ all.length) (hfuel : pieces.length < fuel) :
    Produces limit all (blocks limit fuel (left + 1))
      (blockHeader ++ (pieces.flatMap Token.bits ++ literalCode endOfBlock)) start stop := by
  have hlast : Reads bit [true] true := .bit true
  have hkind : Reads (field 2) [true, false] 1 := .field (show 1 < 2 ^ 2 by decide)
  have hblock : Produces limit all (symbols limit fixedLiterals fixedDistances fuel)
      (pieces.flatMap Token.bits ++ literalCode endOfBlock) start stop :=
    produces_symbols (fun _ => path?_fixedLiterals) path?_fixedDistances h hstop hfuel
  rw [← List.append_nil (_ ++ literalCode endOfBlock)]
  show Produces limit all _ ([true] ++ ([true, false] ++ _)) start stop
  exact .of_reads hlast (.of_reads hkind (hblock.bind (.pure hstop)))

/-! ## The frame -/

theorem reads_header : Reads header (Bits.ofBytes streamHeader) () := by
  have hmethod : Reads (field 8) (Bits.ofByte 0x78) 0x78 := .field (by decide)
  have hflags : Reads (field 8) (Bits.ofByte 0xDA) 0xDA := .field (by decide)
  unfold header
  show Reads _ (Bits.ofByte 0x78 ++ (Bits.ofByte 0xDA ++ [])) ()
  exact hmethod.bind (hflags.bind (.pure ()))

/-- The sum of the four bytes of `bigEndian`, highest first, is the number they were made from. -/
theorem foldl_bigEndian {n : Nat} (h : n < 0x100000000) :
    ((bigEndian n).map UInt8.toNat).foldl (fun sum byte => sum * 256 + byte) 0 = n := by
  simp only [bigEndian, List.map_cons, List.map_nil, List.foldl_cons, List.foldl_nil,
    UInt8.toNat_ofNat', Nat.shiftRight_eq_div_pow]
  omega

/-- The `checksum` stands on whole bytes behind the `padding` of the last block. -/
theorem checksum_run {state : Inflater} {padding : List Bool} {sum : Nat}
    (hsum : adler32 state.output.toList = sum) (hpadding : padding.length < 8)
    (hbits : state.input.bits = padding ++ Bits.ofBytes (bigEndian sum)) :
    checksum state = (.ok (), ⟨.new [], state.output⟩) := by
  have halign : align state = (.ok (), ⟨.new (bigEndian sum), state.output⟩) := by
    rw [align, BitReader.align_of_bits hbits hpadding]
  have hread : Reads (fields 8 #[] 4) (Bits.ofBytes (bigEndian sum))
      (#[] ++ ((bigEndian sum).map UInt8.toNat).toArray) := .fields (bigEndian sum) #[]
  obtain ⟨input, hfields, hinput⟩ := hread ⟨.new (bigEndian sum), state.output⟩ [] (by simp)
  obtain rfl : input = .new [] := BitReader.ext_bits hinput
  have hfound : (#[] ++ ((bigEndian sum).map UInt8.toNat).toArray).foldl
      (fun sum byte => sum * 256 + byte) 0 = sum := by
    rw [Array.empty_append, List.foldl_toArray]
    exact foldl_bigEndian (hsum ▸ adler32_lt _)
  unfold checksum
  rw [bind_of_ok halign, bind_of_ok hfields]
  have hget : (get : Inflate Inflater) ⟨.new [], state.output⟩ =
      (.ok ⟨.new [], state.output⟩, ⟨.new [], state.output⟩) := rfl
  rw [bind_of_ok hget, hfound, hsum, if_pos rfl]
  rfl

end Inflate

/-! ## The stream -/

/-- The bits of a stream between `streamHeader` and its checksum: one block. -/
def blockBits (bytes : Bytes) : List Bool :=
  blockHeader ++ ((tokens bytes).flatMap Token.bits ++ literalCode endOfBlock)

theorem exists_deflate_eq (bytes : Bytes) : ∃ body, Bits.IsPadded (blockBits bytes) body ∧
    deflate bytes = streamHeader ++ body ++ bigEndian (adler32 bytes) := by
  unfold deflate
  dsimp only
  have hbits : (((tokens bytes).foldl (fun writer token => writer.append token.bits)
      ((BitWriter.new streamHeader).append blockHeader)).append (literalCode endOfBlock)).bits =
        Bits.ofBytes streamHeader ++ blockBits bytes := by
    rw [BitWriter.bits_append, BitWriter.bits_foldl_append, BitWriter.bits_append,
      BitWriter.bits_new, blockBits]
    simp only [List.append_assoc]
  have hpadded := BitWriter.isPadded_toBytes (((tokens bytes).foldl
    (fun writer token => writer.append token.bits)
      ((BitWriter.new streamHeader).append blockHeader)).append (literalCode endOfBlock))
  rw [hbits] at hpadded
  obtain ⟨body, hbody, hpadded⟩ := hpadded.drop_header
  exact ⟨body, hpadded, by rw [hbody]⟩

/-- No piece is written with fewer than one bit, nor is the end of the block. So there is fuel for
all of them. -/
theorem length_tokens_lt (bytes : Bytes) : (tokens bytes).length < (blockBits bytes).length := by
  have hpieces : ∀ {start stop pieces}, Covers bytes start pieces stop →
      pieces.length ≤ (pieces.flatMap Token.bits).length := by
    intro start stop pieces h
    induction h with
    | nil => exact Nat.zero_le _
    | @literal start stop byte pieces hbyte rest ih =>
      have hlt : byte.toNat < endOfBlock := byte.toNat_lt
      have := length_literalCode_pos (hlt.le.trans (Nat.le_add_right _ lengthRanges.length))
      simp only [List.flatMap_cons, Token.bits, List.length_append, List.length_cons]
      omega
    | @again start stop count pieces hmin hmax hrepeat rest ih =>
      obtain ⟨index, range, hrange, -, -, hbits⟩ := exists_lengthRange hmin hmax
      have hindex : index < lengthRanges.length := (List.getElem?_eq_some_iff.mp hrange).1
      have hsymbol : endOfBlock + 1 + index ≤ endOfBlock + lengthRanges.length := by omega
      have := length_literalCode_pos hsymbol
      simp only [List.flatMap_cons, Token.bits, hbits, List.length_append, List.length_cons]
      omega
  have := hpieces (covers_tokens bytes)
  have hheader : blockHeader.length = 3 := rfl
  rw [blockBits, List.length_append, List.length_append]
  omega

/-- Between the header and the checksum stand the blocks. If `bytes` do not fit, the blocks are not
read to their end. -/
theorem stream_run {bytes : Bytes} {input : BitReader} {padding : List Bool} {limit fuel : Nat}
    (hpadding : padding.length < 8) (hfuel : (tokens bytes).length < fuel)
    (hinput : input.bits = Bits.ofBytes streamHeader ++
      (blockBits bytes ++ (padding ++ Bits.ofBytes (bigEndian (adler32 bytes))))) :
    if bytes.length ≤ limit then
      Inflate.stream limit fuel ⟨input, #[]⟩ = (.ok (), ⟨.new [], bytes.toArray⟩)
    else (Inflate.stream limit fuel ⟨input, #[]⟩).1 = .error (.tooLarge limit) := by
  obtain ⟨left, rfl⟩ : ∃ left, fuel = left + 1 := Nat.exists_eq_add_one.mpr (by omega)
  obtain ⟨rest, hheader, hrest⟩ := Inflate.reads_header ⟨input, #[]⟩ _ hinput
  have hproduces : Inflate.Produces limit bytes (Inflate.blocks limit (left + 1) (left + 1))
      (blockBits bytes) 0 bytes.length :=
    Inflate.produces_blocks (covers_tokens bytes) le_rfl hfuel
  have hblocks := hproduces.run ⟨rest, #[]⟩ _ hrest rfl (Nat.zero_le limit)
  unfold Inflate.stream
  rw [bind_of_ok hheader]
  by_cases hfits : bytes.length ≤ limit
  · rw [if_pos hfits] at hblocks
    obtain ⟨state, hrun, hbits, houtput⟩ := hblocks
    rw [List.take_length] at houtput
    rw [bind_of_ok hrun, if_pos hfits, ← houtput]
    exact Inflate.checksum_run (congrArg adler32 houtput) hpadding hbits
  · rw [if_neg hfits] at hblocks
    rw [if_neg hfits, fst_bind_of_error hblocks]

theorem inflate_of_run {input bytes : Bytes} {limit : Nat}
    (h : if bytes.length ≤ limit then
        Inflate.stream limit (BitReader.new input).remaining ⟨.new input, #[]⟩ =
          (.ok (), ⟨.new [], bytes.toArray⟩)
      else (Inflate.stream limit (BitReader.new input).remaining ⟨.new input, #[]⟩).1 =
        .error (.tooLarge limit)) :
    inflate input limit =
      if bytes.length ≤ limit then .ok bytes else .error (.tooLarge limit) := by
  by_cases hfits : bytes.length ≤ limit
  · rw [if_pos hfits] at h
    rw [if_pos hfits, inflate_eq_ok_iff]
    exact ⟨_, h, rfl, rfl⟩
  · rw [if_neg hfits] at h
    rw [if_neg hfits, inflate_of_stream_error h]

theorem inflatesBack_deflate : InflatesBack deflate := by
  intro bytes limit
  obtain ⟨body, ⟨padding, hpadding, hbody⟩, hdeflate⟩ := exists_deflate_eq bytes
  have hinput : (BitReader.new (deflate bytes)).bits = Bits.ofBytes streamHeader ++
      (blockBits bytes ++ (List.replicate padding false ++
        Bits.ofBytes (bigEndian (adler32 bytes)))) := by
    rw [BitReader.bits_new, hdeflate]
    simp only [Bits.ofBytes_append, hbody, List.append_assoc]
  have hfuel : (tokens bytes).length < (BitReader.new (deflate bytes)).remaining := by
    have := length_tokens_lt bytes
    rw [← BitReader.length_bits, hinput, List.length_append, List.length_append]
    omega
  exact inflate_of_run (stream_run (by simpa using hpadding) hfuel hinput)

end Zlib

end RoadTraffic
