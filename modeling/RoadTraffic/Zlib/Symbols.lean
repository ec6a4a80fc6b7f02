import RoadTraffic.Zlib.Huffman

/-!
# The symbols of deflated data

Symbols below 256 are bytes and 256 ends a block. Each symbol above it stands for a range of
lengths of a repetition; the symbols of a second code stand for ranges of distances. A range is
given by its start and by how many further bits tell the place in it.
-/

namespace RoadTraffic

namespace Zlib

/-- Lengths or distances that share a symbol. -/
structure SymbolRange where
  start : Nat
  /-- The number of bits that tell the place in the range. -/
  width : Nat
  deriving DecidableEq, Repr

/-- The symbol that ends a block. -/
def endOfBlock : Nat := 256

/-- The ranges of the symbols behind `endOfBlock`. -/
def lengthRanges : List SymbolRange :=
  [⟨3, 0⟩, ⟨4, 0⟩, ⟨5, 0⟩, ⟨6, 0⟩, ⟨7, 0⟩, ⟨8, 0⟩, ⟨9, 0⟩, ⟨10, 0⟩, ⟨11, 1⟩, ⟨13, 1⟩, ⟨15, 1⟩,
   ⟨17, 1⟩, ⟨19, 2⟩, ⟨23, 2⟩, ⟨27, 2⟩, ⟨31, 2⟩, ⟨35, 3⟩, ⟨43, 3⟩, ⟨51, 3⟩, ⟨59, 3⟩, ⟨67, 4⟩,
   ⟨83, 4⟩, ⟨99, 4⟩, ⟨115, 4⟩, ⟨131, 5⟩, ⟨163, 5⟩, ⟨195, 5⟩, ⟨227, 5⟩, ⟨258, 0⟩]

/-- The ranges of the distance symbols, from symbol zero on. -/
def distanceRanges : List SymbolRange :=
  [⟨1, 0⟩, ⟨2, 0⟩, ⟨3, 0⟩, ⟨4, 0⟩, ⟨5, 1⟩, ⟨7, 1⟩, ⟨9, 2⟩, ⟨13, 2⟩, ⟨17, 3⟩, ⟨25, 3⟩, ⟨33, 4⟩,
   ⟨49, 4⟩, ⟨65, 5⟩, ⟨97, 5⟩, ⟨129, 6⟩, ⟨193, 6⟩, ⟨257, 7⟩, ⟨385, 7⟩, ⟨513, 8⟩, ⟨769, 8⟩,
   ⟨1025, 9⟩, ⟨1537, 9⟩, ⟨2049, 10⟩, ⟨3073, 10⟩, ⟨4097, 11⟩, ⟨6145, 11⟩, ⟨8193, 12⟩,
   ⟨12289, 12⟩, ⟨16385, 13⟩, ⟨24577, 13⟩]

/-- The code of bytes and lengths in a block without codes of its own. -/
def fixedLiterals : CodeTree :=
  .canonical (List.replicate 144 8 ++ List.replicate 112 9 ++ List.replicate 24 7 ++
    List.replicate 8 8)

/-- The code of distances in a block without codes of its own. -/
def fixedDistances : CodeTree := .canonical (List.replicate 32 5)

/-- The symbols of the code in which code lengths are written, in the order in which the lengths of
that code are given. The rarest come last, so that they can be left out. -/
def lengthCodeOrder : List Nat :=
  [16, 17, 18, 0, 8, 7, 9, 6, 10, 5, 11, 4, 12, 3, 13, 2, 14, 1, 15]

end Zlib

end RoadTraffic
