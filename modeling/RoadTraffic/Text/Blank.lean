/-!
# White space

The characters with the Unicode property `White_Space`, and texts without them at their ends.

* `Blank.isBlank`: whether a character has the property.
* `Blank.trim`: a text without the white space at both ends.
-/

namespace RoadTraffic

namespace Blank

/-- The white space beyond the ASCII range, as ranges with both ends. -/
def ranges : List (Nat × Nat) :=
  [(0x85, 0x85), (0xA0, 0xA0), (0x1680, 0x1680), (0x2000, 0x200A), (0x2028, 0x2029),
   (0x202F, 0x202F), (0x205F, 0x205F), (0x3000, 0x3000)]

/-- Whether a character is white space: the ASCII space, those from tab to carriage return, and
those in `ranges`. -/
def isBlank (c : Char) : Bool :=
  c == ' ' || (9 ≤ c.toNat && c.toNat ≤ 13) ||
    ranges.any fun (low, high) => low ≤ c.toNat && c.toNat ≤ high

/-- The `text` without the white space at both ends. -/
def trim (text : List Char) : List Char :=
  ((text.dropWhile isBlank).reverse.dropWhile isBlank).reverse

end Blank

end RoadTraffic
