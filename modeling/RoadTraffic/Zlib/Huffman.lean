/-!
# Canonical prefix codes

A prefix code is a tree whose leaves are symbols; the code of a symbol is the path to it. A
canonical code is determined by the lengths of its codes: at each depth the leaves come first, in
the order of their symbols, and the inner nodes after them.

* `CodeTree.ofLengths?`: the canonical code with the given code lengths.
* `CodeTree.path?`: the code of a symbol.
-/

namespace RoadTraffic

namespace Zlib

/-- A prefix code; `missing` stands where no code leads. -/
inductive CodeTree where
  | missing
  | leaf (symbol : Nat)
  | node (zero one : CodeTree)
  deriving DecidableEq, Repr

namespace CodeTree

/-- The longest code. -/
def maxLength : Nat := 15

/-- The nodes one level up from the given ones: each pair of neighbours under one `node`. -/
def pairUp : List CodeTree → List CodeTree
  | a :: b :: rest => node a b :: pairUp rest
  | [a] => [node a missing]
  | [] => []

/-- The leaves at the given `depth`: the symbols whose code has that length, in order. -/
def leavesAt (lengths : List Nat) (depth : Nat) : List CodeTree :=
  lengths.zipIdx.filterMap fun (length, symbol) =>
    if length = depth then some (leaf symbol) else none

/-- All nodes at the given depth, where there are none below depth `depth + levels`. -/
def nodesAt (lengths : List Nat) (depth : Nat) : (levels : Nat) → List CodeTree
  | 0 => []
  | levels + 1 => leavesAt lengths depth ++ pairUp (nodesAt lengths (depth + 1) levels)

/-- The canonical code with the given `lengths`; a length of zero leaves its symbol out. -/
def canonical (lengths : List Nat) : CodeTree :=
  match pairUp (nodesAt lengths 1 maxLength) with
  | root :: _ => root
  | [] => missing

/-- How much of the room for codes the `lengths` take up, in units of a code of `maxLength`. -/
def room (lengths : List Nat) : Nat :=
  (lengths.filter (· ≠ 0)).foldr (fun length sum => 1 <<< (maxLength - length) + sum) 0

/-- The canonical code with the given `lengths`, if they fill the room for codes. If `sparse`, a
code of one symbol or of none will do too. -/
def ofLengths? (sparse : Bool) (lengths : List Nat) : Option CodeTree :=
  if room lengths = 1 <<< maxLength then some (canonical lengths)
  else if sparse && lengths.countP (· != 0) ≤ 1 then some (canonical lengths)
  else none

/-- The code of a `symbol`, if it has one: the way to its leaf, where `false` leads to `zero`. -/
def path? (symbol : Nat) : CodeTree → Option (List Bool)
  | missing => none
  | leaf found => if found = symbol then some [] else none
  | node zero one =>
    match zero.path? symbol with
    | some path => some (false :: path)
    | none => (one.path? symbol).map (true :: ·)

end CodeTree

end Zlib

end RoadTraffic
