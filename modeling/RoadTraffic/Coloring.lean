import Std.Data.ExtTreeMap
import RoadTraffic.Log
import RoadTraffic.Segment
import RoadTraffic.SpeedGroup

/-!
# Colorings

A coloring gives segments their speed group. Where it says nothing the group is `.unknown`. Two
colorings are equal if they give the same groups to the same segments.

* `Coloring.ofParallel`: the coloring of a key list and the values that belong to it.
* `Coloring.carryOver`: what was known, spread over a new key list.
* `Coloring.get?_ofList_concat`: the last group given to a segment counts.
-/

namespace RoadTraffic

/-- The speed groups of segments. -/
structure Coloring where
  groups : Std.ExtTreeMap SegmentId SpeedGroup

/-- A key list and a list of values of different lengths: `keys` of the one, `values` of the
other. -/
structure LengthMismatch where
  keys : Nat
  values : Nat
  deriving DecidableEq, Repr

/-- The wording of the fault, which names `e.values` before `e.keys`. -/
def LengthMismatch.message (e : LengthMismatch) : String :=
  s!"Received {e.values} traffic values for {e.keys} keys"

/-- Segments that were known and do not occur in the key list that should hold them all. -/
structure MissingSegments where
  count : Nat
  deriving DecidableEq, Repr

/-- The wording of the fault. -/
def MissingSegments.message (e : MissingSegments) : String :=
  s!"{e.count} known segments are missing from the key list"

namespace Coloring

/-- The coloring that says nothing. -/
def empty : Coloring := ⟨∅⟩

instance : Inhabited Coloring := ⟨empty⟩

/-- Gives the segment `id` a `group`, in place of the one it may have. -/
def insert (coloring : Coloring) (id : SegmentId) (group : SpeedGroup) : Coloring :=
  ⟨coloring.groups.insert id group⟩

/-- The coloring that results from giving groups to segments one after the other, so that the last
of the `entries` for a segment counts. -/
def ofList (entries : List (SegmentId × SpeedGroup)) : Coloring :=
  entries.foldl (fun coloring entry => coloring.insert entry.1 entry.2) empty

/-- The group given to the segment `id`, if there is one. -/
def get? (coloring : Coloring) (id : SegmentId) : Option SpeedGroup := coloring.groups[id]?

/-- The group of the segment `id`, and `.unknown` if it has none. -/
def group (coloring : Coloring) (id : SegmentId) : SpeedGroup :=
  (coloring.get? id).getD .unknown

/-- The number of segments that have a group, be it `.unknown`. -/
def size (coloring : Coloring) : Nat := coloring.groups.size

/-- Whether no segment has a group. -/
def isEmpty (coloring : Coloring) : Bool := coloring.groups.isEmpty

/-- The segments that have a group, with their groups, in order. -/
def toList (coloring : Coloring) : List (SegmentId × SpeedGroup) := coloring.groups.toList

/-! ## Keys with values -/

/-- The coloring that gives each of the `keys` the value at its place, if there are as many of
both. -/
def ofParallel (keys : List SegmentId) (values : List SpeedGroup) :
    Except LengthMismatch Coloring :=
  if keys.length = values.length then .ok (ofList (keys.zip values))
  else .error ⟨keys.length, values.length⟩

/-! ## Known groups on a new key list -/

/-- The part of the program that log records about colorings name. -/
def logTarget : String := "mwm_traffic::coloring"

/-- Known groups spread over a key list. -/
structure Carried where
  coloring : Coloring
  /-- How many keys have a known group. -/
  known : Nat
  /-- How many keys have none. -/
  unknown : Nat
  /-- How many segments were known beyond the `known` keys that have a known group. -/
  missing : Nat

/-- Gives each key the group that is `known` for it, and `.unknown` to the others. -/
def carryOver (keys : List SegmentId) (known : Coloring) : Carried :=
  let hits := keys.countP fun key => (known.get? key).isSome
  { coloring := ofList (keys.map fun key => (key, known.group key))
    known := hits
    unknown := keys.length - hits
    missing := known.size - hits }

namespace Carried

/-- What is logged about it: the counts, and a warning if segments are `missing`. -/
def records (carried : Carried) : List LogRecord :=
  { level := .info
    target := logTarget
    message := some "Road segments: known/unknown/total"
    fields := [("known", toString carried.known), ("unknown", toString carried.unknown),
      ("total", toString (carried.known + carried.unknown))] } ::
  if carried.missing = 0 then []
  else
    [{ level := .warn
       target := logTarget
       message := some "Known road segments are missing from the key list"
       fields := [("missing", toString carried.missing)] }]

/-- The coloring, if no known segment is `missing`. -/
def checked (carried : Carried) : Except MissingSegments Coloring :=
  if carried.missing = 0 then .ok carried.coloring else .error ⟨carried.missing⟩

end Carried

/-! ## Look-ups -/

@[ext] theorem ext_get? {a b : Coloring} (h : ∀ id, a.get? id = b.get? id) : a = b :=
  congrArg mk (Std.ExtTreeMap.ext_getElem? h)

@[simp] theorem get?_empty (id : SegmentId) : empty.get? id = none :=
  Std.ExtTreeMap.getElem?_empty

theorem get?_insert (coloring : Coloring) (id other : SegmentId) (group : SpeedGroup) :
    (coloring.insert id group).get? other =
      if id = other then some group else coloring.get? other := by
  simp only [get?, insert, Std.ExtTreeMap.getElem?_insert, Std.LawfulEqOrd.compare_eq_iff_eq]

theorem ofList_concat (entries : List (SegmentId × SpeedGroup)) (id : SegmentId)
    (group : SpeedGroup) : ofList (entries ++ [(id, group)]) = (ofList entries).insert id group :=
  by simp [ofList]

theorem get?_ofList_concat (entries : List (SegmentId × SpeedGroup)) (id other : SegmentId)
    (group : SpeedGroup) : (ofList (entries ++ [(id, group)])).get? other =
      if id = other then some group else (ofList entries).get? other := by
  rw [ofList_concat, get?_insert]

end Coloring

end RoadTraffic
