/-!
# Speed groups

Traffic is told in eight groups, from standing to free flow, with one for a blocked road and one
for no information. A group is transmitted as its code of three bits.

* `SpeedGroup.ofCode?_code`: a group is known by its code.
-/

namespace RoadTraffic

/-- How fast traffic moves on a segment. -/
inductive SpeedGroup where
  /-- The slowest traffic. -/
  | g0
  | g1
  | g2
  | g3
  | g4
  /-- Free flow. -/
  | g5
  /-- The road is blocked for the time being. -/
  | tempBlock
  /-- Nothing is known. -/
  | unknown
  deriving DecidableEq, Repr

namespace SpeedGroup

instance : Inhabited SpeedGroup := ⟨unknown⟩

/-- The number of bits of a code. -/
def width : Nat := 3

/-- The groups in the order of their codes. -/
def all : List SpeedGroup := [g0, g1, g2, g3, g4, g5, tempBlock, unknown]

/-- The code of a group, which is its place in `all`. -/
def code : SpeedGroup → Nat
  | g0 => 0
  | g1 => 1
  | g2 => 2
  | g3 => 3
  | g4 => 4
  | g5 => 5
  | tempBlock => 6
  | unknown => 7

/-- The name of a group. -/
def name : SpeedGroup → String
  | g0 => "G0"
  | g1 => "G1"
  | g2 => "G2"
  | g3 => "G3"
  | g4 => "G4"
  | g5 => "G5"
  | tempBlock => "TempBlock"
  | unknown => "Unknown"

/-- The group with the given `code`, if it is below eight. -/
def ofCode? (code : Nat) : Option SpeedGroup := all[code]?

/-- The group with the given `name`, spelled as in `name`. -/
def ofName? (name : String) : Option SpeedGroup := all.find? (·.name == name)

/-- What is said of a `code` that no group has. -/
def unknownCodeMessage (code : Nat) : String :=
  s!"No discriminant in enum `SpeedGroup` matches the value `{code}`"

/-- The highest percentage of the free-flow speed that counts for each group. Those at 100 share it,
and the first of them takes it. -/
def thresholds : List (SpeedGroup × Float) :=
  all.zip [8, 16, 33, 58, 83, 100, 100, 100]

/-- The group of a speed given in percent of the free-flow speed. A speed below nothing counts as
standing, one above free flow as free flow, and one that is no number as `unknown`. -/
def ofPercentage (percentage : Float) : SpeedGroup :=
  let percentage := if percentage < 0 then 0 else if percentage > 100 then 100 else percentage
  match thresholds.find? fun (_, threshold) => percentage ≤ threshold with
  | some (group, _) => group
  | none => unknown

theorem code_lt (group : SpeedGroup) : group.code < 1 <<< width := by cases group <;> decide

theorem ofCode?_code (group : SpeedGroup) : ofCode? group.code = some group := by
  cases group <;> rfl

theorem code_of_ofCode? {n : Nat} {group : SpeedGroup} (h : ofCode? n = some group) :
    group.code = n := by
  match n with
  | 0 | 1 | 2 | 3 | 4 | 5 | 6 | 7 => cases h; rfl
  | n + 8 => simp [ofCode?, all] at h

/-! ## The order of the codes -/

/-- By `code`, which is by `name` too. -/
instance : Ord SpeedGroup := ⟨compareOn code⟩

instance : Std.TransOrd SpeedGroup := inferInstanceAs (Std.TransCmp (compareOn code))

instance : Std.LawfulEqOrd SpeedGroup where
  eq_of_compare {a b} h := by
    change compare a.code b.code = .eq at h
    have hcode := ofCode?_code a
    rw [Nat.compare_eq_eq.1 h, ofCode?_code] at hcode
    exact (Option.some.inj hcode).symm

end SpeedGroup

end RoadTraffic
