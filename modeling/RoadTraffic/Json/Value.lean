/-!
# JSON values

A JSON value as it was read. What it is good for is decided by who asks for it: a number may be
asked for as a whole number, and a string that spells no text is a value like any other until its
text is asked for.

* `Json.fields?`: the fields of a record, from an object or from an array in the order of the
  fields.
-/

namespace RoadTraffic

/-- A JSON value. -/
inductive Json where
  | null
  | bool (b : Bool)
  /-- A number, if it is written as a whole one. -/
  | number (whole : Option Int)
  /-- A string, if it spells a text. -/
  | string (text : Option String)
  | array (items : List Json)
  /-- Names, if they spell a text, and values, in the order in which they were written. -/
  | object (members : List (Option String × Json))
  deriving Repr

namespace Json

/-- A whole number below `bound`. -/
def natBelow? (bound : Nat) : Json → Option Nat
  | number (some (.ofNat n)) => if n < bound then some n else none
  | _ => none

/-- A whole number that fits in a `UInt32`. -/
def word32? (value : Json) : Option UInt32 := (value.natBelow? 0x100000000).map UInt32.ofNat

/-- A whole number below `2 ^ 64`. -/
def word64? : Json → Option Nat := natBelow? 0x10000000000000000

/-- A truth value. -/
def bool? : Json → Option Bool
  | bool b => some b
  | _ => none

/-- A text. -/
def text? : Json → Option String
  | string text => text
  | _ => none

/-- What `read` makes of a value that may be `null`. -/
def nullable? {α : Type} (read : Json → Option α) : Json → Option (Option α)
  | null => some none
  | value => (read value).map some

/-- What `read` makes of the items of an array, if it makes something of each. -/
def list? {α : Type} (read : Json → Option α) : Json → Option (List α)
  | array items => items.mapM read
  | _ => none

/-- What `read` makes of a field that may be missing, for which `default` stands then. -/
def field? {α : Type} (read : Json → Option α) (default : Option α) : Option Json → Option α
  | some value => read value
  | none => default

/-- The fields of the given names, where a field that is not given is `none`. An array gives the
first fields in order and no more than there are. An object gives each of them at most once, and
what else it has does not matter as long as its names are texts. -/
def fields? (names : List String) : Json → Option (List (Option Json))
  | array items =>
    if items.length ≤ names.length then
      some ((List.range names.length).map fun index => items[index]?)
    else none
  | object members =>
    if members.all (·.1.isSome) then
      let occurrences := fun name => members.filter (·.1 == some name)
      if names.all fun name => (occurrences name).length ≤ 1 then
        some (names.map fun name => (occurrences name).head?.map Prod.snd)
      else none
    else none
  | _ => none

end Json

end RoadTraffic
