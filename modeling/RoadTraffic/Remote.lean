import RoadTraffic.Text.Percent

/-!
# Editions and where their data is

A map is known by its region and the version of its edition. A server keeps the traffic of an
edition under its base URL: in a folder named for the version, except for version zero, which says
that the edition is not known.

* `Remote.valuesUrl?`: where the values of an edition are.
* `Remote.keysUrl?`: where its keys are, which is the same URL with `keysSuffix` behind it.
-/

namespace RoadTraffic

/-- An edition of the map of a region. -/
structure Edition where
  region : String
  version : Int
  deriving DecidableEq, Repr

/-- The text of an edition, such as `Monaco (v7)`. -/
def Edition.description (edition : Edition) : String :=
  s!"{edition.region} (v{edition.version})"

/-- What the name of a file of values ends in. -/
def valuesExtension : String := ".traffic"

/-- What the name of a file of keys ends in, behind `valuesExtension`. -/
def keysSuffix : String := ".keys"

/-- A traffic server, if there is one: its base URL, with a slash at the end. -/
structure Remote where
  base : Option String
  deriving DecidableEq, Repr

namespace Remote

/-- No server. -/
def none : Remote := ⟨.none⟩

/-- The server at the URL `base`. The empty text stands for no server. -/
def ofBase (base : String) : Remote :=
  if base.isEmpty then none
  else if base.endsWith "/" then ⟨some base⟩
  else ⟨some (base ++ "/")⟩

/-- Whether there is a server. -/
def isConfigured (remote : Remote) : Bool := remote.base.isSome

/-- The folder of a `version`, with a slash at the end. Version zero has none. -/
def folder (version : Int) : String := if version = 0 then "" else s!"{version}/"

/-- Where the values of an `edition` are: in its `folder`, in a file named for its escaped
region. -/
def valuesUrl? (remote : Remote) (edition : Edition) : Option String :=
  remote.base.map fun base =>
    base ++ folder edition.version ++ Percent.escape edition.region ++ valuesExtension

/-- Where the keys of an `edition` are: beside its values, with `keysSuffix` behind the name. -/
def keysUrl? (remote : Remote) (edition : Edition) : Option String :=
  (remote.valuesUrl? edition).map (· ++ keysSuffix)

end Remote

end RoadTraffic
