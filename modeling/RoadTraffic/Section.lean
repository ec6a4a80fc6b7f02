import RoadTraffic.Bits.Basic
import RoadTraffic.Files.Fault
import RoadTraffic.Remote

/-!
# Local key lists

Key lists may come with the map, so that they need not be fetched: a folder holds a file for each
region. A region without a file has no local key list.
-/

namespace RoadTraffic

/-- What reading a local key list yields: its bytes, or `none` if there is no such list. -/
abbrev SectionReading := Except FileFault (Option Bytes)

/-- The `path` below a `folder`. A path that starts at the root stands for itself. -/
def joinPath (folder path : String) : String :=
  if path.startsWith "/" then path
  else if folder.isEmpty || folder.endsWith "/" then folder ++ path
  else folder ++ "/" ++ path

/-- A folder of key lists. -/
structure KeysFolder where
  path : String
  deriving DecidableEq, Repr

namespace KeysFolder

/-- The file with the key list of an `edition`: its region as it is, with `valuesExtension` and
`keysSuffix` behind it. -/
def file (folder : KeysFolder) (edition : Edition) : String :=
  joinPath folder.path (edition.region ++ valuesExtension ++ keysSuffix)

/-- What was read of the file of an edition: that it is `.notFound` is no fault. -/
def reading : Except FileFault Bytes → SectionReading
  | .ok bytes => .ok (some bytes)
  | .error .notFound => .ok none
  | .error fault => .error fault

end KeysFolder

end RoadTraffic
