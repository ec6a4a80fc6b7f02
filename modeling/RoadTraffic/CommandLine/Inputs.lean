import RoadTraffic.Extraction
import RoadTraffic.Json.Reader
import RoadTraffic.SpeedGroup

/-!
# Features and speed groups in JSON files

Features are records of a road number, a number of points, and whether they are roads and one-way.
Speed groups are given by their names.
-/

namespace RoadTraffic

/-- A feature in a JSON `value`. Unless it says otherwise it is a road and not one-way. -/
def Feature.ofJson? (value : Json) : Option Feature := do
  let [id, points, road, oneWay] ←
    value.fields? ["feature_id", "point_count", "road", "one_way"] | none
  return {
    id := ← Json.field? Json.word32? none id
    pointCount := ← Json.field? Json.word64? none points
    isRoad := ← Json.field? Json.bool? (some true) road
    oneWay := ← Json.field? Json.bool? (some false) oneWay }

/-- The features in the `bytes` of a JSON file. -/
def Feature.parseList? (bytes : Bytes) : Option (List Feature) :=
  (Json.parse? bytes).bind (Json.list? Feature.ofJson?)

/-- A speed group in a JSON value: its name, or a record with its name and nothing else to say. -/
def SpeedGroup.ofJson? : Json → Option SpeedGroup
  | .object [(some name, .null)] => ofName? name
  | value => value.text?.bind ofName?

/-- The speed groups in the `bytes` of a JSON file. -/
def SpeedGroup.parseList? (bytes : Bytes) : Option (List SpeedGroup) :=
  (Json.parse? bytes).bind (Json.list? SpeedGroup.ofJson?)

end RoadTraffic
