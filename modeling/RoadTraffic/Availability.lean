/-!
# Availability

Whether the traffic data of a map can be trusted, and why not.
-/

namespace RoadTraffic

/-- The verdict on the traffic data of a map. -/
inductive Availability where
  /-- Nothing was fetched yet, or the last attempt failed on the way. -/
  | unknown
  /-- The data at hand is valid. -/
  | available
  /-- There is no traffic data for the map. -/
  | noData
  /-- There is data for a newer edition of the map. -/
  | expiredData
  /-- There is data in a newer format than is understood. -/
  | expiredApp
  deriving DecidableEq, Repr

namespace Availability

instance : Inhabited Availability := ⟨unknown⟩

/-- The verdict if there is no data for an `edition`: `server` is the newest edition there is data
for, `edition` the one at hand, and `format` the newest one that is understood. -/
def ofMissing (server edition format : Int) : Availability :=
  if edition < server ∧ server ≤ format then expiredData
  else if format < server then expiredApp
  else noData

/-- Whether the data can be trusted, as only that which is `available` can. -/
def isAvailable : Availability → Bool
  | available => true
  | _ => false

/-- The name of a verdict, as the log and the reports spell it. -/
def name : Availability → String
  | unknown => "Unknown"
  | available => "IsAvailable"
  | noData => "NoData"
  | expiredData => "ExpiredData"
  | expiredApp => "ExpiredApp"

end Availability

end RoadTraffic
