import RoadTraffic.Coloring
import RoadTraffic.Files.Fault
import RoadTraffic.Http.Message
import RoadTraffic.Keys.Error
import RoadTraffic.Values.Error

/-!
# Faults of synchronization

Why keys or values of an edition could not be brought up to date.
-/

namespace RoadTraffic

/-- Why keys or values could not be brought up to date. -/
inductive SyncError where
  /-- There is no server to ask. -/
  | noServer
  /-- No response came in. -/
  | transport (cause : TransportError)
  | unexpectedStatus (status : Status)
  /-- The local key list cannot be read. -/
  | localKeys (cause : FileFault)
  | keys (cause : KeysError)
  | values (cause : ValuesError)
  | coloring (cause : LengthMismatch)
  deriving DecidableEq, Repr

namespace SyncError

/-- The wording of a fault, with that of its cause behind it if it has one. -/
def message : SyncError → String
  | noServer => "No traffic server is configured"
  | transport cause => "Transport error: " ++ cause.message
  | unexpectedStatus status => "Unexpected HTTP status " ++ status.description
  | localKeys cause => "Could not read the local keys section: " ++ cause.message
  | keys cause => "Invalid traffic keys: " ++ cause.message
  | values cause => "Invalid traffic values: " ++ cause.message
  | coloring cause => cause.message

/-- The wording of a fault, then those of the faults beneath it, down to the last. -/
def causes : SyncError → List String
  | e@(transport cause) => [e.message, cause.message]
  | e@(localKeys cause) => [e.message, cause.message]
  | e@(keys cause) => e.message :: cause.causes
  | e@(values cause) => e.message :: cause.causes
  | e => [e.message]

end SyncError

end RoadTraffic
