import RoadTraffic.Json.Reader

/-!
# Configuration

A configuration file is a JSON record with a field `traffic`, which says where the server and the
local key lists are and how long to wait for a response. All of it may be missing.
-/

namespace RoadTraffic

/-- What is configured. -/
structure Config where
  /-- The base URL of the server. -/
  baseUrl : Option String := none
  /-- The folder of local key lists. -/
  keysFolder : Option String := none
  /-- How many seconds to wait for a response. -/
  timeout : Option Nat := none
  deriving DecidableEq, Repr

namespace Config

/-- How many seconds to wait where nothing is configured. -/
def usualTimeout : Nat := 30

/-- How many seconds to wait for a response, and `usualTimeout` where that is not configured. -/
def seconds (config : Config) : Nat := config.timeout.getD usualTimeout

/-- The configuration in the field `traffic`, each field of which may be `null` or missing. -/
def ofSection? (value : Json) : Option Config := do
  let [baseUrl, folder, timeout] ← value.fields? ["base_url", "keys_dir", "timeout_secs"] | none
  return {
    baseUrl := ← Json.field? (Json.nullable? Json.text?) (some none) baseUrl
    keysFolder := ← Json.field? (Json.nullable? Json.text?) (some none) folder
    timeout := ← Json.field? (Json.nullable? Json.word64?) (some none) timeout }

/-- The configuration in a JSON `value`. One without `traffic` is empty. -/
def ofJson? (value : Json) : Option Config := do
  let [traffic] ← value.fields? ["traffic"] | none
  Json.field? ofSection? (some {}) traffic

/-- The configuration in the `bytes` of a file. -/
def parse? (bytes : Bytes) : Option Config := (Json.parse? bytes).bind ofJson?

end Config

end RoadTraffic
