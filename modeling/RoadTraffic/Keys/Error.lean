import RoadTraffic.Bits.Error
import RoadTraffic.Varint

/-!
# Faults of a key list

The ways in which a packed key list is refused, or a list of segments cannot be packed, and their
wording.
-/

namespace RoadTraffic

namespace Keys

/-- The format that is read and written. -/
def version : Nat := 0

end Keys

/-- Why a key list cannot be packed or unpacked. -/
inductive KeysError where
  /-- There is not even a version byte. -/
  | empty
  | unsupportedVersion (found : Nat)
  /-- The number of runs cannot be read. -/
  | runCount (cause : VarintError)
  /-- More runs are announced than the bits after the header can hold. -/
  | implausibleRunCount (runs bits : Nat)
  | bitStream (cause : BitError)
  /-- The road of a run does not fit in 32 bits. -/
  | featureIdOverflow
  /-- Two runs are of one road. -/
  | repeatedFeature (featureId : UInt32)
  /-- A run has no segment, or more than point numbers of 16 bits can tell apart. -/
  | invalidSegmentCount (featureId : UInt32) (count : Nat)
  | tooManyKeys (count limit : Nat)
  /-- The run that starts at `index` is not above the one before it. -/
  | unsorted (index : Nat)
  /-- The keys of a road do not come in whole segments. -/
  | inconsistentRun (featureId : UInt32) (length directions : Nat)
  /-- The keys of a road are not its segments in order, from its first point on. -/
  | nonCanonicalRun (featureId : UInt32)
  deriving DecidableEq, Repr

namespace KeysError

/-- The wording of a fault, with that of its cause behind it if it has one. -/
def message : KeysError → String
  | empty => "The traffic keys buffer is empty"
  | unsupportedVersion found =>
    s!"Unsupported traffic keys version {found}; expected {Keys.version}"
  | runCount cause => "Malformed run count: " ++ cause.message
  | implausibleRunCount runs bits =>
    s!"The header claims {runs} runs, but only {bits} bits of data follow"
  | bitStream cause => "Corrupt key bit stream: " ++ cause.message
  | featureIdOverflow => "Feature IDs overflow a u32"
  | repeatedFeature featureId => s!"Feature {featureId.toNat} appears in more than one run"
  | invalidSegmentCount featureId count =>
    s!"Feature {featureId.toNat} has an invalid segment count ({count})"
  | tooManyKeys count limit =>
    s!"The key list holds {count} keys, more than the limit of {limit}"
  | unsorted index => s!"Keys are not sorted (first out of order at index {index})"
  | inconsistentRun featureId length directions =>
    s!"Feature {featureId.toNat} has {length} keys, not a multiple of its {directions} " ++
      "direction(s)"
  | nonCanonicalRun featureId =>
    s!"Keys for feature {featureId.toNat} are not a contiguous canonical run"

/-- The wording of a fault, then that of the fault beneath it, if there is one. -/
def causes : KeysError → List String
  | e@(runCount cause) => [e.message, cause.message]
  | e@(bitStream cause) => [e.message, cause.message]
  | e => [e.message]

end KeysError

end RoadTraffic
