import RoadTraffic.Bits.Error
import RoadTraffic.Varint
import RoadTraffic.Zlib.Inflate

/-!
# Faults of packed values

The ways in which packed speed groups are refused, and their wording.
-/

namespace RoadTraffic

namespace Values

/-- The format that is read and written. -/
def version : Nat := 0

end Values

/-- Why speed groups cannot be unpacked. -/
inductive ValuesError where
  /-- The bytes are no zlib stream that takes them up and stays within bounds. -/
  | stream (cause : ZlibError)
  /-- There is not even a version byte. -/
  | empty
  | unsupportedVersion (found : Nat)
  /-- The number of values cannot be read. -/
  | valueCount (cause : VarintError)
  /-- More values are announced than the bits after the header can hold. -/
  | implausibleValueCount (count bits : Nat)
  | tooManyValues (count limit : Nat)
  | bitStream (cause : BitError)
  /-- A code that no speed group has. -/
  | invalidSpeedGroup (code : Nat)
  deriving DecidableEq, Repr

namespace ValuesError

/-- What is said of a stream that breaks a rule. -/
def corruptStreamMessage : String := "deflate decompression error"

/-- The wording of a fault, with that of its cause behind it if it has one. -/
def message : ValuesError → String
  | stream .corrupt => "Decompression failed: " ++ corruptStreamMessage
  | stream .truncated => "The compressed stream ends prematurely"
  | stream (.trailingBytes count) => s!"{count} byte(s) follow the end of the compressed stream"
  | stream (.tooLarge limit) => s!"The values inflate to more than {limit} bytes"
  | empty => "The decompressed traffic values buffer is empty"
  | unsupportedVersion found =>
    s!"Unsupported traffic values version {found}; expected {Values.version}"
  | valueCount cause => "Malformed value count: " ++ cause.message
  | implausibleValueCount count bits =>
    s!"The header claims {count} values, but only {bits} bits of data follow"
  | tooManyValues count limit =>
    s!"The buffer holds {count} values, more than the limit of {limit}"
  | bitStream cause => "Corrupt value bit stream: " ++ cause.message
  | invalidSpeedGroup code => s!"Invalid speed group code {code}"

/-- The wording of a fault, then that of the fault beneath it, which `.corrupt` has and the other
faults of a stream have not. -/
def causes : ValuesError → List String
  | e@(stream .corrupt) => [e.message, corruptStreamMessage]
  | e@(valueCount cause) => [e.message, cause.message]
  | e@(bitStream cause) => [e.message, cause.message]
  | e => [e.message]

end ValuesError

end RoadTraffic
