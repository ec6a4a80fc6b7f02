/-!
# Log records

What the library has to say about its work is data: a record has a level, the part of the program
it comes from, a text, and named values.
-/

namespace RoadTraffic

/-- How much a record matters. -/
inductive LogLevel where
  | debug
  | info
  | warn
  deriving DecidableEq, Repr

/-- The name of a level, as the log spells it. -/
def LogLevel.name : LogLevel → String
  | .debug => "DEBUG"
  | .info => "INFO"
  | .warn => "WARN"

/-- A log record. -/
structure LogRecord where
  level : LogLevel
  /-- The part of the program. -/
  target : String
  message : Option String
  /-- Names and values, in the order in which they were given. -/
  fields : List (String × String) := []
  deriving DecidableEq, Repr

end RoadTraffic
