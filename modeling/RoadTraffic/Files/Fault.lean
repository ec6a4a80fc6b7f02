/-!
# Faults of files

Why a file cannot be read or written, in the wording of the operating system.
-/

namespace RoadTraffic

/-- Why a file cannot be read or written. -/
inductive FileFault where
  | notFound
  | isDirectory
  /-- A file stands where the path needs a folder. -/
  | notDirectory
  /-- A name or the whole path is too long. -/
  | nameTooLong
  /-- The path holds a NUL character. -/
  | nulCharacter
  /-- Any other fault, in its own words. -/
  | other (text : String)
  deriving DecidableEq, Repr

/-- The wording of a fault. -/
def FileFault.message : FileFault → String
  | .notFound => "No such file or directory (os error 2)"
  | .isDirectory => "Is a directory (os error 21)"
  | .notDirectory => "Not a directory (os error 20)"
  | .nameTooLong => "File name too long (os error 36)"
  | .nulCharacter => "file name contained an unexpected NUL byte"
  | .other text => text

end RoadTraffic
