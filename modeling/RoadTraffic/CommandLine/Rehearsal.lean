import RoadTraffic.CommandLine.Run
import RoadTraffic.Files.Tree

/-!
# Rehearsals

A rehearsal runs commands on a tree of files and against a server whose answers are known
beforehand. No other server can be reached.

* `Rehearsal.machine`: the machine that commands run on.
-/

namespace RoadTraffic

/-- Files, and a server that gives its answers one after the other. -/
structure Rehearsal where
  files : FileTree
  /-- The scheme and name of the server. -/
  origin : String
  /-- What will come in from the server on each connection. Once it has run out, nothing does. -/
  answers : List Bytes := []
  /-- What the server was asked for. -/
  asked : List Outgoing := []

namespace Rehearsal

/-- Reads the file at `path`, which changes nothing. -/
def readFile (path : String) : StateM Rehearsal (Except FileFault Bytes) := do
  return (← get).files.read path

/-- Writes the file at `path`. If that fails the files stay as they are. -/
def writeFile (path : String) (bytes : Bytes) : StateM Rehearsal (Except FileFault Unit) := do
  let rehearsal ← get
  match rehearsal.files.write path bytes with
  | .error fault => return .error fault
  | .ok files =>
    set { rehearsal with files }
    return .ok ()

/-- Lets a request go out. Only the server at `origin` hears of it, and gives its next answer. -/
def exchange (outgoing : Outgoing) : StateM Rehearsal Bytes := do
  let rehearsal ← get
  if outgoing.url.scheme ++ "://" ++ outgoing.server == rehearsal.origin then
    set { rehearsal with
      answers := rehearsal.answers.drop 1
      asked := rehearsal.asked ++ [outgoing] }
    return rehearsal.answers.headD []
  else return []

/-- The machine of a rehearsal. -/
def machine : Machine (StateM Rehearsal) where
  readFile := readFile
  writeFile := writeFile
  exchange _ := exchange

end Rehearsal

end RoadTraffic
