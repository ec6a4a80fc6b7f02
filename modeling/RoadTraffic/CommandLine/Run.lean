import RoadTraffic.CommandLine.Arguments
import RoadTraffic.CommandLine.Config
import RoadTraffic.CommandLine.Inputs
import RoadTraffic.CommandLine.Summary
import RoadTraffic.Http.Client
import RoadTraffic.Sync.Operations

/-!
# Running commands

A command reads and writes files and asks servers through a machine that is given to it. It ends
with a report or with a failure; what it has logged is told in either case.

* `CommandLine.run`: what the arguments ask for.
-/

namespace RoadTraffic

/-- What commands need of the machine they run on. -/
structure Machine (m : Type → Type) where
  readFile : String → m (Except FileFault Bytes)
  writeFile : String → Bytes → m (Except FileFault Unit)
  /-- Lets a request go out to its server and yields all bytes that come in until the connection
  ends, waiting for the given number of seconds at most. -/
  exchange : (seconds : Nat) → Outgoing → m Bytes

/-- Why a command failed. -/
structure Failure where
  message : String
  /-- What led to it, the nearest cause first. -/
  causes : List String := []
  deriving DecidableEq, Repr

namespace Failure

/-- A text whose lines after the first are set back by `margin`. -/
def setBack (margin text : String) : String := ("\n" ++ margin).intercalate (text.splitOn "\n")

/-- A text to the right of a width of five. -/
def alignRight (text : String) : String :=
  String.ofList (List.replicate (5 - text.length) ' ') ++ text

/-- The causes as lines, numbered from zero if there are several. -/
def causesText : List String → String
  | [] => ""
  | [cause] => setBack "    " ("    " ++ cause)
  | causes =>
    "\n".intercalate (causes.mapIdx fun index cause =>
      setBack "       " (alignRight (toString index) ++ ": " ++ cause))

/-- What is printed of a `failure`. -/
def text (failure : Failure) : String :=
  "Error: " ++ failure.message ++
    if failure.causes.isEmpty then "" else "\n\nCaused by:\n" ++ causesText failure.causes

end Failure

/-- How the program ends. -/
inductive Outcome where
  | reported (report : Report)
  | failed (failure : Failure)
  | refused (refusal : Refusal)

/-- The number that the program ends with: 1 for a command that failed, 2 for arguments that make no
sense. -/
def Outcome.exitCode : Outcome → Nat
  | reported _ => 0
  | failed _ => 1
  | refused .misuse => 2
  | refused _ => 0

namespace CommandLine

variable {m : Type → Type} [Monad m]

/-- How a command ends. -/
abbrev Result := Except Failure Report

/-! ## Files -/

/-- Reads the file at `path`, of what `kind` names in the message of a failure. -/
def readFile (machine : Machine m) (kind path : String) : ExceptT Failure m Bytes := do
  match ← machine.readFile path with
  | .ok bytes => return bytes
  | .error fault => throw ⟨s!"Failed to read {kind} at {path}", [fault.message]⟩

/-- Writes the file at `path`, or fails. -/
def writeFile (machine : Machine m) (path : String) (bytes : Bytes) : ExceptT Failure m Unit := do
  match ← machine.writeFile path bytes with
  | .ok () => return ()
  | .error fault => throw ⟨s!"Failed to write {path}", [fault.message]⟩

/-- Reads the configuration, if there is one. Without it nothing is configured. -/
def readConfig (machine : Machine m) : Option String → ExceptT Failure m Config
  | none => return {}
  | some path => do
    match Config.parse? (← readFile machine "config" path) with
    | some config => return config
    | none => throw ⟨"Invalid JSON in traffic config", []⟩

/-! ## Packed files -/

/-- Summarizes the packed key list at `path`. -/
def inspectKeys (machine : Machine m) (path : String) : ExceptT Failure m Report := do
  let bytes ← readFile machine "keys" path
  match Keys.decode bytes with
  | .error e => throw ⟨"Invalid traffic keys", e.causes⟩
  | .ok keys =>
    return .record [("bytes", .number bytes.length), ("keys", (KeysSummary.of keys).report)]

/-- Summarizes the packed values at `path`. -/
def inspectValues (machine : Machine m) (path : String) : ExceptT Failure m Report := do
  let bytes ← readFile machine "values" path
  match Values.decode bytes with
  | .error e => throw ⟨"Invalid traffic values", e.causes⟩
  | .ok groups =>
    return .record [("bytes", .number bytes.length), ("values", .number groups.length),
      ("speed_groups", SpeedGroup.histogramReport groups)]

/-- The key list of `features`, and the same packed. -/
def packFeatures (features : List Feature) : Except Failure (List SegmentId × Bytes) :=
  match Extraction.keys features with
  | .error e => .error ⟨e.message, []⟩
  | .ok keys =>
    match Keys.encode keys with
    | .error e => .error ⟨e.message, e.causes.drop 1⟩
    | .ok bytes => .ok (keys, bytes)

/-- Packs the key list of the features in the JSON file `features`. Nothing is written if they are
refused. -/
def encodeKeys (machine : Machine m) (features output : String) : ExceptT Failure m Report := do
  match Feature.parseList? (← readFile machine "features" features) with
  | none => throw ⟨"Invalid features JSON", []⟩
  | some features =>
    let (keys, bytes) ← ExceptT.mk (pure (packFeatures features))
    writeFile machine output bytes
    return .record [("bytes", .number bytes.length), ("keys", (KeysSummary.of keys).report)]

/-- Packs the speed groups in the JSON file `values`. Nothing is written if they are refused. -/
def encodeValues (machine : Machine m) (values output : String) : ExceptT Failure m Report := do
  match SpeedGroup.parseList? (← readFile machine "values" values) with
  | none => throw ⟨"Invalid speed group JSON", []⟩
  | some groups =>
    let bytes := Values.encode groups
    writeFile machine output bytes
    return .record [("bytes", .number bytes.length), ("values", .number groups.length)]

/-! ## Synchronization -/

/-- The part of the program that log records about the command line name. -/
def logTarget : String := "mwm_traffic"

/-- The server that is asked: `baseUrl` as given with the command, else the configured one. An empty
base URL says that there is none. -/
def remote (config : Config) (baseUrl : Option String) : Remote :=
  .ofBase ((baseUrl <|> config.baseUrl).getD "")

/-- What is logged before anything is asked: that there is no server, and that there is a folder of
key lists. -/
def settingRecords (config : Config) (remote : Remote) : List LogRecord :=
  (if remote.isConfigured then []
    else
      [{ level := .info
         target := logTarget
         message := some "No traffic server configured; only local keys can be used" }]) ++
  match config.keysFolder with
  | some folder =>
    [{ level := .info
       target := logTarget
       message := some "Using local traffic keys directory"
       fields := [("dir", folder)] }]
  | none => []

/-- Reads the local key list of an `edition`. Without a folder of key lists there is none. -/
def readSection (machine : Machine m) (config : Config) (edition : Edition) : m SectionReading :=
  match config.keysFolder with
  | none => pure (.ok none)
  | some folder => do
    return KeysFolder.reading (← machine.readFile (KeysFolder.file ⟨folder⟩ edition))

/-- What is reported of a session in which keys were loaded, whether or not `synced`. -/
def syncReport (edition : Edition) (synced : Bool) (token : String) (snapshot : Snapshot) :
    Report :=
  .record [("mwm", .text edition.description), ("synced", .bool synced),
    ("availability", .text snapshot.availability.name), ("etag", .text token),
    ("keys", .number snapshot.keys.length), ("coloring", snapshot.coloring.report)]

/-- Loads the keys of the edition and asks for values once. Without keys nothing is asked. -/
def synchronize (machine : Machine m) (config : Config) (source : Source) (token : String) :
    SessionT m Result := do
  let send : Request → SessionT m Reply := fun request =>
    StateT.lift (Client.send (machine.exchange config.seconds) request)
  Session.log (settingRecords config source.remote)
  let reading ← StateT.lift (readSection machine config source.edition)
  match ← source.loadKeys send reading with
  | .error e => return .error ⟨"Failed to load traffic keys", e.causes⟩
  | .ok () =>
    let (synced, token) ← source.sync send token
    return .ok (syncReport source.edition synced token (← get).snapshot)

/-! ## Commands -/

/-- The result of a `command` that logs nothing. -/
def silently (command : ExceptT Failure m Report) : m (Result × List LogRecord) := do
  return (← command.run, [])

/-- Runs a command under a `config`. A region without a name is refused before anything is read. -/
def runCommand (machine : Machine m) (config : Config) (baseUrl : Option String) :
    Command → m (Result × List LogRecord)
  | .inspectKeys path => silently (inspectKeys machine path)
  | .inspectValues path => silently (inspectValues machine path)
  | .encodeKeys features output => silently (encodeKeys machine features output)
  | .encodeValues values output => silently (encodeValues machine values output)
  | .sync edition dataVersion token =>
    if edition.region.isEmpty then
      pure (.error ⟨"The region name must not be empty", []⟩, [])
    else do
      let source : Source := { edition, dataVersion, remote := remote config baseUrl }
      let (result, session) ← (synchronize machine config source token).run {}
      return (result, Occurrence.records true session.trace)

/-- Runs a command under the configuration that `invocation` names. -/
def runInvocation (machine : Machine m) (invocation : Invocation) :
    m (Result × List LogRecord) := do
  match ← (readConfig machine invocation.config).run with
  | .error failure => return (.error failure, [])
  | .ok config => runCommand machine config invocation.baseUrl invocation.command

/-- Runs what the `arguments` ask for in the given `environment`. -/
def run (machine : Machine m) (environment : List (String × String)) (arguments : List String) :
    m (Outcome × List LogRecord) := do
  match Invocation.parse environment arguments with
  | .error refusal => return (.refused refusal, [])
  | .ok invocation =>
    match ← runInvocation machine invocation with
    | (.ok report, records) => return (.reported report, records)
    | (.error failure, records) => return (.failed failure, records)

end CommandLine

end RoadTraffic
