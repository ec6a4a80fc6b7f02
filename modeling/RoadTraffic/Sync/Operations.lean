import RoadTraffic.Section
import RoadTraffic.Sync.Session
import RoadTraffic.Sync.Source

/-!
# Bringing a session up to date

Keys are read or fetched once; values are fetched again and again, each time naming the revision at
hand. An operation that needs the server hands its request to `send` and goes on with the reply. It
keeps nothing of the session over that time, so that whatever else happens to the session meanwhile
counts.

* `Source.loadKeys`, `Source.fetchKeys`: install keys; a failure changes nothing a reader sees.
* `Source.fetchValues`: asks for values and publishes the verdict only.
* `Source.sync`: asks for values and publishes them together with the verdict.
-/

namespace RoadTraffic

namespace Session

variable {m : Type → Type} [Monad m]

/-- Installs `keys` as they are and trusts the data. -/
def setKeys (keys : List SegmentId) : SessionT m Unit :=
  publish fun snapshot => { snapshot with keys, availability := .available }

/-- Colors the current keys with the `values` at their places. If there are more or fewer values
than keys, the coloring stays and is no longer trusted. -/
def updateValues (values : List SpeedGroup) : SessionT m (Except SyncError Unit) := do
  let keys := (← get).snapshot.keys
  match Coloring.ofParallel keys values with
  | .ok coloring =>
    publish fun snapshot =>
      { snapshot with coloring, availability := .available, published := snapshot.published + 1 }
    return .ok ()
  | .error e =>
    setAvailability .noData
    log [Source.record .warn
      "The number of received traffic values does not match the number of keys"
      [("keys", toString keys.length), ("values", toString values.length)]]
    report (.updateError keys.length values.length)
    return .error (.coloring e)

/-- Publishes a verdict, then reports the `event` that goes with it, if there is one. -/
def settle (availability : Availability) (event : Option TrafficEvent) : SessionT m Unit := do
  setAvailability availability
  match event with
  | some event => report event
  | none => pure ()

end Session

namespace Source

variable {m : Type → Type} [Monad m]

/-- Fetches the keys and installs them, if there is a server and its reply holds keys. -/
def fetchKeys (source : Source) (send : Request → SessionT m Reply) :
    SessionT m (Except SyncError Unit) := do
  match source.keysRequest? with
  | none => return .error .noServer
  | some request =>
    let (result, records) := source.judgeKeys request (← send request)
    Session.log records
    match result with
    | .ok keys =>
      Session.replaceKeys keys
      return .ok ()
    | .error e => return .error e

/-- Installs the local keys, or fetches the keys if there are no local ones. Local keys that cannot
be read are not replaced by fetched ones. -/
def initializeKeys (source : Source) (send : Request → SessionT m Reply) :
    SectionReading → SessionT m (Except SyncError Unit)
  | .ok (some bytes) => do
    Session.log [record .info "Reading traffic keys from section" [source.editionField]]
    match Keys.decode bytes with
    | .ok keys =>
      Session.replaceKeys keys
      return .ok ()
    | .error e => return .error (.keys e)
  | .ok none => do
    Session.log [record .info "Reading traffic keys from the web" [source.editionField]]
    source.fetchKeys send
  | .error fault => return .error (.localKeys fault)

/-- The keys are initialized by `initializeKeys`, with a warning if it fails. -/
def loadKeys (source : Source) (send : Request → SessionT m Reply) (reading : SectionReading) :
    SessionT m (Except SyncError Unit) := do
  let result ← source.initializeKeys send reading
  match result with
  | .ok () => pure ()
  | .error e =>
    Session.log [record .warn "Could not initialize traffic keys"
      [source.editionField, ("error", e.message)]]
  return result

/-- Asks for values that differ from those of revision `token`, without publishing anything. There
is nothing to judge if there is no server. -/
def requestValues (source : Source) (send : Request → SessionT m Reply) (token : String) :
    SessionT m (Option ValuesJudgement) := do
  match source.valuesRequest? token with
  | none => return none
  | some request =>
    let judgement := source.judgeValues request token (← send request)
    Session.log judgement.records
    return some judgement

/-- Asks for values and publishes the verdict. The second result is the revision token to go on
with. -/
def fetchValues (source : Source) (send : Request → SessionT m Reply) (token : String) :
    SessionT m (ValuesAnswer × String) := do
  match ← source.requestValues send token with
  | none => return (.failed .noServer, token)
  | some judgement =>
    Session.settle judgement.availability judgement.event
    return (judgement.answer, judgement.token)

/-- Notes that a round of synchronization failed, with the `cause`. -/
def logFailedRound (source : Source) (cause : SyncError) : SessionT m Unit :=
  Session.log [record .debug "Traffic sync failed" [source.editionField, ("error", cause.message)]]

/-- One round of synchronization: asks for values, and publishes the coloring and the verdict
together. Tells whether the coloring is current afterwards, and the revision token to go on with,
which is that of `judgement` also if the values are not taken. -/
def sync (source : Source) (send : Request → SessionT m Reply) (token : String) :
    SessionT m (Bool × String) := do
  match ← source.requestValues send token with
  | none =>
    source.logFailedRound .noServer
    return (false, token)
  | some judgement =>
    match judgement.answer with
    | .new values =>
      match ← Session.updateValues values with
      | .ok () => return (true, judgement.token)
      | .error _ => return (false, judgement.token)
    | .notChanged =>
      Session.settle judgement.availability judgement.event
      return (true, judgement.token)
    | .notFound =>
      Session.settle judgement.availability judgement.event
      return (false, judgement.token)
    | .failed cause =>
      Session.settle judgement.availability judgement.event
      source.logFailedRound cause
      return (false, judgement.token)

end Source

end RoadTraffic
