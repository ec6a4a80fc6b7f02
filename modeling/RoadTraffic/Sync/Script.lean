import RoadTraffic.Sync.Operations

/-!
# Scripts of a session

A step is an operation together with what happens to its request, if it makes one: other callers
run steps of their own on the same session, each with its own revision token, and then the response
comes in. Steps nest, so that any interleaving of callers that wait for responses can be written.

* `Step.run`: runs a step.
* `Step.runAll`: runs steps one after the other, with one revision token.
-/

namespace RoadTraffic

/-- What a caller may ask of a session. -/
inductive Operation where
  | setKeys (keys : List SegmentId)
  | loadKeys (reading : SectionReading)
  | fetchKeys
  | fetchValues
  | sync
  | updateValues (values : List SpeedGroup)
  | speedGroup (id : SegmentId)
  /-- The caller forgets its revision token and takes another. -/
  | setToken (token : String)
  /-- The source of the session is looked at. -/
  | inspect

/-- What an operation yields. -/
inductive OperationResult where
  | done
  | failed (cause : SyncError)
  | values (answer : ValuesAnswer)
  | synced (current : Bool)
  | group (group : SpeedGroup)
  | source (source : Source)

/-- What comes in for a request: a response, or the text of a fault. -/
inductive Answer where
  | response (response : Response)
  | fault (text : String)

/-- The reply to a `request`: a fault is told with its URL. -/
def Answer.reply (request : Request) : Answer → Reply
  | .response received => .ok received
  | .fault text => .error ⟨request.url, text⟩

/-- An operation, what comes in for its request, and what others do while it waits. -/
inductive Step where
  | mk (operation : Operation) (answer : Answer) (meanwhile : List Step)

/-- The result of a step and the caller's revision token after it, and the same of the steps that
others ran while it waited. -/
inductive StepReport where
  | mk (result : OperationResult) (token : String) (meanwhile : List StepReport)

namespace OperationResult

/-- The result of an operation that either is `done` or has `failed`. -/
def ofExcept : Except SyncError Unit → OperationResult
  | .ok () => done
  | .error cause => failed cause

end OperationResult

/-- Runs an operation of a caller that holds the revision token `token`. The second result is the
token it holds afterwards. -/
def Operation.run {m : Type → Type} [Monad m] (source : Source)
    (send : Request → SessionT m Reply) (token : String) :
    Operation → SessionT m (OperationResult × String)
  | setKeys keys => do
    Session.setKeys keys
    return (.done, token)
  | loadKeys reading => do return (.ofExcept (← source.loadKeys send reading), token)
  | fetchKeys => do return (.ofExcept (← source.fetchKeys send), token)
  | fetchValues => do
    let (answer, token) ← source.fetchValues send token
    return (.values answer, token)
  | sync => do
    let (current, token) ← source.sync send token
    return (.synced current, token)
  | updateValues values => do return (.ofExcept (← Session.updateValues values), token)
  | speedGroup id => do return (.group ((← get).snapshot.coloring.group id), token)
  | setToken token => return (.done, token)
  | inspect => return (.source source, token)

/-- A connection on which a request is answered by `answer`, after others have done what `others`
does to a session. What they report is collected. -/
def Answer.connection (answer : Answer) (others : Session → List StepReport × Session)
    (request : Request) : SessionT (StateM (List StepReport)) Reply := do
  Session.note (.request request)
  let (reports, session) := others (← get)
  set session
  set reports
  return answer.reply request

namespace Step

mutual

/-- Runs a step of a caller that holds the revision token `token`. The others start without one. -/
def run (source : Source) (token : String) : Step → Session → StepReport × Session
  | .mk operation answer meanwhile, session =>
    let send := answer.connection (runAll source "" meanwhile)
    let (((result, token), session), reports) := (operation.run source send token).run session []
    (.mk result token reports, session)

/-- Runs steps of one caller one after the other, each with the token that the one before it
leaves. -/
def runAll (source : Source) (token : String) : List Step → Session → List StepReport × Session
  | [], session => ([], session)
  | step :: steps, session =>
    let (report, session) := run source token step session
    let (reports, session) := match report with
      | .mk _ token _ => runAll source token steps session
    (report :: reports, session)

end

end Step

end RoadTraffic
