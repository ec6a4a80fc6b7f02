import Mathlib
import RoadTraffic.Proofs.Sync.Steps

/-!
# The two halves of an operation

An operation does something to the session before it makes its request, and concludes when the
answer has come in. An operation that makes no request concludes at once.

* `Operation.request?`/`opened`/`conclude`: the parts of an operation.
* `Step.run_eq`: a step is `opened`, what others do meanwhile (`wait`), and `conclude`.
* `Step.found`/`Step.conclude_of_run`: the session in which a step concludes.
* `Step.induction`: a property of steps follows from that of the steps that others run meanwhile.
-/

namespace RoadTraffic

namespace Session

/-- The session with `keys` that are trusted as they are. -/
def withGivenKeys (session : Session) (keys : List SegmentId) : Session :=
  { session with snapshot := { session.snapshot with keys, availability := .available } }

end Session

namespace Operation

/-! ## Requests and conclusions -/

/-- The request that an operation of a caller with `token` makes, if it makes one. -/
def request? (source : Source) (token : String) : Operation → Option Request
  | .loadKeys (.ok none) | .fetchKeys => source.keysRequest?
  | .fetchValues | .sync => source.valuesRequest? token
  | _ => none

/-- What an operation has received when it concludes, if its request is answered by `answer`; `none`
if it makes no request. -/
def received (source : Source) (token : String) (answer : Answer) (operation : Operation) :
    Option (Request × Answer) :=
  (operation.request? source token).map (·, answer)

/-- The session once an operation has begun: `.loadKeys` tells that it goes on the web. -/
def opened (source : Source) (session : Session) : Operation → Session
  | .loadKeys (.ok none) => source.webAnnounced session
  | _ => session

/-- All that may have happened by then is that something was logged. -/
theorem exists_opened_eq (source : Source) (operation : Operation) (session : Session) :
    ∃ records, operation.opened source session = session.logged records := by
  match operation with
  | .loadKeys (.ok none) => exact ⟨_, rfl⟩
  | .loadKeys (.ok (some _)) | .loadKeys (.error _) | .setKeys _ | .fetchKeys | .fetchValues | .sync
  | .updateValues _ | .speedGroup _ | .setToken _ | .inspect =>
    exact ⟨[], session.logged_nil.symm⟩

@[simp] theorem snapshot_opened (source : Source) (operation : Operation) (session : Session) :
    (operation.opened source session).snapshot = session.snapshot := by
  obtain ⟨records, h⟩ := operation.exists_opened_eq source session
  rw [h]
  rfl

/-- What fetching keys makes of what it `received`, if it made a request. -/
def concludeFetch (source : Source) (received : Option (Request × Answer)) (session : Session) :
    Except SyncError Unit × Session :=
  match received with
  | none => (.error .noServer, session)
  | some (request, answer) => source.concludeKeys request (answer.reply request) session

/-- What an operation makes of the session it finds when it has received an answer to its request,
or if it made none: what it yields, the revision token after it, and the session. -/
def conclude (source : Source) (token : String) (received : Option (Request × Answer))
    (session : Session) : Operation → (OperationResult × String) × Session
  | .setKeys keys => ((.done, token), session.withGivenKeys keys)
  | .loadKeys (.ok (some bytes)) =>
    let (result, session) := source.warned (source.concludeSection bytes session)
    ((.ofExcept result, token), session)
  | .loadKeys (.ok none) =>
    let (result, session) := source.warned (concludeFetch source received session)
    ((.ofExcept result, token), session)
  | .loadKeys (.error fault) =>
    let (result, session) := source.warned (.error (.localKeys fault), session)
    ((.ofExcept result, token), session)
  | .fetchKeys =>
    let (result, session) := concludeFetch source received session
    ((.ofExcept result, token), session)
  | .fetchValues =>
    match received with
    | none => ((.values (.failed .noServer), token), session)
    | some (request, answer) =>
      let ((found, token), session) :=
        source.concludeValues request token (answer.reply request) session
      ((.values found, token), session)
  | .sync =>
    match received with
    | none => ((.synced false, token), session.logged [source.failedRound .noServer])
    | some (request, answer) =>
      let ((current, token), session) :=
        source.concludeSync request token (answer.reply request) session
      ((.synced current, token), session)
  | .updateValues values =>
    let (result, session) := session.colored values
    ((.ofExcept result, token), session)
  | .speedGroup id => ((.group (session.snapshot.coloring.group id), token), session)
  | .setToken token => ((.done, token), session)
  | .inspect => ((.source source, token), session)

end Operation

namespace Step

variable {source : Source} {token : String} {operation : Operation} {answer : Answer}
  {meanwhile : List Step} {session : Session} {request : Request}

theorem run_fetchValues (h : source.valuesRequest? token = some request) :
    run source token (.mk .fetchValues answer meanwhile) session =
      let (reports, session) := wait source request meanwhile session
      let ((found, token), session) :=
        source.concludeValues request token (answer.reply request) session
      (.mk (.values found) token reports, session) := by
  unfold run
  simp only [Operation.run, Source.fetchValues_eq, h]
  rfl

theorem run_fetchValues_noServer (h : source.valuesRequest? token = none) :
    run source token (.mk .fetchValues answer meanwhile) session =
      (.mk (.values (.failed .noServer)) token [], session) := by
  unfold run
  simp only [Operation.run, Source.fetchValues_eq, h]
  rfl

theorem run_updateValues {values : List SpeedGroup} :
    run source token (.mk (.updateValues values) answer meanwhile) session =
      let (result, session) := session.colored values
      (.mk (.ofExcept result) token [], session) := by
  unfold run
  simp only [Operation.run, Session.updateValues_eq]
  rfl

theorem run_setToken {taken : String} :
    run source token (.mk (.setToken taken) answer meanwhile) session =
      (.mk .done taken [], session) := by
  unfold run
  rfl

/-- **The two halves of a step.** What others do (`wait`) falls between them, and no other part of
the step depends on it. -/
theorem run_eq (source : Source) (token : String) (operation : Operation) (answer : Answer)
    (meanwhile : List Step) (session : Session) :
    run source token (.mk operation answer meanwhile) session =
      match operation.request? source token with
      | none =>
        let ((result, token), session) :=
          operation.conclude source token none (operation.opened source session)
        (.mk result token [], session)
      | some request =>
        let (reports, session) := wait source request meanwhile (operation.opened source session)
        let ((result, token), session) :=
          operation.conclude source token (some (request, answer)) session
        (.mk result token reports, session) := by
  match operation with
  | .setKeys keys => unfold run; rfl
  | .loadKeys (.ok (some bytes)) => exact run_loadKeys_section
  | .loadKeys (.error fault) => exact run_loadKeys_fault
  | .loadKeys (.ok none) =>
    cases hrequest : Operation.request? source token (.loadKeys (.ok none)) with
    | none => exact run_loadKeys_noServer hrequest
    | some request => exact run_loadKeys_web hrequest
  | .fetchKeys =>
    cases hrequest : Operation.request? source token .fetchKeys with
    | none => exact run_fetchKeys_noServer hrequest
    | some request => exact run_fetchKeys hrequest
  | .fetchValues =>
    cases hrequest : Operation.request? source token .fetchValues with
    | none => exact run_fetchValues_noServer hrequest
    | some request => exact run_fetchValues hrequest
  | .sync =>
    cases hrequest : Operation.request? source token .sync with
    | none => exact run_sync_noServer hrequest
    | some request => exact run_sync hrequest
  | .updateValues values => exact run_updateValues
  | .speedGroup id => unfold run; rfl
  | .setToken taken => exact run_setToken
  | .inspect => unfold run; rfl

theorem run_of_none (hrequest : operation.request? source token = none)
    {result : OperationResult} {token' : String} {after : Session}
    (hconclude : operation.conclude source token none (operation.opened source session) =
      ((result, token'), after)) :
    run source token (.mk operation answer meanwhile) session =
      (.mk result token' [], after) := by
  rw [run_eq, hrequest]
  dsimp only
  rw [hconclude]

theorem run_of_request
    (hrequest : operation.request? source token = some request) {reports : List StepReport}
    {middle : Session}
    (hwait : wait source request meanwhile (operation.opened source session) = (reports, middle))
    {result : OperationResult} {token' : String} {after : Session}
    (hconclude : operation.conclude source token (some (request, answer)) middle =
      ((result, token'), after)) :
    run source token (.mk operation answer meanwhile) session =
      (.mk result token' reports, after) := by
  rw [run_eq, hrequest]
  dsimp only
  rw [hwait]
  dsimp only
  rw [hconclude]

/-- The session that a step finds when it concludes: if it had to wait for an answer, others have
run by then. -/
def found (source : Source) (token : String) (session : Session) : Step → Session
  | .mk operation _ meanwhile =>
    match operation.request? source token with
    | none => operation.opened source session
    | some request => (wait source request meanwhile (operation.opened source session)).2

theorem found_of_none (h : operation.request? source token = none) :
    found source token session (.mk operation answer meanwhile) =
      operation.opened source session := by
  rw [found, h]

theorem found_of_request (h : operation.request? source token = some request) :
    found source token session (.mk operation answer meanwhile) =
      (wait source request meanwhile (operation.opened source session)).2 := by
  rw [found, h]

/-- A step that nobody disturbs finds what a reader saw when it began. -/
@[simp] theorem snapshot_found_undisturbed (source : Source) (token : String)
    (operation : Operation) (answer : Answer) (session : Session) :
    (found source token session (.mk operation answer [])).snapshot = session.snapshot := by
  cases hrequest : operation.request? source token with
  | none =>
    rw [found_of_none hrequest]
    exact operation.snapshot_opened source session
  | some request =>
    rw [found_of_request hrequest, wait, runAll]
    exact operation.snapshot_opened source session

/-- What a step does itself, it does when it concludes: in the session that it has `found`, with
what it has `received`. -/
theorem conclude_of_run {result : OperationResult} {token' : String} {reports : List StepReport}
    {after : Session}
    (hrun : run source token (.mk operation answer meanwhile) session =
      (.mk result token' reports, after)) :
    operation.conclude source token (operation.received source token answer)
      (found source token session (.mk operation answer meanwhile)) =
        ((result, token'), after) := by
  rw [run_eq] at hrun
  unfold Operation.received
  cases hrequest : operation.request? source token with
  | none =>
    rw [found_of_none hrequest, Option.map_none]
    rw [hrequest] at hrun
    dsimp only at hrun
    generalize operation.conclude source token none _ = concluded at hrun ⊢
    obtain ⟨⟨_, _⟩, _⟩ := concluded
    cases hrun
    rfl
  | some request =>
    rw [found_of_request hrequest, Option.map_some]
    rw [hrequest] at hrun
    dsimp only at hrun
    generalize operation.conclude source token (some (request, answer)) _ = concluded at hrun ⊢
    obtain ⟨⟨_, _⟩, _⟩ := concluded
    cases hrun
    rfl

/-- A property holds of every step if it holds of one whenever it holds of the steps that others run
`meanwhile`. -/
@[elab_as_elim]
theorem induction {motive : Step → Prop}
    (mk : ∀ operation answer meanwhile, (∀ step ∈ meanwhile, motive step) →
      motive (.mk operation answer meanwhile)) : ∀ step, motive step
  | .mk operation answer meanwhile =>
    mk operation answer meanwhile fun step _ => induction mk step

end Step

end RoadTraffic
