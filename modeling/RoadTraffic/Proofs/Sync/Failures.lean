import Mathlib
import RoadTraffic.Proofs.Sync.Interleaving
import RoadTraffic.Proofs.Sync.Revisions
import RoadTraffic.Proofs.Sync.Verdicts

/-!
# Failures

An operation that fails leaves the data at hand as it is. Keys change where keys were loaded, and
the coloring where values were accepted, as a whole. Without a server nothing changes at all.

* `Operation.Effect`: what a reader sees once an operation has concluded, case by case.
* `Operation.Intact`: what an operation does not touch, which `Operation.Effect.intact` reads off.
* `Step.run_intact`: the same for a step, and the requests that are not made.
-/

namespace RoadTraffic

namespace Operation

/-! ## Kinds of operations -/

/-- The operation loads keys, from a local key list or from a server. -/
inductive LoadsKeys : Operation → Prop where
  | loadKeys (reading : SectionReading) : LoadsKeys (.loadKeys reading)
  | fetchKeys : LoadsKeys .fetchKeys

/-- The operation asks for values (`.fetchValues`, `.sync`), or is given some. -/
inductive ConcernsValues : Operation → Prop where
  | fetchValues : ConcernsValues .fetchValues
  | sync : ConcernsValues .sync
  | updateValues (values : List SpeedGroup) : ConcernsValues (.updateValues values)

/-- The `result` of an operation tells that it accepted values: those that it was given, or those
that were sent. -/
def AcceptsValues (answer : Answer) (result : OperationResult) : Operation → Prop
  | .updateValues _ => result = .done
  | .sync => result = .synced true ∧ answer.status? = some .ok
  | _ => False

variable {source : Source} {token : String} {answer : Answer} {operation : Operation}
  {result : OperationResult} {before after : Snapshot}

theorem AcceptsValues.concernsValues (h : operation.AcceptsValues answer result) :
    operation.ConcernsValues := by
  match operation with
  | .sync => exact .sync
  | .updateValues values => exact .updateValues values

theorem not_acceptsValues_of_synced_false : ¬ sync.AcceptsValues answer (.synced false) := nofun

theorem LoadsKeys.not_concernsValues (h : operation.LoadsKeys) : ¬ operation.ConcernsValues := by
  cases h <;> nofun

/-! ## Effects -/

/-- What a reader sees once an operation has concluded: after keys were set or loaded, after values
were accepted, after a verdict, or what it saw `before`. -/
inductive Effect (source : Source) (token : String) (answer : Answer) (before : Snapshot) :
    Operation → OperationResult → Snapshot → Prop where
  | keysGiven (keys : List SegmentId) :
      Effect source token answer before (.setKeys keys) .done
        { before with keys, availability := .available }
  | keysLoaded {operation : Operation} {bytes : Bytes} {keys : List SegmentId}
      (h : operation.LoadsKeys) (hkeys : Keys.decode bytes = .ok keys) :
      Effect source token answer before operation .done { before with keys }
  | keysFailed {operation : Operation} (h : operation.LoadsKeys) (cause : SyncError) :
      Effect source token answer before operation (.failed cause) before
  | colored {operation : Operation} {result : OperationResult} {values : List SpeedGroup}
      (h : operation.AcceptsValues answer result)
      (hoffered : operation.offered (operation.received source token answer) = some values)
      (hlength : before.keys.length = values.length) :
      Effect source token answer before operation result
        { before with
          coloring := .ofList (before.keys.zip values)
          availability := .available
          published := before.published + 1 }
  | judged {operation : Operation} {result : OperationResult} (h : operation.ConcernsValues)
      (hresult : ¬ operation.AcceptsValues answer result) (availability : Availability) :
      Effect source token answer before operation result { before with availability }
  | seen {operation : Operation} {result : OperationResult} (hvalues : ¬ operation.ConcernsValues)
      (hkeys : ¬ operation.LoadsKeys) :
      Effect source token answer before operation result before

/-- What an operation with this `result` does not touch between `before` and `after`. -/
structure Intact (source : Source) (token : String) (answer : Answer) (operation : Operation)
    (result : OperationResult) (before after : Snapshot) : Prop where
  /-- Values do not change keys. -/
  keys : operation.ConcernsValues → after.keys = before.keys
  /-- Loading keys changes nothing else. -/
  of_loadsKeys : operation.LoadsKeys → after = { before with keys := after.keys }
  /-- Keys that fail to be loaded change nothing. -/
  of_failed : operation.LoadsKeys → ∀ cause, result = .failed cause → after = before
  /-- Values that are accepted color the keys anew, as a whole. -/
  recolored : operation.AcceptsValues answer result →
    ∃ values, operation.offered (operation.received source token answer) = some values ∧
      Coloring.ofParallel before.keys values = .ok after.coloring ∧
      after.published = before.published + 1
  /-- Nothing else colors them. -/
  coloring : ¬ operation.AcceptsValues answer result →
    after.coloring = before.coloring ∧ after.published = before.published

theorem Effect.intact (h : Effect source token answer before operation result after) :
    Intact source token answer operation result before after := by
  cases h with
  | keysGiven keys => exact ⟨nofun, nofun, nofun, nofun, fun _ => ⟨rfl, rfl⟩⟩
  | keysLoaded hloads hkeys =>
    have hvalues := hloads.not_concernsValues
    exact ⟨fun h => absurd h hvalues, fun _ => rfl, nofun, fun h => absurd h.concernsValues hvalues,
      fun _ => ⟨rfl, rfl⟩⟩
  | keysFailed hloads cause =>
    have hvalues := hloads.not_concernsValues
    exact ⟨fun h => absurd h hvalues, fun _ => rfl, fun _ _ _ => rfl,
      fun h => absurd h.concernsValues hvalues, fun _ => ⟨rfl, rfl⟩⟩
  | colored haccepts hoffered hlength =>
    have hkeys (h : operation.LoadsKeys) : False :=
      h.not_concernsValues haccepts.concernsValues
    exact ⟨fun _ => rfl, fun h => (hkeys h).elim, fun h => (hkeys h).elim,
      fun _ => ⟨_, hoffered, if_pos hlength, rfl⟩, fun h => absurd haccepts h⟩
  | judged hvalues hresult availability =>
    have hkeys (h : operation.LoadsKeys) : False := h.not_concernsValues hvalues
    exact ⟨fun _ => rfl, fun h => (hkeys h).elim, fun h => (hkeys h).elim,
      fun h => absurd h hresult, fun _ => ⟨rfl, rfl⟩⟩
  | seen hvalues hkeys =>
    exact ⟨fun _ => rfl, fun _ => rfl, fun _ _ _ => rfl,
      fun h => absurd h.concernsValues hvalues, fun _ => ⟨rfl, rfl⟩⟩

/-! ## What operations do -/

theorem effect_of_keysOutcome {loaded : Except SyncError Unit} (h : operation.LoadsKeys)
    (houtcome : Step.KeysOutcome before loaded after) :
    Effect source token answer before operation (.ofExcept loaded) after := by
  cases houtcome with
  | loaded hkeys => exact .keysLoaded h hkeys
  | failed cause => exact .keysFailed h cause

theorem keysOutcome_concludeFetch (source : Source) (received : Option (Request × Answer))
    (session : Session) :
    Step.KeysOutcome session.snapshot (concludeFetch source received session).1
      (concludeFetch source received session).2.snapshot := by
  cases received with
  | none => exact .failed _
  | some exchange => exact Step.keysOutcome_concludeKeys source exchange.1 _ session

theorem effect_updateValues (values : List SpeedGroup) (session : Session) :
    Effect source token answer session.snapshot (.updateValues values)
      (.ofExcept (session.colored values).1) (session.colored values).2.snapshot := by
  by_cases hlength : session.snapshot.keys.length = values.length
  · rw [Session.colored_of_length hlength]
    exact .colored rfl rfl hlength
  · rw [Session.colored_of_length_ne hlength]
    have hrefuses (cause : SyncError) :
        ¬ (updateValues values).AcceptsValues answer (.failed cause) := nofun
    exact .judged (.updateValues values) (hrefuses _) .noData

theorem effect_of_syncOutcome {request : Request} {current : Bool} {token' : String}
    (hrequest : source.valuesRequest? token = some request)
    (houtcome : Step.SyncOutcome answer token before current token' after) :
    Effect source token answer before .sync (.synced current) after := by
  have hreceived : Operation.sync.received source token answer = some (request, answer) :=
    congrArg (Option.map (·, answer)) hrequest
  cases houtcome with
  | accepted hanswer hstatus hvalues hlength =>
    subst hanswer
    refine .colored ⟨rfl, congrArg some hstatus⟩ ?_ hlength
    rw [hreceived]
    exact offered_sync hstatus hvalues
  | rejected => exact .judged .sync not_acceptsValues_of_synced_false .noData
  | unchanged hanswer hstatus =>
    subst hanswer
    refine .judged .sync (fun h => ?_) .available
    exact absurd (Option.some.inj h.2) (by rw [hstatus]; decide)
  | failed availability => exact .judged .sync not_acceptsValues_of_synced_false availability

theorem effect_conclude (source : Source) (token : String) (answer : Answer)
    (operation : Operation) (session : Session) :
    Effect source token answer session.snapshot operation
      (operation.conclude source token (operation.received source token answer) session).1.1
      (operation.conclude source token (operation.received source token answer)
        session).2.snapshot := by
  match operation with
  | .setKeys keys => exact .keysGiven keys
  | .loadKeys (.ok (some bytes)) =>
    exact effect_of_keysOutcome (.loadKeys _)
      ((Step.keysOutcome_concludeSection source bytes session).warned source)
  | .loadKeys (.ok none) =>
    exact effect_of_keysOutcome (.loadKeys _)
      ((keysOutcome_concludeFetch source _ session).warned source)
  | .loadKeys (.error fault) => exact .keysFailed (.loadKeys _) (.localKeys fault)
  | .fetchKeys =>
    exact effect_of_keysOutcome .fetchKeys (keysOutcome_concludeFetch source _ session)
  | .fetchValues =>
    cases Operation.fetchValues.received source token answer with
    | none => exact .judged .fetchValues id session.snapshot.availability
    | some exchange => exact .judged .fetchValues id _
  | .sync =>
    -- Whether a round can be accepted depends on whether it asked a server.
    unfold received
    cases hrequest : Operation.sync.request? source token with
    | none =>
      exact .judged .sync not_acceptsValues_of_synced_false session.snapshot.availability
    | some request =>
      exact effect_of_syncOutcome hrequest
        (Step.syncOutcome_concludeSync source request token answer session)
  | .updateValues values => exact effect_updateValues values session
  | .speedGroup id => exact .seen nofun nofun
  | .setToken taken => exact .seen nofun nofun
  | .inspect => exact .seen nofun nofun

/-- Without a server, an operation that would ask it leaves nothing but log records: token and
session are the same but for these (`Alike`). -/
theorem AsksServer.alike_conclude_none (h : operation.AsksServer) (session : Session) :
    (operation.conclude source token none session).1.2 = token ∧
      (operation.conclude source token none session).2.Alike session := by
  cases h with
  | fetchKeys => exact ⟨rfl, rfl, rfl⟩
  | loadKeys => exact ⟨rfl, Session.alike_logged session _⟩
  | fetchValues => exact ⟨rfl, rfl, rfl⟩
  | sync => exact ⟨rfl, Session.alike_logged session _⟩

end Operation

open Occurrence (requests)

namespace Step

variable {source : Source} {token token' : String} {operation : Operation} {answer : Answer}
  {meanwhile : List Step} {result : OperationResult} {reports : List StepReport}
  {session after : Session}

theorem requests_of_run
    (hrun : run source token (.mk operation answer meanwhile) session =
      (.mk result token' reports, after))
    (hrequest : operation.request? source token = none) :
    requests after.trace = requests session.trace := by
  calc requests after.trace
    _ = requests (run source token (.mk operation answer meanwhile) session).2.trace := by
      rw [hrun]
    _ = requests session.trace := by rw [requests_run, hrequest]

/-- **A failure leaves the data intact.** Whatever others did while a step waited, it changes the
keys it finds only if they were loaded or set, and the coloring only if values were accepted, as a
whole (`Intact`). It does not ask a server for keys if there are local ones or these cannot be read.
If there is no server to ask, it changes nothing and asks nobody. -/
theorem run_intact
    (hrun : run source token (.mk operation answer meanwhile) session =
      (.mk result token' reports, after)) :
    let before := (found source token session (.mk operation answer meanwhile)).snapshot
    operation.Intact source token answer result before after.snapshot ∧
    (meanwhile = [] → before = session.snapshot) ∧
    (∀ reading, operation = .loadKeys reading → reading ≠ .ok none →
      requests after.trace = requests session.trace) ∧
    (source.remote.isConfigured = false → operation.AsksServer →
      after.Alike session ∧ token' = token ∧ requests after.trace = requests session.trace) := by
  intro before
  have hconclude := conclude_of_run hrun
  refine ⟨?_, ?_, ?_, ?_⟩
  · have heffect := Operation.effect_conclude source token answer operation
      (found source token session (.mk operation answer meanwhile))
    rw [hconclude] at heffect
    exact heffect.intact
  · rintro rfl
    exact snapshot_found_undisturbed source token operation answer session
  · rintro reading rfl hreading
    refine requests_of_run hrun ?_
    match reading with
    | .ok (some bytes) => rfl
    | .error fault => rfl
  -- Without a server nobody is asked, so that the operation concludes with what it opened.
  · intro hremote hasks
    have hrequest : operation.request? source token = none := Operation.request?_eq_none hremote
    obtain ⟨htoken, halike⟩ := hasks.alike_conclude_none (operation.opened source session)
    rw [found_of_none hrequest, Operation.received, hrequest, Option.map_none] at hconclude
    rw [hconclude] at htoken halike
    exact ⟨halike.trans (operation.alike_opened source session), htoken,
      requests_of_run hrun hrequest⟩

/-- Two values are sent for one key that is colored already. -/
theorem run_intact_two_values :
    let source : Source := ⟨⟨"Monaco", 0⟩, 0, ⟨some "https://localhost/"⟩⟩
    let coloring : Coloring := .ofList [(⟨5, 0, .forward⟩, .g3)]
    let session : Session :=
      { snapshot := { keys := [⟨5, 0, .forward⟩], coloring, availability := .available } }
    let response : Response := { status := .ok, body := Values.encode [.g0, .g1] }
    ∃ after,
      run source "" (.mk .sync (.response response) []) session =
        (.mk (.synced false) "" [], after) ∧
      after.snapshot.keys = [⟨5, 0, .forward⟩] ∧ after.snapshot.coloring = coloring := by
  intro source coloring session response
  have hremote : source.remote.isConfigured := rfl
  obtain ⟨request, hrequest⟩ := Source.exists_valuesRequest? hremote ""
  have hstatus : response.status = .ok := rfl
  have hvalues : Values.decode response.body = .ok [.g0, .g1] := Values.decode_encode (by decide)
  let mismatched : Session := (session.noted (.request request)).withMismatch ⟨1, 2⟩
  have hcolored : (session.noted (.request request)).colored [.g0, .g1] =
      (.error (.coloring ⟨1, 2⟩), mismatched) := Session.colored_of_length_ne (show 1 ≠ 2 by decide)
  have hrun : run source "" (.mk .sync (.response response) []) session =
      (.mk (.synced false) "" [], mismatched) := by
    rw [run_sync_of_decode hrequest hstatus hvalues, hcolored]
    rfl
  obtain ⟨hintact, hfound, -⟩ := run_intact hrun
  rw [hfound rfl] at hintact
  exact ⟨mismatched, hrun, hintact.keys .sync,
    (hintact.coloring Operation.not_acceptsValues_of_synced_false).1⟩

end Step

end RoadTraffic
