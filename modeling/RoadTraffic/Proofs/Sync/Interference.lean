import Mathlib
import RoadTraffic.Proofs.Sync.Operations
import RoadTraffic.Proofs.ValueCodec

/-!
# Interference

While an operation waits for the answer to its request, other callers run operations of their own,
which may wait as well. The outcome is as if they had all been done before the operation began: it
concludes with what it finds in the session, and keeps nothing from the time before.

* `Session.Alike`: sessions that differ in their requests and log records at most.
* `Session.Uniform change`: `change` yields the same in sessions that are alike, and keeps them so.
* `Operation.uniform_conclude`/`Step.uniform_run`: a conclusion, and a whole step, are uniform.
* `Step.run_eq_undisturbed`: `run` with others `meanwhile` might as well have come after
  `runAll` of these.
-/

namespace RoadTraffic

namespace Occurrence

@[simp] theorem events_append (trace more : List Occurrence) :
    events (trace ++ more) = events trace ++ events more := by
  simp [events]

@[simp] theorem events_request (request : Request) : events [.request request] = [] := rfl

@[simp] theorem events_records (records : List LogRecord) : events (records.map .record) = [] := by
  simp [events]

end Occurrence

namespace Session

/-! ## Sessions that are alike -/

/-- A reader sees the same in both sessions, and the same events were reported in both. -/
structure Alike (session other : Session) : Prop where
  snapshot : session.snapshot = other.snapshot
  events : Occurrence.events session.trace = Occurrence.events other.trace

variable {session middle other : Session}

theorem Alike.symm (h : session.Alike other) : other.Alike session :=
  ⟨h.snapshot.symm, h.events.symm⟩

theorem Alike.trans (h : session.Alike middle) (h' : middle.Alike other) : session.Alike other :=
  ⟨h.snapshot.trans h'.snapshot, h.events.trans h'.events⟩

theorem alike_logged (session : Session) (records : List LogRecord) :
    (session.logged records).Alike session := ⟨rfl, by simp [logged]⟩

theorem alike_noted_request (session : Session) (request : Request) :
    (session.noted (.request request)).Alike session := ⟨rfl, by simp [noted]⟩

theorem Alike.logged (h : session.Alike other) (records : List LogRecord) :
    (session.logged records).Alike (other.logged records) :=
  (alike_logged session records).trans (h.trans (alike_logged other records).symm)

theorem Alike.settled (h : session.Alike other) (availability : Availability)
    (event : Option TrafficEvent) :
    (session.settled availability event).Alike (other.settled availability event) := by
  refine ⟨?_, ?_⟩
  · simp [Session.settled, h.snapshot]
  · simp [Session.settled, h.snapshot, h.events]

theorem Alike.withKeys (h : session.Alike other) (keys : List SegmentId) :
    (session.withKeys keys).Alike (other.withKeys keys) :=
  ⟨congrArg ({ · with keys }) h.snapshot, h.events⟩

theorem Alike.withGivenKeys (h : session.Alike other) (keys : List SegmentId) :
    (session.withGivenKeys keys).Alike (other.withGivenKeys keys) :=
  ⟨congrArg ({ · with keys, availability := .available }) h.snapshot, h.events⟩

theorem Alike.withColoring (h : session.Alike other) (coloring : Coloring) :
    (session.withColoring coloring).Alike (other.withColoring coloring) := by
  refine ⟨?_, h.events⟩
  simp [Session.withColoring, h.snapshot]

theorem Alike.withMismatch (h : session.Alike other) (fault : LengthMismatch) :
    (session.withMismatch fault).Alike (other.withMismatch fault) :=
  ((h.settled _ _).logged _).settled _ _

/-! ## Changes that do the same to sessions that are alike -/

/-- The `change` yields the same in sessions that are alike, and leaves them alike. -/
def Uniform {α : Type} (change : Session → α × Session) : Prop :=
  ∀ ⦃session other⦄, session.Alike other →
    (change session).1 = (change other).1 ∧ (change session).2.Alike (change other).2

section Rules

variable {α β : Type} {change : Session → α × Session}

theorem uniform_pure (result : α) : Uniform (result, ·) := fun _ _ h => ⟨rfl, h⟩

theorem Uniform.bind (next : α → Session → β × Session) (hchange : Uniform change)
    (hnext : ∀ result, Uniform (next result)) :
    Uniform fun session => next (change session).1 (change session).2 := by
  intro session other h
  obtain ⟨hresult, hafter⟩ := hchange h
  dsimp only
  rw [hresult]
  exact hnext _ hafter

theorem Uniform.map (f : α → β) (hchange : Uniform change) :
    Uniform fun session => (f (change session).1, (change session).2) :=
  hchange.bind (fun result session => (f result, session)) fun _ => uniform_pure _

end Rules

theorem uniform_colored (values : List SpeedGroup) : Uniform (·.colored values) := by
  intro session other h
  by_cases hlength : other.snapshot.keys.length = values.length
  · have hlength' : session.snapshot.keys.length = values.length := h.snapshot ▸ hlength
    dsimp only
    rw [colored_of_length hlength, colored_of_length hlength', h.snapshot]
    exact ⟨rfl, h.withColoring _⟩
  · have hlength' : session.snapshot.keys.length ≠ values.length := h.snapshot ▸ hlength
    dsimp only
    rw [colored_of_length_ne hlength, colored_of_length_ne hlength', h.snapshot]
    exact ⟨rfl, h.withMismatch _⟩

end Session

namespace Source

open Session

variable {source : Source}

theorem uniform_warned {conclude : Session → Except SyncError Unit × Session}
    (hconclude : Uniform conclude) : Uniform fun session => source.warned (conclude session) := by
  refine hconclude.bind (fun result session => source.warned (result, session)) ?_
  intro result session other h
  cases result with
  | ok done => exact ⟨rfl, h⟩
  | error e => exact ⟨rfl, h.logged _⟩

theorem uniform_concludeKeys (request : Request) (reply : Reply) :
    Uniform (source.concludeKeys request reply) := by
  intro session other h
  unfold concludeKeys
  obtain ⟨result, records⟩ := source.judgeKeys request reply
  cases result with
  | ok keys => exact ⟨rfl, (h.logged records).withKeys keys⟩
  | error e => exact ⟨rfl, h.logged records⟩

theorem uniform_concludeSection (bytes : Bytes) : Uniform (source.concludeSection bytes) := by
  intro session other h
  unfold concludeSection
  cases Keys.decode bytes with
  | ok keys => exact ⟨rfl, (h.logged _).withKeys keys⟩
  | error e => exact ⟨rfl, h.logged _⟩

theorem uniform_concludeValues (request : Request) (token : String) (reply : Reply) :
    Uniform (source.concludeValues request token reply) :=
  fun _ _ h => ⟨rfl, (h.logged _).settled _ _⟩

theorem uniform_settleRound (judgement : ValuesJudgement) :
    Uniform (source.settleRound judgement) := by
  intro session other h
  by_cases hnew : ∃ values, judgement.answer = .new values
  · obtain ⟨values, hanswer⟩ := hnew
    obtain ⟨hresult, hafter⟩ := uniform_colored values h
    rw [settleRound_of_new hanswer, settleRound_of_new hanswer]
    exact ⟨congrArg Except.isOk hresult, hafter⟩
  · obtain ⟨records, hsettle⟩ := settleRound_of_not_new (not_exists.mp hnew) source
    rw [hsettle, hsettle]
    exact ⟨rfl, (h.settled _ _).logged records⟩

theorem uniform_concludeSync (request : Request) (token : String) (reply : Reply) :
    Uniform (source.concludeSync request token reply) := by
  intro session other h
  exact (uniform_settleRound _).map (·, _) (h.logged _)

end Source

namespace Operation

open Session

variable {source : Source}

theorem alike_opened (source : Source) (operation : Operation) (session : Session) :
    (operation.opened source session).Alike session := by
  obtain ⟨records, hopened⟩ := operation.exists_opened_eq source session
  rw [hopened]
  exact alike_logged session records

theorem uniform_concludeFetch (received : Option (Request × Answer)) :
    Uniform (concludeFetch source received) := by
  cases received with
  | none => exact fun _ _ h => ⟨rfl, h⟩
  | some exchange => exact Source.uniform_concludeKeys _ _

/-- Whatever an operation concludes with, it concludes from what a reader sees: the snapshot is all
that `conclude` makes use of. -/
theorem uniform_conclude (source : Source) (token : String)
    (received : Option (Request × Answer)) (operation : Operation) :
    Uniform fun session => operation.conclude source token received session := by
  match operation with
  | .setKeys keys => exact fun _ _ h => ⟨rfl, h.withGivenKeys keys⟩
  | .loadKeys (.ok (some bytes)) =>
    exact (Source.uniform_warned (Source.uniform_concludeSection bytes)).map
      (OperationResult.ofExcept ·, token)
  | .loadKeys (.ok none) =>
    exact (Source.uniform_warned (uniform_concludeFetch received)).map
      (OperationResult.ofExcept ·, token)
  | .loadKeys (.error fault) =>
    exact (Source.uniform_warned (uniform_pure (.error (.localKeys fault)))).map
      (OperationResult.ofExcept ·, token)
  | .fetchKeys => exact (uniform_concludeFetch received).map (OperationResult.ofExcept ·, token)
  | .fetchValues =>
    cases received with
    | none => exact uniform_pure _
    | some exchange =>
      exact (Source.uniform_concludeValues _ _ _).map fun found =>
        (OperationResult.values found.1, found.2)
  | .sync =>
    cases received with
    | none => exact fun _ _ h => ⟨rfl, h.logged _⟩
    | some exchange =>
      exact (Source.uniform_concludeSync _ _ _).map fun round =>
        (OperationResult.synced round.1, round.2)
  | .updateValues values => exact (uniform_colored values).map (OperationResult.ofExcept ·, token)
  | .speedGroup id => exact fun _ _ h => ⟨by dsimp only [conclude]; rw [h.snapshot], h⟩
  | .setToken taken => exact uniform_pure _
  | .inspect => exact uniform_pure _

/-- The operation is one that makes a request if there is a server. -/
inductive AsksServer : Operation → Prop where
  | fetchKeys : AsksServer .fetchKeys
  /-- There is no local key list. -/
  | loadKeys : AsksServer (.loadKeys (.ok none))
  | fetchValues : AsksServer .fetchValues
  | sync : AsksServer .sync

theorem AsksServer.exists_request? {operation : Operation} (h : operation.AsksServer)
    (hremote : source.remote.isConfigured) (token : String) :
    ∃ request, operation.request? source token = some request := by
  cases h with
  | fetchKeys | loadKeys => exact Source.exists_keysRequest? hremote
  | fetchValues | sync => exact Source.exists_valuesRequest? hremote token

end Operation

namespace Step

open Session

variable {source : Source}

/-! ## Steps in sessions that are alike -/

theorem uniform_runAll_of_forall {steps : List Step}
    (h : ∀ step ∈ steps, ∀ token, Uniform (run source token step)) (token : String) :
    Uniform (runAll source token steps) := by
  induction steps generalizing token with
  | nil =>
    intro session other halike
    rw [runAll, runAll]
    exact ⟨rfl, halike⟩
  | cons step steps ih =>
    have hsteps := ih fun other hother => h other (List.mem_cons_of_mem _ hother)
    intro session other halike
    obtain ⟨hreport, hmiddle⟩ := h step List.mem_cons_self token halike
    cases hrun : run source token step session with
    | mk report middle =>
      cases hrun' : run source token step other with
      | mk report' middle' =>
        obtain ⟨result, token', reports⟩ := report
        rw [hrun, hrun'] at hreport hmiddle
        obtain rfl : _ = report' := hreport
        obtain ⟨hreports, hafter⟩ := hsteps token' hmiddle
        rw [runAll_cons hrun, runAll_cons hrun']
        exact ⟨congrArg (_ :: ·) hreports, hafter⟩

theorem uniform_wait {meanwhile : List Step}
    (h : ∀ step ∈ meanwhile, ∀ token, Uniform (run source token step)) (request : Request) :
    Uniform (wait source request meanwhile) := by
  intro session other halike
  exact uniform_runAll_of_forall h "" ((alike_noted_request session request).trans
    (halike.trans (alike_noted_request other request).symm))

/-- **A step does the same to sessions that are alike**, however deep the steps nest that others run
while it waits. -/
theorem uniform_run (token : String) (step : Step) : Uniform (run source token step) := by
  induction step using Step.induction generalizing token with
  | mk operation answer meanwhile ih =>
    intro session other h
    have hopened : (operation.opened source session).Alike (operation.opened source other) :=
      (operation.alike_opened source session).trans
        (h.trans (operation.alike_opened source other).symm)
    rw [run_eq, run_eq]
    cases operation.request? source token with
    | none =>
      exact (operation.uniform_conclude source token none).map
        (fun concluded => StepReport.mk concluded.1 concluded.2 []) hopened
    | some request =>
      have hconclude (reports : List StepReport) :=
        (operation.uniform_conclude source token (some (request, answer))).map
          fun concluded => StepReport.mk concluded.1 concluded.2 reports
      exact (uniform_wait ih request).bind _ hconclude hopened

theorem uniform_runAll (source : Source) (token : String) (steps : List Step) :
    Uniform (runAll source token steps) :=
  uniform_runAll_of_forall (fun step _ token => uniform_run token step) token

/-- **While an operation waits, others do what they might as well have done before.** `run` yields
the same and so do they, if all of them run first and it then runs undisturbed. A reader sees the
same in the end (`snapshot`), and the same events are reported in the same order. The others may be
any number of callers: each names its own revision token when it goes on, by
`Operation.setToken`. -/
theorem run_eq_undisturbed (hremote : source.remote.isConfigured) {operation : Operation}
    (h : operation.AsksServer) (token : String) (answer : Answer) (meanwhile : List Step)
    (session : Session) :
    ∃ reports middle result token' after after',
      runAll source "" meanwhile session = (reports, middle) ∧
      run source token (.mk operation answer []) middle = (.mk result token' [], after) ∧
      run source token (.mk operation answer meanwhile) session =
        (.mk result token' reports, after') ∧
      after'.snapshot = after.snapshot ∧
      Occurrence.events after'.trace = Occurrence.events after.trace := by
  obtain ⟨request, hrequest⟩ := h.exists_request? hremote token
  -- The others find a session that is alike with or without the pending request in it.
  have hasked (session : Session) :
      ((operation.opened source session).noted (.request request)).Alike session :=
    (alike_noted_request _ request).trans (operation.alike_opened source session)
  obtain ⟨hreports, halike⟩ := uniform_runAll source "" meanwhile (hasked session)
  cases hmeanwhile : runAll source "" meanwhile session with | mk reports middle =>
  cases hwait : wait source request meanwhile (operation.opened source session) with
  | mk reports' asked =>
  rw [← wait, hmeanwhile, hwait] at hreports halike
  obtain rfl : reports' = reports := hreports
  -- The answer finds a session that is alike whether the request came before the others or after.
  obtain ⟨hresult, hafter⟩ := operation.uniform_conclude source token (some (request, answer))
    (halike.trans (hasked middle).symm)
  cases hconclude : operation.conclude source token (some (request, answer)) asked with
  | mk yielded after' =>
  cases hconclude' : operation.conclude source token (some (request, answer))
    ((operation.opened source middle).noted (.request request)) with
  | mk yielded' after =>
  dsimp only at hresult hafter
  rw [hconclude, hconclude'] at hresult hafter
  obtain rfl : yielded = yielded' := hresult
  obtain ⟨result, token'⟩ := yielded
  have hundisturbed : wait source request [] (operation.opened source middle) =
      ([], (operation.opened source middle).noted (.request request)) := by
    rw [wait, runAll]
  exact ⟨reports', middle, result, token', after, after', rfl,
    run_of_request hrequest hundisturbed hconclude', run_of_request hrequest hwait hconclude,
    hafter.snapshot, hafter.events⟩

/-- Values come in for keys that were loaded while the values were on their way, and while another
caller waited for values of its own. -/
theorem run_eq_undisturbed_keys_loaded_meanwhile :
    let source : Source := ⟨⟨"Monaco", 0⟩, 0, ⟨some "https://localhost/"⟩⟩
    let response : Response := { status := .ok, body := Values.encode [.g0] }
    let meanwhile : List Step :=
      [.mk (.setToken "rev-0") (.fault "no response") [],
        .mk .sync (.response { status := .notModified })
          [.mk (.loadKeys (.ok (some [0, 1, 84, 1]))) (.fault "no response") []]]
    ∃ after,
      run source "" (.mk .sync (.response response) meanwhile) {} =
        (.mk (.synced true) "" [.mk .done "rev-0" [],
          .mk (.synced true) "rev-0" [.mk .done "" []]], after) ∧
      after.snapshot.keys = [⟨5, 0, .forward⟩] ∧
      after.snapshot.coloring = .ofList [(⟨5, 0, .forward⟩, .g0)] := by
  intro source response meanwhile
  have hremote : source.remote.isConfigured := rfl
  obtain ⟨first, hfirst⟩ := Source.exists_valuesRequest? hremote "rev-0"
  obtain ⟨second, hsecond⟩ := Source.exists_valuesRequest? hremote ""
  have hkeys : Keys.decode [0, 1, 84, 1] = .ok [⟨5, 0, .forward⟩] := rfl
  -- The others load the key while they wait, and are told that nothing is new.
  let loaded : Session := ((({} : Session).noted (.request first)).logged [Source.record .info
    "Reading traffic keys from section" [source.editionField]]).withKeys [⟨5, 0, .forward⟩]
  have hloaded : wait source first
      [.mk (.loadKeys (.ok (some [0, 1, 84, 1]))) (.fault "no response") []] {} =
        ([.mk .done "" []], loaded) := by
    rw [wait, runAll_cons (run_loadKeys_of_decode hkeys _), runAll]
  let trusted : Session := loaded.settled .available none
  have htrusted : run source "rev-0" (.mk .sync (.response { status := .notModified })
      [.mk (.loadKeys (.ok (some [0, 1, 84, 1]))) (.fault "no response") []]) {} =
        (.mk (.synced true) "rev-0" [.mk .done "" []], trusted) := by
    rw [run_sync hfirst, hloaded]
    dsimp only [Answer.reply]
    rw [Source.concludeSync_of_notModified rfl]
  have hothers : runAll source "" meanwhile {} =
      ([.mk .done "rev-0" [], .mk (.synced true) "rev-0" [.mk .done "" []]], trusted) := by
    rw [runAll_cons run_setToken, runAll_cons htrusted, runAll]
  -- Undisturbed, the values color the key that the others have loaded.
  have hstatus : response.status = .ok := rfl
  have hvalues : Values.decode response.body = .ok [.g0] := Values.decode_encode (by decide)
  let colored : Session := (trusted.noted (.request second)).withColoring
    (.ofList [(⟨5, 0, .forward⟩, .g0)])
  have hcolored : (trusted.noted (.request second)).colored [.g0] = (.ok (), colored) :=
    Session.colored_of_length rfl
  have hsynced : run source "" (.mk .sync (.response response) []) trusted =
      (.mk (.synced true) "" [], colored) := by
    rw [run_sync_of_decode hsecond hstatus hvalues, hcolored]
    rfl
  obtain ⟨reports, middle, result, token', after, after', hmeanwhile, hundisturbed, hdisturbed,
    hsnapshot, -⟩ := run_eq_undisturbed hremote .sync "" (.response response) meanwhile {}
  obtain ⟨rfl, rfl⟩ := Prod.mk.inj (hothers.symm.trans hmeanwhile)
  obtain ⟨hreport, rfl⟩ := Prod.mk.inj (hsynced.symm.trans hundisturbed)
  obtain ⟨rfl, rfl⟩ := hreport
  exact ⟨after', hdisturbed, congrArg Snapshot.keys hsnapshot,
    congrArg Snapshot.coloring hsnapshot⟩

end Step

end RoadTraffic
