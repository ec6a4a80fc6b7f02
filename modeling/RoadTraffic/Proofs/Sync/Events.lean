import Mathlib
import RoadTraffic.Proofs.Sync.Failures
import RoadTraffic.Proofs.Sync.History

/-!
# Which events are reported

An operation reports at most one event, and which one is told by what it received and by the keys
at hand. When it does so everything else is done: who hears of the event sees what a reader sees
from then on, which is what was there before but for the verdict.

* `Session.Announces before after event`: a change reports `event`, if there is one, at its end.
* `Operation.Reports`: what an operation reports when it concludes, and what a reader sees then.
* `Operation.exists_reports_conclude`: every operation reports accordingly.
* `Operation.Reports.event_unique`: there is no choice in what is reported.
* `Interleaving.Conclusion.Tells`: what is known of the event of an operation that has concluded.
* `Interleaving.events_of_history`: the events of a history are those of its operations.
-/

namespace RoadTraffic

open Occurrence (events)

/-- What is seen once an event is reported: values that cannot be used are `.noData`, and a server
that does not tell says nothing about data. -/
def TrafficEvent.verdict : TrafficEvent → Availability
  | readError .. | updateError .. => .noData
  | networkError _ => .unknown

/-! ## Changes that report no event -/

namespace Session

/-- The change from `before` to `after` reports `event`, if there is one, when everything else is
done: who hears of it sees `after.snapshot`. -/
def Announces (before after : Session) (event : Option TrafficEvent) : Prop :=
  events after.trace = events before.trace ++ (event.map (·, after.snapshot)).toList

variable {before after : Session} {event : Option TrafficEvent}

theorem announces_none_iff :
    before.Announces after none ↔ events after.trace = events before.trace := by
  simp [Announces]

@[simp] theorem events_logged (session : Session) (records : List LogRecord) :
    events (session.logged records).trace = events session.trace := by
  simp [logged]

@[simp] theorem events_noted_request (session : Session) (request : Request) :
    events (session.noted (.request request)).trace = events session.trace := by
  simp [noted]

@[simp] theorem events_withKeys (session : Session) (keys : List SegmentId) :
    events (session.withKeys keys).trace = events session.trace := rfl

end Session

namespace Source

variable {source : Source}

@[simp] theorem events_warned (concluded : Except SyncError Unit × Session) :
    events (source.warned concluded).2.trace = events concluded.2.trace := by
  obtain ⟨result, session⟩ := concluded
  cases result with
  | ok done => rfl
  | error e => simp [warned]

@[simp] theorem events_concludeSection (bytes : Bytes) (session : Session) :
    events (source.concludeSection bytes session).2.trace = events session.trace := by
  unfold concludeSection
  cases Keys.decode bytes <;> simp

@[simp] theorem events_concludeKeys (request : Request) (reply : Reply) (session : Session) :
    events (source.concludeKeys request reply session).2.trace = events session.trace := by
  unfold concludeKeys
  obtain ⟨result, records⟩ := source.judgeKeys request reply
  cases result <;> simp

/-- Values are new if they were sent and unpack: `answer` is a response of status `.ok` with them in
its body. -/
theorem Judges.exists_decode {request : Request} {token : String} {answer : Answer}
    {judgement : ValuesJudgement} {values : List SpeedGroup}
    (h : source.Judges request token (answer.reply request) judgement)
    (hnew : judgement.answer = .new values) : ∃ response, answer = .response response ∧
      response.status = .ok ∧ Values.decode response.body = .ok values := by
  cases answer with
  | fault text =>
    cases h with
    | unanswered => cases hnew
  | response response =>
    cases h with
    | unpacked hstatus hvalues =>
      cases hnew
      exact ⟨response, rfl, hstatus, hvalues⟩
    | damaged | missing | unchanged | refused => cases hnew

end Source

namespace Operation

@[simp] theorem events_opened (source : Source) (operation : Operation) (session : Session) :
    events (operation.opened source session).trace = events session.trace := by
  obtain ⟨records, hopened⟩ := operation.exists_opened_eq source session
  rw [hopened, Session.events_logged]

@[simp] theorem events_concludeFetch (source : Source) (received : Option (Request × Answer))
    (session : Session) :
    events (concludeFetch source received session).2.trace = events session.trace := by
  cases received with
  | none => rfl
  | some exchange => exact Source.events_concludeKeys _ _ _

/-! ## What is reported -/

/-- Values were sent that do not unpack (`Values.decode` fails). -/
def ReceivesDamaged (received : Option (Request × Answer)) (operation : Operation) : Prop :=
  operation.AsksValues ∧ ∃ request response fault, received = some (request, .response response) ∧
    response.status = .ok ∧ Values.decode response.body = .error fault

/-- Values were asked for, and the `status` of the response says nothing about them. There is no
status if no response came in. -/
def IsRefused (received : Option (Request × Answer)) (status : Option Status)
    (operation : Operation) : Prop :=
  operation.AsksValues ∧ (∃ request answer, received = some (request, answer) ∧
    answer.status? = status) ∧
    status ≠ some .ok ∧ status ≠ some .notModified ∧ status ≠ some .notFound

/-- What an operation reports of what it `received` and of the keys at hand (`before.keys`), and
what a reader sees then. -/
inductive Reports (source : Source) (received : Option (Request × Answer)) (before : Snapshot)
    (operation : Operation) : Option TrafficEvent → Snapshot → Prop where
  | damaged (h : operation.ReceivesDamaged received) :
      Reports source received before operation
        (some (.readError source.edition.region source.edition.version))
        { before with availability := .noData }
  | mismatched {values : List SpeedGroup} (hoffered : operation.offered received = some values)
      (hlength : before.keys.length ≠ values.length) :
      Reports source received before operation
        (some (.updateError before.keys.length values.length))
        { before with availability := .noData }
  | refused {status : Option Status} (h : operation.IsRefused received status) :
      Reports source received before operation (some (.networkError status))
        { before with availability := .unknown }
  | silent {after : Snapshot} (hdamaged : ¬ operation.ReceivesDamaged received)
      (hlength : ∀ values, operation.offered received = some values →
        before.keys.length = values.length)
      (hrefused : ∀ status, ¬ operation.IsRefused received status) :
      Reports source received before operation none after

variable {source : Source} {token : String} {operation : Operation} {answer : Answer}
  {request : Request} {received : Option (Request × Answer)} {before after : Snapshot}

theorem reports_none_of_not_asksValues (h : ¬ operation.AsksValues)
    (hoffered : operation.offered received = none) :
    operation.Reports source received before none after :=
  .silent (fun hdamaged => h hdamaged.1) (by simp [hoffered]) fun _ hrefused => h hrefused.1

theorem reports_none_of_received_none (h : operation.AsksValues) :
    operation.Reports source none before none after := by
  refine .silent ?_ ?_ ?_
  · rintro ⟨-, _, _, _, hreceived, -⟩
    cases hreceived
  · cases h <;> nofun
  · rintro status ⟨-, ⟨_, _, hreceived, -⟩, -⟩
    cases hreceived

/-- A response of a `status` other than `.ok` is not damaged, and brings no values; one that is
known is not refused either. -/
theorem reports_none_of_status {response : Response} (h : operation.AsksValues)
    (hok : response.status ≠ .ok)
    (hknown : response.status = .notModified ∨ response.status = .notFound) :
    operation.Reports source (some (request, .response response)) before none after := by
  refine .silent ?_ ?_ ?_
  · rintro ⟨-, _, _, _, hreceived, hstatus, -⟩
    cases hreceived
    exact hok hstatus
  · intro values hoffered
    cases h with
    | fetchValues => cases hoffered
    | sync =>
      rw [offered_sync_of_status hok] at hoffered
      cases hoffered
  · rintro status ⟨-, ⟨_, _, hreceived, hstatus⟩, -, hunchanged, hmissing⟩
    cases hreceived
    subst hstatus
    exact hknown.elim (fun h => hunchanged (congrArg some h)) fun h => hmissing (congrArg some h)

/-- The `values` that unpack are reported only if they are more or fewer than the keys. -/
theorem reports_none_of_decode {response : Response} {values : List SpeedGroup}
    (hstatus : response.status = .ok) (hvalues : Values.decode response.body = .ok values)
    (hlength : ∀ offered, operation.offered (some (request, .response response)) = some offered →
      before.keys.length = offered.length) :
    operation.Reports source (some (request, .response response)) before none after := by
  refine .silent ?_ hlength ?_
  · rintro ⟨-, _, _, _, hreceived, -, hfault⟩
    cases hreceived
    rw [hvalues] at hfault
    cases hfault
  · rintro status ⟨-, ⟨_, _, hreceived, rfl⟩, hok, -⟩
    cases hreceived
    exact hok (congrArg some hstatus)

/-- Where no values are taken, the event of a `judgement` is what is to be reported. -/
theorem reports_of_judges {judgement : ValuesJudgement} (h : operation.AsksValues)
    (hjudges : source.Judges request token (answer.reply request) judgement)
    (htaken : ∀ values, judgement.answer = .new values → operation = .fetchValues) :
    operation.Reports source (some (request, answer)) before judgement.event
      { before with availability := judgement.availability } := by
  cases answer with
  | fault text =>
    cases hjudges with
    | unanswered => exact .refused ⟨h, ⟨request, _, rfl, rfl⟩, nofun, nofun, nofun⟩
  | response response =>
    cases hjudges with
    | unpacked hstatus hvalues =>
      obtain rfl := htaken _ rfl
      exact reports_none_of_decode hstatus hvalues nofun
    | damaged hstatus hvalues => exact .damaged ⟨h, request, response, _, rfl, hstatus, hvalues⟩
    | missing hstatus =>
      exact reports_none_of_status h (by rw [hstatus]; decide) (.inr hstatus)
    | unchanged hstatus =>
      exact reports_none_of_status h (by rw [hstatus]; decide) (.inl hstatus)
    | refused hok hmissing hunchanged =>
      -- A status of the response is a status of the answer.
      have hother {status : Status} (h : response.status ≠ status) :
          some response.status ≠ some status := fun heq => h (Option.some.inj heq)
      exact .refused ⟨h, ⟨request, _, rfl, rfl⟩, hother hok, hother hunchanged, hother hmissing⟩

/-- Values that are taken are reported if they are more or fewer than the keys. -/
theorem exists_reports_colored {values : List SpeedGroup} (source : Source) (session : Session)
    (hoffered : operation.offered received = some values)
    (hfits : ∀ after, session.snapshot.keys.length = values.length →
      operation.Reports source received session.snapshot none after) :
    ∃ event, session.Announces (session.colored values).2 event ∧
      operation.Reports source received session.snapshot event
        (session.colored values).2.snapshot := by
  by_cases hlength : session.snapshot.keys.length = values.length
  · rw [Session.colored_of_length hlength]
    exact ⟨none, (session.settles_withColoring _).events, hfits _ hlength⟩
  · rw [Session.colored_of_length_ne hlength]
    exact ⟨_, (session.settles_withMismatch _).events, .mismatched hoffered hlength⟩

theorem exists_reports_fetchValues (source : Source) (token : String) (request : Request)
    (answer : Answer) (session : Session) :
    ∃ event, session.Announces
        (source.concludeValues request token (answer.reply request) session).2 event ∧
      fetchValues.Reports source (some (request, answer)) session.snapshot event
        (source.concludeValues request token (answer.reply request) session).2.snapshot :=
  ⟨_, (Session.settles_settled _ _ _).of_logged.events,
    reports_of_judges .fetchValues (source.judges_judgeValues request token _) fun _ _ => rfl⟩

theorem exists_reports_sync (source : Source) (token : String) (request : Request)
    (answer : Answer) (session : Session) :
    ∃ event, session.Announces
        (source.concludeSync request token (answer.reply request) session).2 event ∧
      sync.Reports source (some (request, answer)) session.snapshot event
        (source.concludeSync request token (answer.reply request) session).2.snapshot := by
  have hjudges := source.judges_judgeValues request token (answer.reply request)
  unfold Source.concludeSync
  generalize source.judgeValues request token (answer.reply request) = judgement at hjudges ⊢
  dsimp only
  by_cases hnew : ∃ values, judgement.answer = .new values
  -- Values that are new are taken: what is reported of them is up to their number.
  · obtain ⟨values, hnew⟩ := hnew
    obtain ⟨response, rfl, hstatus, hvalues⟩ := hjudges.exists_decode hnew
    have hoffered : sync.offered (some (request, .response response)) = some values :=
      offered_sync hstatus hvalues
    rw [Source.settleRound_of_new hnew]
    obtain ⟨event, hannounces, hreports⟩ := exists_reports_colored source
      (session.logged judgement.records) hoffered fun after hlength =>
        reports_none_of_decode hstatus hvalues fun offered h => by
          rw [hoffered, Option.some.injEq] at h
          rw [hlength, h]
    exact ⟨event, by simpa [Session.Announces] using hannounces, hreports⟩
  -- Otherwise the event is that of the judgement.
  · obtain ⟨records, hsettle⟩ := Source.settleRound_of_not_new (not_exists.mp hnew) source
    rw [hsettle]
    refine ⟨_, ((Session.settles_settled _ _ _).logged records).of_logged.events, ?_⟩
    exact reports_of_judges .sync hjudges fun values h => absurd ⟨values, h⟩ hnew

/-- An operation that neither asks for values nor is given any reports nothing. -/
theorem exists_reports_of_events {session : Session} (h : ¬ operation.AsksValues)
    (hoffered : operation.offered received = none)
    (hevents : events (operation.conclude source token received session).2.trace =
      events session.trace) :
    ∃ event,
      session.Announces (operation.conclude source token received session).2 event ∧
      operation.Reports source received session.snapshot event
        (operation.conclude source token received session).2.snapshot :=
  ⟨none, Session.announces_none_iff.mpr hevents, reports_none_of_not_asksValues h hoffered⟩

/-- **What an operation reports.** It does so when everything else is done (`Announces`), and there
is nothing else that it reports (`Reports`). -/
theorem exists_reports_conclude (source : Source) (token : String)
    (received : Option (Request × Answer)) (operation : Operation) (session : Session) :
    ∃ event,
      session.Announces (operation.conclude source token received session).2 event ∧
      operation.Reports source received session.snapshot event
        (operation.conclude source token received session).2.snapshot := by
  by_cases hasks : operation.AsksValues
  · cases hasks with
    | fetchValues =>
      cases received with
      | none =>
        exact ⟨none, Session.announces_none_iff.mpr rfl, reports_none_of_received_none .fetchValues⟩
      | some exchange => exact exists_reports_fetchValues source token exchange.1 exchange.2 session
    | sync =>
      cases received with
      | none =>
        exact ⟨none, Session.announces_none_iff.mpr (by simp [conclude]),
          reports_none_of_received_none .sync⟩
      | some exchange => exact exists_reports_sync source token exchange.1 exchange.2 session
  -- Of the operations that do not ask for values, only one is given some.
  · cases operation with
    | fetchValues => exact absurd .fetchValues hasks
    | sync => exact absurd .sync hasks
    | updateValues values =>
      refine exists_reports_colored source session rfl fun after hlength =>
        .silent (fun h => hasks h.1) ?_ fun status h => hasks h.1
      rintro offered hoffered
      cases hoffered
      exact hlength
    | loadKeys reading =>
      refine exists_reports_of_events hasks rfl ?_
      rcases reading with fault | _ | bytes <;> simp [conclude]
    | fetchKeys => exact exists_reports_of_events hasks rfl (by simp [conclude])
    | setKeys keys | speedGroup id | setToken taken | inspect =>
      exact exists_reports_of_events hasks rfl rfl

/-! ## One kind of event at a time -/

theorem ReceivesDamaged.offered_eq_none (h : operation.ReceivesDamaged received) :
    operation.offered received = none := by
  obtain ⟨hasks, request, response, fault, rfl, hstatus, hvalues⟩ := h
  cases hasks with
  | fetchValues => rfl
  | sync =>
    simp only [offered]
    rw [if_pos hstatus, hvalues]
    rfl

theorem ReceivesDamaged.not_isRefused (h : operation.ReceivesDamaged received)
    (status : Option Status) : ¬ operation.IsRefused received status := by
  obtain ⟨-, _, response, _, rfl, hstatus, -⟩ := h
  rintro ⟨-, ⟨_, _, hreceived, rfl⟩, hok, -⟩
  cases hreceived
  exact hok (congrArg some hstatus)

theorem IsRefused.offered_eq_none {status : Option Status}
    (h : operation.IsRefused received status) : operation.offered received = none := by
  obtain ⟨hasks, ⟨request, answer, rfl, rfl⟩, hok, -⟩ := h
  cases hasks with
  | fetchValues => rfl
  | sync =>
    cases answer with
    | fault text => rfl
    | response response => exact offered_sync_of_status fun hstatus => hok (congrArg some hstatus)

theorem IsRefused.status_unique {status status' : Option Status}
    (h : operation.IsRefused received status) (h' : operation.IsRefused received status') :
    status = status' := by
  obtain ⟨-, ⟨_, _, rfl, rfl⟩, -⟩ := h
  obtain ⟨-, ⟨_, _, hreceived, rfl⟩, -⟩ := h'
  cases hreceived
  rfl

variable {event : Option TrafficEvent}

theorem Reports.readError_iff (h : operation.Reports source received before event after)
    (region : String) (version : Int) : event = some (.readError region version) ↔
      region = source.edition.region ∧ version = source.edition.version ∧
        operation.ReceivesDamaged received := by
  cases h with
  | damaged hdamaged => simp [hdamaged, eq_comm]
  | mismatched hoffered hlength =>
    refine iff_of_false nofun ?_
    rintro ⟨-, -, hdamaged⟩
    rw [hdamaged.offered_eq_none] at hoffered
    cases hoffered
  | refused hrefused => exact iff_of_false nofun fun h => h.2.2.not_isRefused _ hrefused
  | silent hdamaged => exact iff_of_false nofun fun h => hdamaged h.2.2

theorem Reports.updateError_iff (h : operation.Reports source received before event after)
    (keys values : Nat) : event = some (.updateError keys values) ↔
      ∃ offered, operation.offered received = some offered ∧ keys = before.keys.length ∧
        values = offered.length ∧ keys ≠ values := by
  cases h with
  | damaged hdamaged => simp [hdamaged.offered_eq_none]
  | mismatched hoffered hlength =>
    simp only [hoffered, Option.some.injEq, TrafficEvent.updateError.injEq, exists_eq_left']
    constructor
    · rintro ⟨rfl, rfl⟩
      exact ⟨rfl, rfl, hlength⟩
    · rintro ⟨rfl, rfl, -⟩
      exact ⟨rfl, rfl⟩
  | refused hrefused => simp [hrefused.offered_eq_none]
  | silent _ hlength =>
    refine iff_of_false nofun ?_
    rintro ⟨offered, hoffered, rfl, rfl, hne⟩
    exact hne (hlength offered hoffered)

theorem Reports.networkError_iff (h : operation.Reports source received before event after)
    (status : Option Status) :
    event = some (.networkError status) ↔ operation.IsRefused received status := by
  cases h with
  | damaged hdamaged => exact iff_of_false nofun (hdamaged.not_isRefused status)
  | mismatched hoffered hlength =>
    refine iff_of_false nofun fun hrefused => ?_
    rw [hrefused.offered_eq_none] at hoffered
    cases hoffered
  | @refused status' hrefused =>
    rw [Option.some.injEq, TrafficEvent.networkError.injEq]
    exact ⟨fun h => h ▸ hrefused, fun h => hrefused.status_unique h⟩
  | silent _ _ hrefused => exact iff_of_false nofun (hrefused status)

theorem Reports.eq_of_event {reported : TrafficEvent}
    (h : operation.Reports source received before (some reported) after) :
    after = { before with availability := reported.verdict } := by
  cases h <;> rfl

/-- There is no choice in what is reported: what an operation `received` fixes its event. -/
theorem Reports.event_unique {event' : Option TrafficEvent} {after' : Snapshot}
    (h : operation.Reports source received before event after)
    (h' : operation.Reports source received before event' after') : event = event' := by
  refine Option.ext fun reported => ?_
  cases reported with
  | readError region version =>
    exact (h.readError_iff region version).trans (h'.readError_iff region version).symm
  | updateError keys values =>
    exact (h.updateError_iff keys values).trans (h'.updateError_iff keys values).symm
  | networkError status => exact (h.networkError_iff status).trans (h'.networkError_iff status).symm

theorem LoadsKeys.reports_none (h : operation.LoadsKeys) :
    operation.Reports source received before none after := by
  cases h <;> exact reports_none_of_not_asksValues nofun rfl

theorem reports_none_of_notFound (hmade : operation.request? source token = some request)
    (h : answer.status? = some .notFound) :
    operation.Reports source (some (request, answer)) before none after := by
  cases answer with
  | fault text => cases h
  | response response =>
    have hstatus : response.status = .notFound := Option.some.inj h
    have hok : response.status ≠ .ok := by rw [hstatus]; decide
    match operation with
    | .fetchValues => exact reports_none_of_status .fetchValues hok (.inr hstatus)
    | .sync => exact reports_none_of_status .sync hok (.inr hstatus)
    | .loadKeys reading => exact (LoadsKeys.loadKeys reading).reports_none
    | .fetchKeys => exact LoadsKeys.fetchKeys.reports_none
    | .setKeys _ | .updateValues _ | .speedGroup _ | .setToken _ | .inspect => cases hmade

theorem AsksServer.reports_none (h : operation.AsksServer) :
    operation.Reports source none before none after := by
  cases h with
  | fetchKeys => exact LoadsKeys.fetchKeys.reports_none
  | loadKeys => exact (LoadsKeys.loadKeys _).reports_none
  | fetchValues => exact reports_none_of_received_none .fetchValues
  | sync => exact reports_none_of_received_none .sync

end Operation

namespace Interleaving

/-! ## The events of a history -/

/-- What is known of the `event` of an operation that has concluded, and of what is seen by who
hears of it. -/
structure Conclusion.Tells {source : Source} (conclusion : Conclusion source)
    (event : Option (TrafficEvent × Snapshot)) : Prop where
  /-- Values that do not unpack are reported, with the edition that they were asked for. -/
  readError_iff : ∀ region version, event.map Prod.fst = some (.readError region version) ↔
    region = source.edition.region ∧ version = source.edition.version ∧
      conclusion.operation.ReceivesDamaged conclusion.received
  /-- Values that are more or fewer than the keys are reported, be they sent or given. -/
  updateError_iff : ∀ keys values, event.map Prod.fst = some (.updateError keys values) ↔
    ∃ offered, conclusion.operation.offered conclusion.received = some offered ∧
      keys = conclusion.before.keys.length ∧ values = offered.length ∧ keys ≠ values
  /-- A request for values is reported if no response came in, or one that tells nothing. -/
  networkError_iff : ∀ status, event.map Prod.fst = some (.networkError status) ↔
    conclusion.operation.IsRefused conclusion.received status
  /-- Who hears of an event sees what a reader sees from then on: another verdict, and nothing else
  that is new. -/
  seen : ∀ reported seen, event = some (reported, seen) → seen = conclusion.after ∧
    seen = { conclusion.before with availability := reported.verdict }
  /-- Keys are no matter for events. -/
  silent_of_keys : conclusion.operation.LoadsKeys ∨
    (∃ keys, conclusion.operation = .setKeys keys) → event = none
  /-- That there is nothing for an edition is no failure. -/
  silent_of_notFound : ∀ request answer, conclusion.received = some (request, answer) →
    answer.status? = some .notFound → event = none
  /-- That there is no server to ask is none either. -/
  silent_of_noServer : source.remote.isConfigured = false → conclusion.operation.AsksServer →
    event = none

variable {source : Source}

theorem Conclusion.tells_of_reports {conclusion : Conclusion source} {event : Option TrafficEvent}
    (h : conclusion.operation.Reports source conclusion.received conclusion.before event
      conclusion.after) : conclusion.Tells (event.map (·, conclusion.after)) := by
  have hevent : (event.map (·, conclusion.after)).map Prod.fst = event := by
    cases event <;> rfl
  have hread := h.readError_iff
  have hupdate := h.updateError_iff
  have hnetwork := h.networkError_iff
  rw [← hevent] at hread hupdate hnetwork
  -- What would not be reported is not.
  have hsilent (hnone : conclusion.operation.Reports source conclusion.received conclusion.before
      none conclusion.after) : event.map (·, conclusion.after) = none := by
    rw [h.event_unique hnone]
    rfl
  refine ⟨hread, hupdate, hnetwork, ?_, ?_, ?_, ?_⟩
  · rintro reported seen hreported
    obtain ⟨_, rfl, hpair⟩ := Option.map_eq_some_iff.mp hreported
    obtain ⟨rfl, rfl⟩ := Prod.mk.inj hpair
    exact ⟨rfl, h.eq_of_event⟩
  · rintro (hloads | ⟨keys, hkeys⟩)
    -- Such operations report nothing, and there is no choice in it.
    · exact hsilent hloads.reports_none
    · refine hsilent (Operation.reports_none_of_not_asksValues ?_ ?_) <;> rw [hkeys]
      · nofun
      · rfl
  · intro request answer hreceived hstatus
    have hmade := conclusion.made
    rw [hreceived] at hmade hsilent
    exact hsilent (Operation.reports_none_of_notFound hmade.symm hstatus)
  · intro hremote hasks
    have hmade := conclusion.made
    rw [Operation.request?_eq_none hremote, Option.map_eq_none_iff] at hmade
    rw [hmade] at hsilent
    exact hsilent hasks.reports_none

variable {start session : Session} {waiting : List (Waiting source)}
  {concluded : List (Conclusion source)}

/-- One more operation adds the event that it reports: `emitted` gains one place, which may be
empty. -/
theorem exists_emitted_concat (conclusion : Conclusion source)
    {emitted : List (Option (TrafficEvent × Snapshot))} {event : Option TrafficEvent}
    (htells : List.Forall₂ Conclusion.Tells concluded emitted)
    (hreports : conclusion.operation.Reports source conclusion.received conclusion.before event
      conclusion.after) : ∃ more : List (Option (TrafficEvent × Snapshot)),
        List.Forall₂ Conclusion.Tells (concluded ++ [conclusion]) more ∧
        more.reduceOption = emitted.reduceOption ++ (event.map (·, conclusion.after)).toList := by
  refine ⟨emitted ++ [event.map (·, conclusion.after)],
    List.rel_append htells (.cons (Conclusion.tells_of_reports hreports) .nil), ?_⟩
  rw [List.reduceOption_append]
  cases event <;> rfl

/-- The induction is on how the history came about: operations that conclude add an event or none,
and a request adds none. -/
theorem History.exists_events (h : History source start waiting concluded session) :
    ∃ emitted : List (Option (TrafficEvent × Snapshot)),
      List.Forall₂ Conclusion.Tells concluded emitted ∧
        events session.trace = events start.trace ++ emitted.reduceOption := by
  induction h with
  | start => exact ⟨[], .nil, by simp⟩
  | @done waiting concluded session after operation token token' result _ hrequest hconclude ih =>
    obtain ⟨emitted, htells, hevents⟩ := ih
    obtain ⟨event, hannounces, hreports⟩ := operation.exists_reports_conclude source token none
      (operation.opened source session)
    rw [hconclude] at hannounces hreports
    rw [Operation.snapshot_opened] at hreports
    obtain ⟨more, htells', hmore⟩ := exists_emitted_concat
      ⟨operation, token, none, hrequest.symm, result, session.snapshot, after.snapshot⟩
      htells hreports
    refine ⟨more, htells', ?_⟩
    rw [hannounces, Operation.events_opened, hevents, hmore, List.append_assoc]
  | @asked waiting concluded session _ asking ih =>
    obtain ⟨emitted, htells, hevents⟩ := ih
    exact ⟨emitted, htells, by rw [Session.events_noted_request, Operation.events_opened, hevents]⟩
  | @answered earlier later asking concluded session after token' result _ answer hconclude ih =>
    obtain ⟨emitted, htells, hevents⟩ := ih
    obtain ⟨event, hannounces, hreports⟩ := asking.operation.exists_reports_conclude source
      asking.token (some (asking.request, answer)) session
    rw [hconclude] at hannounces hreports
    obtain ⟨more, htells', hmore⟩ := exists_emitted_concat
      (asking.concluded answer result session.snapshot after.snapshot) htells hreports
    refine ⟨more, htells', ?_⟩
    rw [hannounces, hevents, hmore, List.append_assoc]
    rfl

/-- **Which events are reported.** However operations overlap, each of them reports at most one
event, in the order in which they conclude: the one that what it received and the keys at hand call
for (`Conclusion.Tells`), when everything else that it does is done. What a reader sees when an
operation concludes is what the one before it left. Steps bring about the histories of their
operations (`Step.conclusionsAll`). -/
theorem events_of_history (source : Source) :
    (∀ start waiting concluded session, History source start waiting concluded session →
      (∃ emitted : List (Option (TrafficEvent × Snapshot)),
        List.Forall₂ Conclusion.Tells concluded emitted ∧
          events session.trace = events start.trace ++ emitted.reduceOption) ∧
      start.snapshot :: concluded.map (·.after) = concluded.map (·.before) ++ [session.snapshot]) ∧
    ∀ token steps session,
      History source session [] (Step.conclusionsAll source token steps session)
        (Step.runAll source token steps session).2 :=
  ⟨fun _ _ _ _ h => ⟨h.exists_events, h.snapshots_eq⟩, Step.history_runAll source⟩

/-- A round is refused after another caller had no values for the key at hand, and what is sent for
the next one is cut short. -/
theorem events_of_history_three_failures :
    let source : Source := ⟨⟨"Monaco", 0⟩, 0, ⟨some "https://localhost/"⟩⟩
    let session : Session := { snapshot := { keys := [⟨5, 0, .forward⟩] } }
    let steps : List Step :=
      [.mk .sync (.response { status := ⟨500, by decide⟩ })
          [.mk (.updateValues []) (.fault "no response") []],
        .mk .fetchValues (.response { status := .ok }) []]
    ∃ first second third, events (Step.runAll source "" steps session).2.trace =
        [(.updateError 1 0, first), (.networkError (some ⟨500, by decide⟩), second),
          (.readError "Monaco" 0, third)] ∧
      first.availability = .noData ∧ second.availability = .unknown ∧
      third.availability = .noData := by
  intro source session steps
  have hremote : source.remote.isConfigured := rfl
  have hcut : Values.decode [] = .error (.stream .truncated) := by decide +kernel
  obtain ⟨hhistories, hsteps⟩ := events_of_history source
  obtain ⟨⟨emitted, htells, hevents⟩, -⟩ := hhistories _ _ _ _ (hsteps "" steps session)
  have hgiven : Operation.request? source "" (.updateValues []) = none := rfl
  obtain ⟨round, hround⟩ := Source.exists_valuesRequest? hremote ""
  have hsync : Operation.request? source "" .sync = some round := hround
  -- Who asks next has the token that the round left.
  simp only [steps, Step.conclusionsAll, Step.conclusions_of_request hsync,
    Step.conclusions_of_none hgiven, List.append_nil, List.cons_append, List.nil_append] at htells
  generalize (Step.run source "" _ session).1.token = token at htells
  obtain ⟨request, hrequest⟩ := Source.exists_valuesRequest? hremote token
  have hfetch : Operation.request? source token .fetchValues = some request := hrequest
  simp only [Step.conclusions_of_request hfetch, Step.conclusionsAll, List.nil_append] at htells
  rcases htells with _ | ⟨hgiven, _ | ⟨hrefused, _ | ⟨hdamaged, _ | _⟩⟩⟩
  obtain ⟨⟨_, first⟩, rfl, rfl⟩ := Option.map_eq_some_iff.mp
    ((hgiven.updateError_iff 1 0).mpr ⟨[], rfl, rfl, rfl, by decide⟩)
  obtain ⟨⟨_, second⟩, rfl, rfl⟩ := Option.map_eq_some_iff.mp
    ((hrefused.networkError_iff _).mpr ⟨.sync, ⟨_, _, rfl, rfl⟩, by decide, by decide, by decide⟩)
  obtain ⟨⟨_, third⟩, rfl, rfl⟩ := Option.map_eq_some_iff.mp
    ((hdamaged.readError_iff _ _).mpr ⟨rfl, rfl, .fetchValues, _, _, _, rfl, rfl, hcut⟩)
  exact ⟨first, second, third, hevents,
    congrArg Snapshot.availability (hgiven.seen _ _ rfl).2,
    congrArg Snapshot.availability (hrefused.seen _ _ rfl).2,
    congrArg Snapshot.availability (hdamaged.seen _ _ rfl).2⟩

end Interleaving

end RoadTraffic
