import Mathlib
import RoadTraffic.Proofs.Sync.Operations
import RoadTraffic.Proofs.ValueCodec

/-!
# Revision tokens over a run

A caller that asks for values again and again passes on the token that it was left with. What the
token is at each moment is told by the answers that came in so far, and by nothing else that the
caller or others did.

* `Step.latestRevision token steps`: the last revision that was told together with values that
  unpack, or `token` if none was.
* `Step.requests_run`/`Step.token_run`: the request that a step makes, and the token it leaves
  behind.
* `Step.runAll_append`: a run goes on with `latestRevision token steps`.
* `Step.requests_runAll_latestRevision`: every request for values names the last revision.
-/

namespace RoadTraffic

/-! ## Revisions -/

/-- The revision of the values in an answer, if they unpack and `revisionHeader` tells one. -/
def Answer.revision? : Answer → Option String
  | .response received =>
    if received.status = .ok ∧ (Values.decode received.body).isOk then
      received.header? revisionHeader
    else none
  | .fault _ => none

/-- The revision of the values that an operation takes from `answer`. -/
def Operation.revision? (answer : Answer) : Operation → Option String
  | .fetchValues | .sync => answer.revision?
  | _ => none

/-- The operation asks for values: it is `.fetchValues` or `.sync`. -/
inductive Operation.AsksValues : Operation → Prop where
  | fetchValues : AsksValues .fetchValues
  | sync : AsksValues .sync

/-- The operation leaves it to the server which token its caller goes on with: it is no
`.setToken`. -/
def Operation.LeavesToken (operation : Operation) : Prop := ∀ taken, operation ≠ .setToken taken

namespace Step

/-- The operation of the caller itself. -/
def operation : Step → Operation
  | .mk operation _ _ => operation

/-- The revision of the values that come in with a step, if any do. -/
def revision? : Step → Option String
  | .mk operation answer _ => operation.revision? answer

/-- The last revision that came in with `steps`, or `token` if none did. -/
def latestRevision (token : String) (steps : List Step) : String :=
  (steps.filterMap revision?).getLast?.getD token

theorem latestRevision_cons (token : String) (step : Step) (steps : List Step) :
    latestRevision token (step :: steps) = latestRevision (step.revision?.getD token) steps := by
  unfold latestRevision
  cases hrevision : step.revision? with
  | none => rw [List.filterMap_cons_none hrevision, Option.getD_none]
  | some revision =>
    rw [List.filterMap_cons_some hrevision, List.getLast?_cons, Option.getD_some, Option.getD_some]

theorem latestRevision_of_forall {steps : List Step} (h : ∀ step ∈ steps, step.revision? = none)
    (token : String) : latestRevision token steps = token := by
  rw [latestRevision, List.filterMap_eq_nil_iff.mpr h]
  rfl

end Step

/-! ## Requests among what happened -/

namespace Occurrence

@[simp] theorem requests_append (trace more : List Occurrence) :
    requests (trace ++ more) = requests trace ++ requests more := by
  simp [requests]

@[simp] theorem requests_request (request : Request) :
    requests [.request request] = [request] := rfl

@[simp] theorem requests_records (records : List LogRecord) :
    requests (records.map .record) = [] := by
  simp [requests]

@[simp] theorem requests_event (event : Option TrafficEvent) (seen : Snapshot) :
    requests (event.map (.event · seen)).toList = [] := by
  cases event <;> rfl

end Occurrence

open Occurrence (requests)

namespace Session

@[simp] theorem requests_noted_request (session : Session) (request : Request) :
    requests (session.noted (.request request)).trace = requests session.trace ++ [request] := by
  simp [noted]

@[simp] theorem requests_logged (session : Session) (records : List LogRecord) :
    requests (session.logged records).trace = requests session.trace := by
  simp [logged]

@[simp] theorem requests_settled (session : Session) (availability : Availability)
    (event : Option TrafficEvent) :
    requests (session.settled availability event).trace = requests session.trace := by
  simp [settled]

@[simp] theorem requests_withKeys (session : Session) (keys : List SegmentId) :
    requests (session.withKeys keys).trace = requests session.trace := rfl

@[simp] theorem requests_colored (session : Session) (values : List SpeedGroup) :
    requests (session.colored values).2.trace = requests session.trace := by
  unfold colored
  cases Coloring.ofParallel session.snapshot.keys values with
  | ok coloring => rfl
  | error fault => simp [withMismatch]

end Session

namespace Source

variable {source : Source}

@[simp] theorem requests_warned (concluded : Except SyncError Unit × Session) :
    requests (source.warned concluded).2.trace = requests concluded.2.trace := by
  obtain ⟨result, session⟩ := concluded
  cases result with
  | ok done => rfl
  | error e => simp [warned]

@[simp] theorem requests_concludeSection (bytes : Bytes) (session : Session) :
    requests (source.concludeSection bytes session).2.trace = requests session.trace := by
  unfold concludeSection
  cases Keys.decode bytes <;> simp

@[simp] theorem requests_concludeKeys (request : Request) (reply : Reply) (session : Session) :
    requests (source.concludeKeys request reply session).2.trace = requests session.trace := by
  unfold concludeKeys
  obtain ⟨result, records⟩ := source.judgeKeys request reply
  cases result <;> simp

@[simp] theorem requests_settleRound (judgement : ValuesJudgement) (session : Session) :
    requests (source.settleRound judgement session).2.trace = requests session.trace := by
  by_cases hnew : ∃ values, judgement.answer = .new values
  · obtain ⟨values, hanswer⟩ := hnew
    rw [settleRound_of_new hanswer]
    exact session.requests_colored values
  · obtain ⟨records, hsettle⟩ := settleRound_of_not_new (not_exists.mp hnew) source
    rw [hsettle]
    simp

/-- The token after a reply is the revision in it, if there is one, and else the `token` before. -/
theorem token_judgeValues (request : Request) (token : String) (answer : Answer) :
    (source.judgeValues request token (answer.reply request)).token =
      answer.revision?.getD token := by
  have hjudges := source.judges_judgeValues request token (answer.reply request)
  generalize source.judgeValues request token (answer.reply request) = judgement at hjudges ⊢
  cases answer with
  | fault text =>
    cases hjudges with
    | unanswered => rfl
  | response response =>
    cases hjudges with
    | unpacked hstatus hvalues =>
      simp [Answer.revision?, hstatus, hvalues, Except.isOk, Except.toBool]
    | damaged hstatus hvalues => simp [Answer.revision?, hvalues, Except.isOk, Except.toBool]
    | missing hstatus => simp [Answer.revision?, hstatus, Status.notFound, Status.ok]
    | unchanged hstatus => simp [Answer.revision?, hstatus, Status.notModified, Status.ok]
    | refused hok hmissing hunchanged => simp [Answer.revision?, hok]

/-- The request for values of a caller that holds `token`. -/
theorem valuesRequest?_of_valuesUrl? {url : String}
    (h : source.remote.valuesUrl? source.edition = some url) (token : String) :
    source.valuesRequest? token =
      some { url, headers := if token = "" then [] else [(ifNoneMatch, token)] } := by
  unfold valuesRequest?
  rw [h, Option.map_some]
  by_cases hempty : token = ""
  · simp [hempty]
  · simp [hempty, Request.withHeader]

end Source

/-! ## Requests and tokens of a step -/

namespace Operation

variable {source : Source} {token : String} {operation : Operation} {answer : Answer}

@[simp] theorem requests_opened (session : Session) :
    requests (operation.opened source session).trace = requests session.trace := by
  obtain ⟨records, h⟩ := operation.exists_opened_eq source session
  rw [h, Session.requests_logged]

/-- Nothing is asked for any more when an operation concludes: the requests in its trace stay the
same. -/
theorem requests_conclude (received : Option (Request × Answer)) (session : Session) :
    requests (operation.conclude source token received session).2.trace =
      requests session.trace := by
  match operation with
  | .setKeys _ | .speedGroup _ | .setToken _ | .inspect => rfl
  | .loadKeys (.ok (some _)) => simp [conclude]
  | .loadKeys (.error _) => simp [conclude]
  | .loadKeys (.ok none) | .fetchKeys => cases received <;> simp [conclude, concludeFetch]
  | .fetchValues => cases received <;> simp [conclude, Source.concludeValues]
  | .sync => cases received <;> simp [conclude, Source.concludeSync]
  | .updateValues _ => simp [conclude]

/-- The token after an operation is the revision of the values that it `received`, if it received
any. -/
theorem token_conclude (h : operation.LeavesToken) (received : Option (Request × Answer))
    (session : Session) :
    (operation.conclude source token received session).1.2 =
      (received.bind fun exchange => operation.revision? exchange.2).getD token := by
  match operation with
  | .setToken taken => exact absurd rfl (h taken)
  | .setKeys _ | .speedGroup _ | .inspect | .loadKeys (.ok (some _)) | .loadKeys (.error _)
  | .loadKeys (.ok none) | .fetchKeys | .updateValues _ => cases received <;> rfl
  | .fetchValues | .sync =>
    cases received with
    | none => rfl
    | some exchange => exact Source.token_judgeValues exchange.1 token exchange.2

theorem AsksValues.leavesToken (h : operation.AsksValues) : operation.LeavesToken := by
  cases h <;> nofun

theorem AsksValues.opened_eq (h : operation.AsksValues) (session : Session) :
    operation.opened source session = session := by
  cases h <;> rfl

theorem AsksValues.request?_eq (h : operation.AsksValues) :
    operation.request? source token = source.valuesRequest? token := by
  cases h <;> rfl

theorem revision?_eq_none (h : ¬ operation.AsksValues) (answer : Answer) :
    operation.revision? answer = none := by
  match operation with
  | .fetchValues => exact absurd .fetchValues h
  | .sync => exact absurd .sync h
  | .setToken _ | .setKeys _ | .speedGroup _ | .inspect | .loadKeys _ | .fetchKeys
  | .updateValues _ => rfl

/-- Without a server (`isConfigured = false`) there is nobody to ask. -/
theorem request?_eq_none (h : source.remote.isConfigured = false) :
    operation.request? source token = none := by
  have hbase : source.remote.base = none := by simpa [Remote.isConfigured] using h
  unfold request?
  split <;> simp [Source.keysRequest?, Source.valuesRequest?, Remote.keysUrl?, Remote.valuesUrl?,
    hbase]

end Operation

/-- The revision token that the caller of a step is left with. -/
def StepReport.token : StepReport → String
  | .mk _ token _ => token

namespace Step

variable {source : Source} {token : String} {operation : Operation} {answer : Answer}
  {meanwhile : List Step} {step : Step} {steps : List Step}

/-- A step makes its request before others make theirs in `wait`, and no other one afterwards. -/
theorem requests_run (session : Session) :
    requests (run source token (.mk operation answer meanwhile) session).2.trace =
      match operation.request? source token with
      | none => requests session.trace
      | some request =>
        requests (wait source request meanwhile (operation.opened source session)).2.trace := by
  rw [run_eq]
  cases operation.request? source token with
  | none => exact (Operation.requests_conclude _ _).trans (Operation.requests_opened _)
  | some request => exact Operation.requests_conclude _ _

theorem token_run (hleaves : operation.LeavesToken) (session : Session) :
    (run source token (.mk operation answer meanwhile) session).1.token =
      ((operation.request? source token).bind fun _ => operation.revision? answer).getD token := by
  rw [run_eq]
  cases operation.request? source token with
  | none => exact Operation.token_conclude hleaves none _
  | some request => exact Operation.token_conclude hleaves (some (request, answer)) _

theorem runAll_cons_eq (session : Session) :
    runAll source token (step :: steps) session =
      let (report, middle) := run source token step session
      let (reports, after) := runAll source report.token steps middle
      (report :: reports, after) := by
  rw [runAll]
  obtain ⟨⟨_, _, _⟩, _⟩ := run source token step session
  rfl

/-! ## Requests of a run -/

theorem requests_prefix_runAll_of_forall
    (h : ∀ step ∈ steps, ∀ token session,
      requests session.trace <+: requests (run source token step session).2.trace)
    (token : String) (session : Session) :
    requests session.trace <+: requests (runAll source token steps session).2.trace :=
  rel_runAll (R := fun before after => requests before.trace <+: requests after.trace)
    (fun _ => List.prefix_rfl) List.IsPrefix.trans h token session

/-- What was asked for stays so: the requests before a step are a prefix of those after it. -/
theorem requests_prefix_run (token : String) (step : Step) (session : Session) :
    requests session.trace <+: requests (run source token step session).2.trace := by
  induction step using Step.induction generalizing token session with
  | mk operation answer meanwhile ih =>
    rw [requests_run]
    cases operation.request? source token with
    | none => exact List.prefix_rfl
    | some request =>
      -- The others find the request of the step among what was asked for, and add theirs to it.
      have hwait := requests_prefix_runAll_of_forall ih ""
        ((operation.opened source session).noted (.request request))
      rw [Session.requests_noted_request, Operation.requests_opened] at hwait
      exact (List.prefix_append _ _).trans hwait

theorem requests_prefix_runAll (source : Source) (token : String) (steps : List Step)
    (session : Session) :
    requests session.trace <+: requests (runAll source token steps session).2.trace :=
  requests_prefix_runAll_of_forall
    (fun step _ token session => requests_prefix_run token step session) token session

/-! ## Runs without a server -/

section NoServer

variable (hremote : source.remote.isConfigured = false)

include hremote

theorem run_of_not_isConfigured (token : String) (hleaves : step.operation.LeavesToken)
    (session : Session) :
    (run source token step session).1.token = token ∧
      requests (run source token step session).2.trace = requests session.trace := by
  obtain ⟨operation, answer, meanwhile⟩ := step
  replace hleaves : operation.LeavesToken := hleaves
  rw [token_run hleaves, requests_run, Operation.request?_eq_none hremote]
  exact ⟨rfl, rfl⟩

theorem runAll_of_not_isConfigured (token : String)
    (hleaves : ∀ step ∈ steps, step.operation.LeavesToken) (session : Session) :
    (runAll source token steps session).1.map StepReport.token = steps.map (fun _ => token) ∧
      requests (runAll source token steps session).2.trace = requests session.trace := by
  induction steps generalizing session with
  | nil => simp [runAll]
  | cons step steps ih =>
    obtain ⟨hstep, hsteps⟩ := List.forall_mem_cons.mp hleaves
    obtain ⟨htoken, hmade⟩ := run_of_not_isConfigured hremote token hstep session
    obtain ⟨htokens, hrest⟩ := ih hsteps (run source token step session).2
    rw [runAll_cons_eq]
    dsimp only
    rw [htoken, List.map_cons, List.map_cons, htoken, htokens, hrest, hmade]
    exact ⟨rfl, rfl⟩

end NoServer

/-! ## Runs with a server -/

section Server

variable {url : String} (hurl : source.remote.valuesUrl? source.edition = some url)

include hurl

theorem token_run_of_valuesUrl? (token : String) (hleaves : step.operation.LeavesToken)
    (session : Session) :
    (run source token step session).1.token = step.revision?.getD token := by
  obtain ⟨operation, answer, meanwhile⟩ := step
  replace hleaves : operation.LeavesToken := hleaves
  rw [token_run hleaves, revision?]
  by_cases hvalues : operation.AsksValues
  · rw [hvalues.request?_eq, Source.valuesRequest?_of_valuesUrl? hurl, Option.bind_some]
  · -- Nothing that comes in for such an operation is a revision, whether it asked for it or not.
    rw [Operation.revision?_eq_none hvalues]
    cases operation.request? source token <;> rfl

/-- Whoever goes on with a run (`later`) holds the last revision that came in. -/
theorem runAll_append (token : String) (hleaves : ∀ step ∈ steps, step.operation.LeavesToken)
    (later : List Step) (session : Session) :
    runAll source token (steps ++ later) session =
      let (reports, middle) := runAll source token steps session
      let (more, after) := runAll source (latestRevision token steps) later middle
      (reports ++ more, after) := by
  induction steps generalizing token session with
  | nil => simp [runAll, latestRevision]
  | cons step steps ih =>
    obtain ⟨hstep, hsteps⟩ := List.forall_mem_cons.mp hleaves
    have hrest := ih (step.revision?.getD token) hsteps (run source token step session).2
    rw [List.cons_append, runAll_cons_eq, runAll_cons_eq]
    dsimp only
    rw [token_run_of_valuesUrl? hurl token hstep, hrest, latestRevision_cons]
    rfl

theorem tokens_runAll (token : String) (hleaves : ∀ step ∈ steps, step.operation.LeavesToken)
    (session : Session) :
    (runAll source token steps session).1.map StepReport.token =
      steps.inits.tail.map (latestRevision token) := by
  induction steps generalizing token session with
  | nil => simp [runAll]
  | cons step steps ih =>
    obtain ⟨hstep, hsteps⟩ := List.forall_mem_cons.mp hleaves
    let next := step.revision?.getD token
    have htoken : (run source token step session).1.token = next :=
      token_run_of_valuesUrl? hurl token hstep session
    have hrest := ih next hsteps (run source token step session).2
    have hinits : steps.inits = [] :: steps.inits.tail := by cases steps <;> simp
    calc (runAll source token (step :: steps) session).1.map StepReport.token
      _ = next :: steps.inits.tail.map (latestRevision next) := by
        rw [runAll_cons_eq]
        dsimp only
        rw [List.map_cons, htoken, hrest]
      _ = ([] :: steps.inits.tail).map (latestRevision next) := rfl
      _ = steps.inits.map (latestRevision next) := by rw [← hinits]
      _ = (step :: steps).inits.tail.map (latestRevision token) := by
        simp [latestRevision_cons, next, Function.comp_def]

/-- The caller holds the same `token` as long as no revision comes in. -/
theorem token_of_mem_runAll {token : String}
    (hleaves : ∀ step ∈ steps, step.operation.LeavesToken)
    (h : ∀ step ∈ steps, step.revision? = none) {session : Session} {report : StepReport}
    (hreport : report ∈ (runAll source token steps session).1) : report.token = token := by
  have htoken : report.token ∈ steps.inits.tail.map (latestRevision token) := by
    rw [← tokens_runAll hurl token hleaves session]
    exact List.mem_map_of_mem hreport
  obtain ⟨earlier, hearlier, hlatest⟩ := List.mem_map.mp htoken
  have hpart : earlier <+: steps :=
    (List.mem_inits earlier steps).mp (List.mem_of_mem_tail hearlier)
  rw [← hlatest]
  exact latestRevision_of_forall (fun step hstep => h step (hpart.mem hstep)) token

end Server

/-- **Every request for values names the last revision.** A caller that asks again and again goes on
with `latestRevision token earlier`, the revision that came in last together with values that
unpack, be they accepted or not; answers of any other kind, and whatever else is done in between,
leave it as it is. So each of its requests names that revision under `ifNoneMatch`, or none if that
is the empty one. Without a server nothing is asked for. -/
theorem requests_runAll_latestRevision (source : Source) (token : String) {steps : List Step}
    (hleaves : ∀ step ∈ steps, step.operation.LeavesToken) (session : Session) :
    (∀ url, source.remote.valuesUrl? source.edition = some url →
      (runAll source token steps session).1.map StepReport.token =
        steps.inits.tail.map (latestRevision token) ∧
      ∀ earlier operation answer meanwhile later,
        steps = earlier ++ .mk operation answer meanwhile :: later → operation.AsksValues →
        let held := latestRevision token earlier
        let request : Request := { url, headers := if held = "" then [] else [(ifNoneMatch, held)] }
        let before := (runAll source token earlier session).2
        let waited := (runAll source "" meanwhile (before.noted (.request request))).2
        let after := (runAll source token (earlier ++ [.mk operation answer meanwhile]) session).2
        requests before.trace ++ [request] <+: requests waited.trace ∧
          requests after.trace = requests waited.trace ∧
          requests after.trace <+: requests (runAll source token steps session).2.trace) ∧
    (source.remote.isConfigured = false →
      (runAll source token steps session).1.map StepReport.token = steps.map (fun _ => token) ∧
        requests (runAll source token steps session).2.trace = requests session.trace) := by
  refine ⟨fun url hurl => ⟨tokens_runAll hurl token hleaves session, ?_⟩,
    fun hremote => runAll_of_not_isConfigured hremote token hleaves session⟩
  rintro earlier operation answer meanwhile later rfl hvalues held request before waited after
  have hupTo : ∀ step ∈ earlier ++ [.mk operation answer meanwhile],
      step.operation.LeavesToken := by
    intro step hstep
    refine hleaves step ?_
    rw [List.append_cons]
    exact List.mem_append_left later hstep
  -- The request is made, nothing is asked for after the others, and it stays in the trace.
  refine ⟨?_, ?_, ?_⟩
  · have hmade := requests_prefix_runAll source "" meanwhile (before.noted (.request request))
    rwa [Session.requests_noted_request] at hmade
  · have hafter : after = (run source held (.mk operation answer meanwhile) before).2 := by
      show (runAll source token (earlier ++ [.mk operation answer meanwhile]) session).2 = _
      rw [runAll_append hurl token fun step hstep => hupTo step (List.mem_append_left _ hstep)]
      dsimp only
      rw [runAll_cons_eq]
      dsimp only
      rw [runAll]
    rw [hafter, requests_run, hvalues.request?_eq, Source.valuesRequest?_of_valuesUrl? hurl]
    dsimp only
    rw [hvalues.opened_eq]
    rfl
  · rw [List.append_cons, runAll_append hurl token hupTo]
    exact requests_prefix_runAll source _ later after

/-- A revision is told once. It is named again when keys were loaded, when no values were found and
when no response came in, even if another caller holds another one. Without a server it is kept for
nothing. -/
theorem requests_runAll_latestRevision_told_once :
    let source : Source := ⟨⟨"Monaco", 0⟩, 0, ⟨some "https://localhost/"⟩⟩
    let told : Response := ({ status := .ok, body := Values.encode [.g0] } : Response).withHeader
      revisionHeader "rev-1"
    let earlier : List Step :=
      [.mk .fetchValues (.response told) [],
        .mk (.loadKeys (.ok (some [0, 1, 84, 1]))) (.fault "no response") [],
        .mk .sync (.response { status := .notFound }) []]
    let steps := earlier ++
      [.mk .sync (.fault "no response") [.mk (.setToken "rev-0") (.fault "no response") []]]
    ((runAll source "" steps {}).1.map StepReport.token = ["rev-1", "rev-1", "rev-1", "rev-1"] ∧
      ∃ url, requests (runAll source "" steps {}).2.trace =
        requests (runAll source "" earlier {}).2.trace ++
          [{ url, headers := [(ifNoneMatch, "rev-1")] }]) ∧
    requests (runAll { source with remote := .none } "rev-1" steps {}).2.trace = [] := by
  intro source told earlier steps
  have hleaves : ∀ step ∈ steps, step.operation.LeavesToken := by
    simp [steps, earlier, operation, Operation.LeavesToken]
  have htold : (Step.mk .fetchValues (.response told) []).revision? = some "rev-1" := by
    have hvalues : Values.decode told.body = .ok [.g0] := Values.decode_encode (by decide)
    have hheader : told.header? revisionHeader = some "rev-1" := by
      simp [told, Response.header?, Response.withHeader]
    show (if told.status = .ok ∧ (Values.decode told.body).isOk then
      told.header? revisionHeader else none) = _
    rw [hvalues, hheader]
    rfl
  obtain ⟨url, hurl⟩ : ∃ url, source.remote.valuesUrl? source.edition = some url := ⟨_, rfl⟩
  obtain ⟨htokens, hrequests⟩ :=
    (requests_runAll_latestRevision source "" hleaves {}).1 url hurl
  refine ⟨⟨?_, url, ?_⟩, ?_⟩
  · rw [htokens]
    simp only [steps, earlier, List.cons_append, List.nil_append, List.inits, List.tail_cons,
      List.map_cons, List.map_nil, latestRevision_cons, htold]
    rfl
  · have hheld : latestRevision "" earlier = "rev-1" := by
      simp only [earlier, latestRevision_cons, htold]
      rfl
    have hlast := (hrequests earlier .sync (.fault "no response")
      [.mk (.setToken "rev-0") (.fault "no response") []] [] rfl .sync).2.1
    rw [hheld, runAll_cons run_setToken, runAll, Session.requests_noted_request] at hlast
    exact hlast
  · have hnobody :=
      requests_runAll_latestRevision { source with remote := .none } "rev-1" hleaves {}
    exact (hnobody.2 rfl).2

end Step

end RoadTraffic
