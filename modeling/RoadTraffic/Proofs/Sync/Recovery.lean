import Mathlib
import RoadTraffic.Proofs.Sync.Refinement
import RoadTraffic.Proofs.Sync.Verdicts

/-!
# Recovery

A round in which no values are sent changes the verdict at most. However many of them follow one
another, keys, coloring and token stay as the last accepted values left them, and as soon as the
server says that these are still current, so does the verdict.

* `Snapshot.SameData`: snapshots that differ in the verdict (`availability`) at most.
* `Step.BringsNoValues`: the rounds in which no values are sent.
* `Step.BringsNoValues.keepsData`: such a round changes the verdict at most.
* `Step.runAll_recovers`: what was published once is published again.
-/

namespace RoadTraffic

/-- A reader sees the same `before` and `after` but for the verdict. -/
def Snapshot.SameData (before after : Snapshot) : Prop :=
  ∃ availability, after = { before with availability }

theorem Snapshot.SameData.trans {before middle after : Snapshot} (h : before.SameData middle)
    (h' : middle.SameData after) : before.SameData after := by
  obtain ⟨_, rfl⟩ := h
  obtain ⟨availability, rfl⟩ := h'
  exact ⟨availability, rfl⟩

/-- A reader sees keys colored by the values of `response`, and that these can be trusted. -/
def Snapshot.ColoredBy (response : Response) (snapshot : Snapshot) : Prop :=
  snapshot.availability = .available ∧ ∃ values, Values.decode response.body = .ok values ∧
    Coloring.ofParallel snapshot.keys values = .ok snapshot.coloring

/-- Without values there are none to be new: only a response of status `.ok` is judged `.new`. -/
theorem Source.Judges.not_new {source : Source} {request : Request} {token : String}
    {answer : Answer} {judgement : ValuesJudgement}
    (h : source.Judges request token (answer.reply request) judgement)
    (hanswer : answer.status? ≠ some .ok) (values : List SpeedGroup) :
    judgement.answer ≠ .new values := by
  cases answer with
  | fault text =>
    cases h with
    | unanswered => nofun
  | response response =>
    cases h with
    | unpacked hstatus => exact absurd (congrArg some hstatus) hanswer
    | damaged | missing | unchanged | refused => nofun

theorem Source.availability_judgeValues_of_notModified {source : Source} {answer : Answer}
    (h : answer.status? = some .notModified) (request : Request) (token : String) :
    (source.judgeValues request token (answer.reply request)).availability = .available := by
  cases answer with
  | fault text => cases h
  | response response =>
    exact congrArg ValuesJudgement.availability
      (Source.judgeValues_of_notModified (Option.some.inj h) request token)

theorem Answer.revision?_eq_none {answer : Answer} (h : answer.status? ≠ some .ok) :
    answer.revision? = none := by
  cases answer with
  | fault text => rfl
  | response response =>
    have hstatus : response.status ≠ .ok := fun hok => h (congrArg some hok)
    simp [revision?, hstatus]

namespace Operation

variable {source : Source} {token : String} {operation : Operation} {answer : Answer}

theorem AsksValues.revision?_eq_none (h : operation.AsksValues)
    (hanswer : answer.status? ≠ some .ok) : operation.revision? answer = none := by
  cases h <;> exact Answer.revision?_eq_none hanswer

theorem AsksValues.snapshot_conclude (h : operation.AsksValues)
    (hanswer : answer.status? ≠ some .ok) (request : Request) (session : Session) :
    (operation.conclude source token (some (request, answer)) session).2.snapshot =
      { session.snapshot with
        availability := (source.judgeValues request token (answer.reply request)).availability } :=
  by
  cases h with
  | fetchValues => rfl
  | sync =>
    have hjudges := source.judges_judgeValues request token (answer.reply request)
    obtain ⟨records, hconclude⟩ := Source.concludeSync_of_not_new (hjudges.not_new hanswer)
    unfold conclude
    dsimp only
    rw [hconclude]
    rfl

end Operation

namespace Step

variable {source : Source} {token : String} {request : Request}

/-! ## Rounds without values -/

/-- No values are sent for the step, and none for those that others run while it waits: it asks for
values and receives something else. Other callers hold tokens of their own. -/
inductive BringsNoValues : Step → Prop where
  | round {operation : Operation} {answer : Answer} {meanwhile : List Step}
      (h : operation.AsksValues) (hanswer : answer.status? ≠ some .ok)
      (hmeanwhile : ∀ step ∈ meanwhile, BringsNoValues step) :
      BringsNoValues (.mk operation answer meanwhile)
  | setToken (token : String) (answer : Answer) (meanwhile : List Step) :
      BringsNoValues (.mk (.setToken token) answer meanwhile)

theorem BringsNoValues.undisturbed {operation : Operation} {answer : Answer}
    (h : operation.AsksValues) (hanswer : answer.status? ≠ some .ok) :
    BringsNoValues (.mk operation answer []) :=
  .round h hanswer (List.forall_mem_nil _)

/-- The step changes the verdict at most, whatever the session is. -/
def KeepsData (source : Source) (step : Step) : Prop :=
  ∀ (token : String) (session : Session),
    session.snapshot.SameData (run source token step session).2.snapshot

theorem sameData_runAll {steps : List Step} (h : ∀ step ∈ steps, KeepsData source step)
    (token : String) (session : Session) :
    session.snapshot.SameData (runAll source token steps session).2.snapshot :=
  rel_runAll (R := fun before after => before.snapshot.SameData after.snapshot)
    (fun session => ⟨session.snapshot.availability, rfl⟩) Snapshot.SameData.trans h token session

/-- A round without values ends with the verdict on its own answer, whatever others do
`meanwhile`. -/
theorem snapshot_run {operation : Operation} {answer : Answer} {meanwhile : List Step}
    (hrequest : source.valuesRequest? token = some request) (hasks : operation.AsksValues)
    (hanswer : answer.status? ≠ some .ok) (h : ∀ step ∈ meanwhile, KeepsData source step)
    (session : Session) :
    (run source token (.mk operation answer meanwhile) session).2.snapshot =
      { session.snapshot with
        availability := (source.judgeValues request token (answer.reply request)).availability } :=
  by
  have hwait : session.snapshot.SameData (wait source request meanwhile session).2.snapshot :=
    sameData_runAll h "" (session.noted (.request request))
  obtain ⟨availability, hwait⟩ := hwait
  rw [run_eq, hasks.request?_eq, hrequest]
  dsimp only
  rw [hasks.opened_eq]
  refine (hasks.snapshot_conclude hanswer request _).trans ?_
  rw [hwait]

theorem BringsNoValues.keepsData {step : Step} (h : step.BringsNoValues) :
    KeepsData source step := by
  induction h with
  | @round operation answer meanwhile hasks hanswer _ ih =>
    intro token session
    cases hrequest : source.valuesRequest? token with
    | none =>
      cases hasks with
      | fetchValues =>
        rw [run_fetchValues_noServer hrequest]
        exact ⟨session.snapshot.availability, rfl⟩
      | sync =>
        rw [run_sync_noServer hrequest]
        exact ⟨session.snapshot.availability, rfl⟩
    | some request => exact ⟨_, snapshot_run hrequest hasks hanswer ih session⟩
  | setToken taken answer meanwhile =>
    intro token session
    rw [run_setToken]
    exact ⟨session.snapshot.availability, rfl⟩

theorem BringsNoValues.revision?_eq_none {step : Step} (h : step.BringsNoValues) :
    step.revision? = none := by
  cases h with
  | round hasks hanswer _ => exact hasks.revision?_eq_none hanswer
  | setToken => rfl

/-! ## From one publication to the next -/

theorem SyncOutcome.coloredBy {response : Response} {token token' : String}
    {before after : Snapshot} (hstatus : response.status = .ok)
    (h : SyncOutcome (.response response) token before true token' after) :
    after.ColoredBy response := by
  cases h with
  | accepted hanswer _ hvalues hlength =>
    cases hanswer
    exact ⟨rfl, _, hvalues, if_pos hlength⟩
  | unchanged hanswer hunchanged =>
    cases hanswer
    exact absurd (hstatus.symm.trans hunchanged) (by decide)

/-- If rounds without values (`before`) end with one in which the coloring is said to be current, it
is trusted in the end, and nothing else has changed. -/
theorem snapshot_runAll_of_notModified {url : String}
    (hurl : source.remote.valuesUrl? source.edition = some url) {before : List Step}
    {operation : Operation} {answer : Answer} {meanwhile : List Step}
    (hleaves : ∀ step ∈ before, step.operation.LeavesToken)
    (h : ∀ step ∈ before, step.BringsNoValues) (hasks : operation.AsksValues)
    (hround : BringsNoValues (.mk operation answer meanwhile))
    (hanswer : answer.status? = some .notModified) (token : String) (session : Session) :
    (runAll source token (before ++ [.mk operation answer meanwhile]) session).2.snapshot =
      { session.snapshot with availability := .available } := by
  have hbefore : session.snapshot.SameData (runAll source token before session).2.snapshot :=
    sameData_runAll (fun step hstep => (h step hstep).keepsData) token session
  obtain ⟨availability, hbefore⟩ := hbefore
  let held := latestRevision token before
  have hrequest := Source.valuesRequest?_of_valuesUrl? hurl held
  -- The last round is run with the token that the ones before it left.
  rw [runAll_append hurl token hleaves]
  dsimp only
  rw [runAll_cons_eq]
  dsimp only
  rw [runAll]
  dsimp only
  cases hround with
  | round _ hnoValues hmeanwhile =>
    rw [snapshot_run hrequest hasks hnoValues
      (fun step hstep => (hmeanwhile step hstep).keepsData), hbefore,
      Source.availability_judgeValues_of_notModified hanswer]
  | setToken => cases hasks

/-- **What was published once is published again.** After a round that accepted the values of
`response` (`ColoredBy`), let any number of `rounds` follow in which no values are sent. Keys,
coloring and token stay as the accepting round left them (`SameData`), and so does the verdict each
time the coloring is said to be current. -/
theorem runAll_recovers {response : Response} {meanwhile rounds : List Step}
    {token held : String} {session synced : Session} {reports : List StepReport}
    (hsync : run source token (.mk .sync (.response response) meanwhile) session =
      (.mk (.synced true) held reports, synced))
    (hstatus : response.status = .ok)
    (hrounds : ∀ round ∈ rounds, round.operation.AsksValues ∧ round.BringsNoValues) :
    synced.snapshot.ColoredBy response ∧
    ∀ earlier, earlier <+: rounds →
      synced.snapshot.SameData (runAll source held earlier synced).2.snapshot ∧
      (∀ report ∈ (runAll source held earlier synced).1, report.token = held) ∧
      ∀ before operation answer others,
        earlier = before ++ [.mk operation answer others] →
        answer.status? = some .notModified →
          (runAll source held earlier synced).2.snapshot = synced.snapshot := by
  cases hrequest : source.valuesRequest? token with
  | none =>
    rw [run_sync_noServer hrequest] at hsync
    cases hsync
  | some request =>
  obtain ⟨url, hurl, -⟩ := Option.map_eq_some_iff.mp hrequest
  have hpublished : synced.snapshot.ColoredBy response := by
    have houtcome := syncOutcome_concludeSync source request token (.response response)
      (wait source request meanwhile session).2
    rw [run_sync hrequest] at hsync
    dsimp only at hsync houtcome
    generalize source.concludeSync request token _ _ = concluded at hsync houtcome
    obtain ⟨⟨current, token'⟩, after⟩ := concluded
    cases hsync
    exact houtcome.coloredBy hstatus
  refine ⟨hpublished, fun earlier hearlier => ?_⟩
  have hquiet (round : Step) (hround : round ∈ earlier) : round.BringsNoValues :=
    (hrounds round (hearlier.mem hround)).2
  have hasks (round : Step) (hround : round ∈ earlier) : round.operation.AsksValues :=
    (hrounds round (hearlier.mem hround)).1
  refine ⟨?_, fun report hreport => ?_, ?_⟩
  · exact sameData_runAll (fun round hround => (hquiet round hround).keepsData) held synced
  · exact token_of_mem_runAll hurl (fun round hround => (hasks round hround).leavesToken)
      (fun round hround => (hquiet round hround).revision?_eq_none) hreport
  · rintro before operation answer others rfl hanswer
    have hlast : .mk operation answer others ∈ before ++ [.mk operation answer others] :=
      List.mem_append_right _ List.mem_cons_self
    calc (runAll source held (before ++ [.mk operation answer others]) synced).2.snapshot
      _ = { synced.snapshot with availability := .available } :=
        snapshot_runAll_of_notModified hurl
          (fun round hround => (hasks round (List.mem_append_left _ hround)).leavesToken)
          (fun round hround => hquiet round (List.mem_append_left _ hround))
          (hasks _ hlast) (hquiet _ hlast) hanswer held synced
      _ = synced.snapshot := by rw [← hpublished.1]

/-- A server breaks down, loses the values, cannot be reached and says that they are current. -/
theorem runAll_recovers_three_failures :
    let source : Source := ⟨⟨"Monaco", 0⟩, 0, ⟨some "https://localhost/"⟩⟩
    let session : Session := { snapshot := { keys := [⟨5, 0, .forward⟩] } }
    let sent : Response := ({ status := .ok, body := Values.encode [.g0] } : Response).withHeader
      revisionHeader "rev-1"
    let failures : List Step :=
      [.mk .sync (.response { status := ⟨503, by decide⟩ }) [],
        .mk .fetchValues (.response { status := .notFound }) [],
        .mk .sync (.fault "no response") [.mk .fetchValues (.fault "no response") []]]
    let recovery : Step := .mk .sync (.response { status := .notModified }) []
    ∃ synced,
      run source "" (.mk .sync (.response sent) []) session =
        (.mk (.synced true) "rev-1" [], synced) ∧
      (runAll source "rev-1" failures synced).2.snapshot =
        { synced.snapshot with availability := .unknown } ∧
      (runAll source "rev-1" (failures ++ [recovery]) synced).2.snapshot = synced.snapshot := by
  intro source session sent failures recovery
  have hstatus : sent.status = .ok := rfl
  have hvalues : Values.decode sent.body = .ok [.g0] := Values.decode_encode (by decide)
  have hheader : sent.header? revisionHeader = some "rev-1" := by
    simp [sent, Response.header?, Response.withHeader]
  have hremote : source.remote.isConfigured := rfl
  obtain ⟨request, hrequest⟩ := Source.exists_valuesRequest? hremote ""
  let synced : Session := (session.noted (.request request)).withColoring
    (.ofList [(⟨5, 0, .forward⟩, .g0)])
  have hsync : run source "" (.mk .sync (.response sent) []) session =
      (.mk (.synced true) "rev-1" [], synced) := by
    have hcolored : (session.noted (.request request)).colored [.g0] = (.ok (), synced) :=
      Session.colored_of_length rfl
    rw [run_sync_of_decode hrequest hstatus hvalues, hheader, hcolored]
    rfl
  have hrounds : ∀ round ∈ failures ++ [recovery],
      round.operation.AsksValues ∧ round.BringsNoValues := by
    simp only [failures, recovery, List.cons_append, List.nil_append, List.forall_mem_cons]
    refine ⟨⟨.sync, .undisturbed .sync (by decide)⟩,
      ⟨.fetchValues, .undisturbed .fetchValues (by decide)⟩,
      ⟨.sync, .round .sync (by decide) ?_⟩,
      ⟨.sync, .undisturbed .sync (by decide)⟩, List.forall_mem_nil _⟩
    exact List.forall_mem_singleton.mpr (.undisturbed .fetchValues (by decide))
  obtain ⟨-, hrecovers⟩ := runAll_recovers hsync hstatus hrounds
  refine ⟨synced, hsync, ?_, ?_⟩
  · rfl
  · exact (hrecovers _ List.prefix_rfl).2.2 failures .sync _ [] rfl rfl

end Step

end RoadTraffic
