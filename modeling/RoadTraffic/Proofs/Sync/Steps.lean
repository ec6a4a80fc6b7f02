import RoadTraffic.Proofs.Sync.Conclusions
import RoadTraffic.Sync.Script

/-!
# Steps of a session

A step notes its request, lets others run, and concludes with the reply on the session that they
leave behind.

* `Step.wait`: the session to which a reply comes in.
* `Step.run_fetchKeys`/`run_loadKeys_web`/`run_sync`, …: the steps in terms of conclusions.
* `Step.rel_runAll`: what every step may do to a session, steps one after the other may do.
* `Step.keysLoaded_concludeSection`/`keysLoaded_concludeKeys`: keys on offer are put in place, and
  if there are none nothing is (`KeysLoaded`).
* `Step.LoadsKeys.installsKeys`: steps that load keys, overlapping or not, change the keys a reader
  sees or nothing, and only to keys that were unpacked (`KeysInstalled`).
* `Step.syncOutcome_concludeSync`: what a round of synchronization may come to (`SyncOutcome`).
* `Step.run_sync_cases`: what a round of synchronization may come to while others load keys.
-/

namespace RoadTraffic

namespace Session

/-- The session after one more `occurrence`. -/
def noted (session : Session) (occurrence : Occurrence) : Session :=
  { session with trace := session.trace ++ [occurrence] }

end Session

/-- The answer is a response of status `.ok` with packed `keys` in its body. -/
def Answer.SendsKeys (answer : Answer) (keys : List SegmentId) : Prop :=
  ∃ response, answer = .response response ∧ response.status = .ok ∧
    Keys.decode response.body = .ok keys

namespace Step

variable {source : Source} {token : String} {answer : Answer} {meanwhile : List Step}
  {session : Session} {request : Request}

/-- The session to which a reply to `request` comes in, and what others report until then. -/
def wait (source : Source) (request : Request) (meanwhile : List Step) (session : Session) :
    List StepReport × Session :=
  runAll source "" meanwhile (session.noted (.request request))

theorem run_fetchKeys (h : source.keysRequest? = some request) :
    run source token (.mk .fetchKeys answer meanwhile) session =
      let (reports, session) := wait source request meanwhile session
      let (result, session) := source.concludeKeys request (answer.reply request) session
      (.mk (.ofExcept result) token reports, session) := by
  unfold run
  simp only [Operation.run, Source.fetchKeys_eq, h]
  rfl

theorem run_fetchKeys_noServer (h : source.keysRequest? = none) :
    run source token (.mk .fetchKeys answer meanwhile) session =
      (.mk (.failed .noServer) token [], session) := by
  unfold run
  simp only [Operation.run, Source.fetchKeys_eq, h]
  rfl

theorem run_loadKeys_section {bytes : Bytes} :
    run source token (.mk (.loadKeys (.ok (some bytes))) answer meanwhile) session =
      let (result, session) := source.warned (source.concludeSection bytes session)
      (.mk (.ofExcept result) token [], session) := by
  unfold run
  simp only [Operation.run, Source.loadKeys_eq]
  rfl

theorem run_loadKeys_fault {fault : FileFault} :
    run source token (.mk (.loadKeys (.error fault)) answer meanwhile) session =
      let (result, session) := source.warned (.error (.localKeys fault), session)
      (.mk (.ofExcept result) token [], session) := by
  unfold run
  simp only [Operation.run, Source.loadKeys_eq]
  rfl

theorem run_loadKeys_web (h : source.keysRequest? = some request) :
    run source token (.mk (.loadKeys (.ok none)) answer meanwhile) session =
      let (reports, session) := wait source request meanwhile (source.webAnnounced session)
      let (result, session) :=
        source.warned (source.concludeKeys request (answer.reply request) session)
      (.mk (.ofExcept result) token reports, session) := by
  unfold run
  simp only [Operation.run, Source.loadKeys_eq, h]
  rfl

theorem run_loadKeys_noServer (h : source.keysRequest? = none) :
    run source token (.mk (.loadKeys (.ok none)) answer meanwhile) session =
      let (result, session) := source.warned (.error .noServer, source.webAnnounced session)
      (.mk (.ofExcept result) token [], session) := by
  unfold run
  simp only [Operation.run, Source.loadKeys_eq, h]
  rfl

theorem run_sync (h : source.valuesRequest? token = some request) :
    run source token (.mk .sync answer meanwhile) session =
      let (reports, session) := wait source request meanwhile session
      let ((current, token), session) :=
        source.concludeSync request token (answer.reply request) session
      (.mk (.synced current) token reports, session) := by
  unfold run
  simp only [Operation.run, Source.sync_eq, h]
  rfl

theorem run_sync_noServer (h : source.valuesRequest? token = none) :
    run source token (.mk .sync answer meanwhile) session =
      (.mk (.synced false) token [], session.logged [source.failedRound .noServer]) := by
  unfold run
  simp only [Operation.run, Source.sync_eq, h]
  rfl

theorem runAll_cons {step : Step} {steps : List Step} {result : OperationResult}
    {token' : String} {reports : List StepReport} {middle : Session}
    (h : run source token step session = (.mk result token' reports, middle)) :
    runAll source token (step :: steps) session =
      (.mk result token' reports :: (runAll source token' steps middle).1,
        (runAll source token' steps middle).2) := by
  rw [runAll, h]

/-- What every step may do to a session (`R`), steps one after the other may do, if doing nothing
and doing one thing after another may be done. -/
theorem rel_runAll {R : Session → Session → Prop} (hrefl : ∀ session, R session session)
    (htrans : ∀ {session middle after}, R session middle → R middle after → R session after)
    {steps : List Step}
    (h : ∀ step ∈ steps, ∀ token session, R session (run source token step session).2)
    (token : String) (session : Session) : R session (runAll source token steps session).2 := by
  induction steps generalizing token session with
  | nil =>
    rw [runAll]
    exact hrefl session
  | cons step steps ih =>
    obtain ⟨hstep, hsteps⟩ := List.forall_mem_cons.mp h
    have hfirst := hstep token session
    cases hrun : run source token step session with
    | mk report middle =>
      obtain ⟨result, token', reports⟩ := report
      rw [hrun] at hfirst
      rw [runAll_cons hrun]
      exact htrans hfirst (ih hsteps token' middle)

/-! ## Steps to which something was sent -/

section Sent

variable {response : Response}

theorem run_fetchKeys_of_decode {keys : List SegmentId}
    (hrequest : source.keysRequest? = some request) (hstatus : response.status = .ok)
    (hkeys : Keys.decode response.body = .ok keys) :
    run source token (.mk .fetchKeys (.response response) []) session =
      (.mk .done token [], (session.noted (.request request)).withKeys keys) := by
  rw [run_fetchKeys hrequest]
  simp only [wait, runAll, Answer.reply, Source.concludeKeys_of_decode hstatus hkeys]
  rfl

theorem run_loadKeys_of_decode {bytes : Bytes} {keys : List SegmentId}
    (hkeys : Keys.decode bytes = .ok keys) (answer : Answer) :
    run source token (.mk (.loadKeys (.ok (some bytes))) answer meanwhile) session =
      (.mk .done token [], (session.logged [Source.record .info
        "Reading traffic keys from section" [source.editionField]]).withKeys keys) := by
  rw [run_loadKeys_section]
  unfold Source.concludeSection
  rw [hkeys]
  rfl

theorem run_sync_of_decode {values : List SpeedGroup}
    (hrequest : source.valuesRequest? token = some request) (hstatus : response.status = .ok)
    (hvalues : Values.decode response.body = .ok values) :
    run source token (.mk .sync (.response response) []) session =
      let (result, after) := (session.noted (.request request)).colored values
      (.mk (.synced result.isOk) ((response.header? revisionHeader).getD token) [], after) := by
  rw [run_sync hrequest]
  simp only [wait, runAll, Answer.reply, Source.concludeSync_of_decode hstatus hvalues]

theorem run_sync_of_notModified (hrequest : source.valuesRequest? token = some request)
    (hstatus : response.status = .notModified) :
    run source token (.mk .sync (.response response) []) session =
      (.mk (.synced true) token [],
        (session.noted (.request request)).settled .available none) := by
  rw [run_sync hrequest]
  simp only [wait, runAll, Answer.reply, Source.concludeSync_of_notModified hstatus]

end Sent

/-! ## Loading keys -/

/-- The step loads keys, and so do those that others run while it waits. -/
inductive LoadsKeys : Step → Prop where
  | loadKeys {reading : SectionReading} {answer : Answer} {meanwhile : List Step}
      (h : ∀ step ∈ meanwhile, LoadsKeys step) :
      LoadsKeys (.mk (.loadKeys reading) answer meanwhile)
  | fetchKeys {answer : Answer} {meanwhile : List Step}
      (h : ∀ step ∈ meanwhile, LoadsKeys step) :
      LoadsKeys (.mk .fetchKeys answer meanwhile)

/-- A reader sees what it saw `before`, except that keys may have been put in place that some bytes
unpack to. -/
def KeysInstalled (before after : Snapshot) : Prop :=
  after = before ∨
    ∃ bytes keys, Keys.decode bytes = .ok keys ∧ after = { before with keys }

theorem KeysInstalled.trans {before middle after : Snapshot} (h : KeysInstalled before middle)
    (h' : KeysInstalled middle after) : KeysInstalled before after := by
  obtain rfl | ⟨bytes, keys, hkeys, rfl⟩ := h'
  · exact h
  · refine .inr ⟨bytes, keys, hkeys, ?_⟩
    obtain rfl | ⟨_, _, _, rfl⟩ := h <;> rfl

/-- What loading keys comes to: its result, and what a reader sees then who saw `before`. -/
inductive KeysOutcome (before : Snapshot) : Except SyncError Unit → Snapshot → Prop where
  /-- Keys were put in place that some bytes unpack to. -/
  | loaded {bytes : Bytes} {keys : List SegmentId} (hkeys : Keys.decode bytes = .ok keys) :
      KeysOutcome before (.ok ()) { before with keys }
  | failed (cause : SyncError) : KeysOutcome before (.error cause) before

theorem KeysOutcome.keysInstalled {before after : Snapshot} {result : Except SyncError Unit}
    (h : KeysOutcome before result after) : KeysInstalled before after := by
  cases h with
  | loaded hkeys => exact .inr ⟨_, _, hkeys, rfl⟩
  | failed cause => exact .inl rfl

theorem KeysOutcome.warned {before : Snapshot} (source : Source)
    {concluded : Except SyncError Unit × Session}
    (h : KeysOutcome before concluded.1 concluded.2.snapshot) :
    KeysOutcome before (source.warned concluded).1 (source.warned concluded).2.snapshot := by
  obtain ⟨result, session⟩ := concluded
  cases result <;> exact h

/-- What loading keys comes to if `IsOffered` holds of the keys on offer: they are put in place, and
if there are none nothing is. -/
inductive KeysLoaded (IsOffered : List SegmentId → Prop) (before : Snapshot) :
    Except SyncError Unit × Session → Prop where
  | installed {keys : List SegmentId} {after : Session} (hkeys : IsOffered keys)
      (hafter : after.snapshot = { before with keys }) : KeysLoaded IsOffered before (.ok (), after)
  | failed {cause : SyncError} {after : Session} (hkeys : ∀ keys, ¬ IsOffered keys)
      (hafter : after.snapshot = before) : KeysLoaded IsOffered before (.error cause, after)

section KeysLoaded

variable {IsOffered : List SegmentId → Prop} {before : Snapshot}
  {concluded : Except SyncError Unit × Session}

theorem KeysLoaded.of_iff {IsOffered' : List SegmentId → Prop}
    (h : KeysLoaded IsOffered before concluded) (hiff : ∀ keys, IsOffered' keys ↔ IsOffered keys) :
    KeysLoaded IsOffered' before concluded := by
  cases h with
  | installed hkeys hafter => exact .installed ((hiff _).mpr hkeys) hafter
  | failed hkeys hafter => exact .failed (fun keys => mt (hiff keys).mp (hkeys keys)) hafter

theorem KeysLoaded.warned (h : KeysLoaded IsOffered before concluded) (source : Source) :
    KeysLoaded IsOffered before (source.warned concluded) := by
  cases h with
  | installed hkeys hafter => exact .installed hkeys hafter
  | failed hkeys hafter => exact .failed hkeys hafter

theorem KeysLoaded.keysOutcome (h : KeysLoaded IsOffered before concluded)
    (hdecode : ∀ keys, IsOffered keys → ∃ bytes, Keys.decode bytes = .ok keys) :
    KeysOutcome before concluded.1 concluded.2.snapshot := by
  cases h with
  | installed hkeys hafter =>
    obtain ⟨bytes, hbytes⟩ := hdecode _ hkeys
    exact hafter ▸ .loaded hbytes
  | failed hkeys hafter => exact hafter ▸ .failed _

end KeysLoaded

theorem keysLoaded_concludeSection (source : Source) (bytes : Bytes) (session : Session) :
    KeysLoaded (Keys.decode bytes = .ok ·) session.snapshot
      (source.concludeSection bytes session) := by
  unfold Source.concludeSection
  dsimp only
  cases hkeys : Keys.decode bytes with
  | ok keys => exact .installed rfl rfl
  | error e => exact .failed nofun rfl

theorem keysLoaded_concludeKeys (source : Source) (request : Request) (answer : Answer)
    (session : Session) :
    KeysLoaded answer.SendsKeys session.snapshot
      (source.concludeKeys request (answer.reply request) session) := by
  unfold Source.concludeKeys Source.judgeKeys
  cases answer with
  | fault text => exact .failed (by simp [Answer.SendsKeys]) rfl
  | response response =>
    dsimp only [Answer.reply]
    by_cases hstatus : response.status = .ok
    · rw [if_neg (not_not.mpr hstatus)]
      cases hkeys : Keys.decode response.body with
      | ok keys => exact .installed ⟨response, rfl, hstatus, hkeys⟩ rfl
      | error e => exact .failed (by simp [Answer.SendsKeys, hkeys]) rfl
    · rw [if_pos hstatus]
      exact .failed (by simp [Answer.SendsKeys, hstatus]) rfl

theorem keysOutcome_concludeKeys (source : Source) (request : Request) (answer : Answer)
    (session : Session) :
    KeysOutcome session.snapshot (source.concludeKeys request (answer.reply request) session).1
      (source.concludeKeys request (answer.reply request) session).2.snapshot :=
  (keysLoaded_concludeKeys source request answer session).keysOutcome
    fun _ ⟨response, _, _, hkeys⟩ => ⟨response.body, hkeys⟩

theorem keysOutcome_concludeSection (source : Source) (bytes : Bytes) (session : Session) :
    KeysOutcome session.snapshot (source.concludeSection bytes session).1
      (source.concludeSection bytes session).2.snapshot :=
  (keysLoaded_concludeSection source bytes session).keysOutcome fun _ hkeys => ⟨bytes, hkeys⟩

theorem keysInstalled_concludeKeys (source : Source) (request : Request) (answer : Answer)
    (session : Session) :
    KeysInstalled session.snapshot
      (source.concludeKeys request (answer.reply request) session).2.snapshot :=
  (keysOutcome_concludeKeys source request answer session).keysInstalled

theorem keysInstalled_concludeSection (source : Source) (bytes : Bytes) (session : Session) :
    KeysInstalled session.snapshot (source.concludeSection bytes session).2.snapshot :=
  (keysOutcome_concludeSection source bytes session).keysInstalled

theorem KeysInstalled.warned {before : Snapshot} (source : Source)
    {concluded : Except SyncError Unit × Session} (h : KeysInstalled before concluded.2.snapshot) :
    KeysInstalled before (source.warned concluded).2.snapshot := by
  obtain ⟨result, session⟩ := concluded
  cases result <;> exact h

/-- The step leaves its caller the `token` it holds, and a reader may find keys put in place. -/
def InstallsKeys (source : Source) (step : Step) : Prop :=
  ∀ token session, ∃ result reports after,
    run source token step session = (.mk result token reports, after) ∧
      KeysInstalled session.snapshot after.snapshot

theorem keysInstalled_runAll {steps : List Step}
    (h : ∀ step ∈ steps, InstallsKeys source step) (token : String) (session : Session) :
    KeysInstalled session.snapshot (runAll source token steps session).2.snapshot := by
  refine rel_runAll (R := fun before after => KeysInstalled before.snapshot after.snapshot)
    (fun _ => .inl rfl) KeysInstalled.trans (fun step hstep token session => ?_) token session
  obtain ⟨result, reports, after, hrun, hafter⟩ := h step hstep token session
  rw [hrun]
  exact hafter

theorem keysInstalled_wait (h : ∀ step ∈ meanwhile, InstallsKeys source step) (request : Request)
    (session : Session) :
    KeysInstalled session.snapshot (wait source request meanwhile session).2.snapshot :=
  keysInstalled_runAll h "" (session.noted (.request request))

theorem installsKeys_fetchKeys (h : ∀ step ∈ meanwhile, InstallsKeys source step)
    (answer : Answer) : InstallsKeys source (.mk .fetchKeys answer meanwhile) := by
  intro token session
  cases hrequest : source.keysRequest? with
  | none => exact ⟨_, _, _, run_fetchKeys_noServer hrequest, .inl rfl⟩
  | some request =>
    have hwait := keysInstalled_wait h request session
    exact ⟨_, _, _, run_fetchKeys hrequest,
      hwait.trans (keysInstalled_concludeKeys source request _ _)⟩

theorem installsKeys_loadKeys (h : ∀ step ∈ meanwhile, InstallsKeys source step)
    (reading : SectionReading) (answer : Answer) :
    InstallsKeys source (.mk (.loadKeys reading) answer meanwhile) := by
  intro token session
  match reading with
  | .error fault => exact ⟨_, _, _, run_loadKeys_fault, .inl rfl⟩
  | .ok (some bytes) =>
    have hsection := keysInstalled_concludeSection source bytes session
    exact ⟨_, _, _, run_loadKeys_section, hsection.warned source⟩
  | .ok none =>
    cases hrequest : source.keysRequest? with
    | none => exact ⟨_, _, _, run_loadKeys_noServer hrequest, .inl rfl⟩
    | some request =>
      have hwait := keysInstalled_wait h request (source.webAnnounced session)
      have hkeys := keysInstalled_concludeKeys source request answer
        (wait source request meanwhile (source.webAnnounced session)).2
      exact ⟨_, _, _, run_loadKeys_web hrequest, hwait.trans (hkeys.warned source)⟩

theorem LoadsKeys.installsKeys {step : Step} (h : LoadsKeys step) : InstallsKeys source step := by
  induction h with
  | @loadKeys reading answer meanwhile _ ih => exact installsKeys_loadKeys ih reading answer
  | @fetchKeys answer meanwhile _ ih => exact installsKeys_fetchKeys ih answer

/-! ## Synchronizing -/

/-- What a round of synchronization comes to: its verdict, the revision token after it and what a
reader sees then who saw `before`. -/
inductive SyncOutcome (answer : Answer) (token : String) (before : Snapshot) :
    Bool → String → Snapshot → Prop where
  /-- As many values as keys were sent. -/
  | accepted {response : Response} {values : List SpeedGroup}
      (hanswer : answer = .response response) (hstatus : response.status = .ok)
      (hvalues : Values.decode response.body = .ok values)
      (hlength : before.keys.length = values.length) :
      SyncOutcome answer token before true ((response.header? revisionHeader).getD token)
        { before with
          coloring := .ofList (before.keys.zip values)
          availability := .available
          published := before.published + 1 }
  /-- More or fewer values than keys were sent; the token is theirs nonetheless. -/
  | rejected {response : Response} {values : List SpeedGroup}
      (hanswer : answer = .response response) (hstatus : response.status = .ok)
      (hvalues : Values.decode response.body = .ok values)
      (hlength : before.keys.length ≠ values.length) :
      SyncOutcome answer token before false ((response.header? revisionHeader).getD token)
        { before with availability := .noData }
  /-- The values of the token were said to be current. -/
  | unchanged {response : Response} (hanswer : answer = .response response)
      (hstatus : response.status = .notModified) :
      SyncOutcome answer token before true token { before with availability := .available }
  /-- No values came in. -/
  | failed (availability : Availability) :
      SyncOutcome answer token before false token { before with availability }

theorem syncOutcome_concludeSync (source : Source) (request : Request) (token : String)
    (answer : Answer) (session : Session) :
    let ((current, token'), after) :=
      source.concludeSync request token (answer.reply request) session
    SyncOutcome answer token session.snapshot current token' after.snapshot := by
  have hjudges := source.judges_judgeValues request token (answer.reply request)
  unfold Source.concludeSync Source.settleRound
  generalize source.judgeValues request token (answer.reply request) = judgement at hjudges ⊢
  cases answer with
  | fault text =>
    cases hjudges with
    | unanswered => exact .failed .unknown
  | response response =>
    cases hjudges with
    | @unpacked _ values hstatus hvalues =>
      dsimp only
      -- New values: whether they are accepted is up to their number.
      rw [Session.logged_nil]
      by_cases hlength : session.snapshot.keys.length = values.length
      · rw [Session.colored_of_length hlength]
        exact .accepted rfl hstatus hvalues hlength
      · rw [Session.colored_of_length_ne hlength]
        exact .rejected rfl hstatus hvalues hlength
    | damaged hstatus hvalues => exact .failed .noData
    | missing hstatus => exact .failed _
    | unchanged hstatus => exact .unchanged rfl hstatus
    | refused hok hmissing hunchanged => exact .failed .unknown

/-- While others load keys, a round has one of these outcomes, for the keys that they leave
(`middle`). -/
theorem run_sync_cases (hrequest : source.valuesRequest? token = some request)
    (hmeanwhile : ∀ step ∈ meanwhile, LoadsKeys step) (answer : Answer) (session : Session) :
    ∃ middle current token' reports after,
      run source token (.mk .sync answer meanwhile) session =
        (.mk (.synced current) token' reports, after) ∧
      KeysInstalled session.snapshot middle ∧
      SyncOutcome answer token middle current token' after.snapshot :=
  ⟨_, _, _, _, _, run_sync hrequest,
    keysInstalled_wait (fun step hstep => (hmeanwhile step hstep).installsKeys) request session,
    syncOutcome_concludeSync source request token answer
      (wait source request meanwhile session).2⟩

end Step

end RoadTraffic
