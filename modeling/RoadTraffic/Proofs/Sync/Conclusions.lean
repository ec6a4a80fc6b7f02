import Mathlib
import RoadTraffic.Sync.Operations

/-!
# What operations make of a reply

An operation touches the session before it sends its request and after the reply has come in, but
not in between. What it does afterwards is a function of the request, the reply and the session at
that time, its conclusion.

* `Session.logged`/`settled`/`withKeys`/`withColoring`/`withMismatch`/`colored`: the steps of
  operations as changes of the session.
* `Source.concludeKeys`/`concludeSection`/`concludeValues`/`concludeSync`: the conclusions.
* `Source.fetchKeys_eq`/`loadKeys_eq`/`fetchValues_eq`/`sync_eq`: the operations as
  `send request >>= fun reply => modifyGet (conclude request reply)`.
* `Source.Judges source request token reply judgement`: what a reply to a request for values is
  taken for.
-/

namespace RoadTraffic

namespace Session

/-- The session with more log `records`. -/
def logged (session : Session) (records : List LogRecord) : Session :=
  { session with trace := session.trace ++ records.map .record }

/-- The session with another verdict (`availability`), and with the event that goes with it. -/
def settled (session : Session) (availability : Availability) (event : Option TrafficEvent) :
    Session :=
  let snapshot := { session.snapshot with availability }
  { snapshot, trace := session.trace ++ (event.map (.event · snapshot)).toList }

/-- The session with other keys. -/
def withKeys (session : Session) (keys : List SegmentId) : Session :=
  { session with snapshot := { session.snapshot with keys } }

/-- The session with another coloring, which is trusted. -/
def withColoring (session : Session) (coloring : Coloring) : Session :=
  { session with
    snapshot :=
      { session.snapshot with
        coloring
        availability := .available
        published := session.snapshot.published + 1 } }

/-- The session with the verdict and the log after values that were too many or too few
(`fault`). -/
def withMismatch (session : Session) (fault : LengthMismatch) : Session :=
  let distrusted := session.settled .noData none
  let warned := distrusted.logged [Source.record .warn
    "The number of received traffic values does not match the number of keys"
    [("keys", toString fault.keys), ("values", toString fault.values)]]
  warned.settled .noData (some (.updateError fault.keys fault.values))

/-- The session with the keys colored by `values`, and whether there were as many as keys. -/
def colored (session : Session) (values : List SpeedGroup) : Except SyncError Unit × Session :=
  match Coloring.ofParallel session.snapshot.keys values with
  | .ok coloring => (.ok (), session.withColoring coloring)
  | .error fault => (.error (.coloring fault), session.withMismatch fault)

@[simp] theorem logged_nil (session : Session) : session.logged [] = session := by
  simp [logged]

theorem colored_of_length {session : Session} {values : List SpeedGroup}
    (h : session.snapshot.keys.length = values.length) :
    session.colored values =
      (.ok (), session.withColoring (.ofList (session.snapshot.keys.zip values))) := by
  rw [colored, Coloring.ofParallel, if_pos h]

theorem colored_of_length_ne {session : Session} {values : List SpeedGroup}
    (h : session.snapshot.keys.length ≠ values.length) :
    session.colored values =
      (.error (.coloring ⟨session.snapshot.keys.length, values.length⟩),
        session.withMismatch ⟨session.snapshot.keys.length, values.length⟩) := by
  rw [colored, Coloring.ofParallel, if_neg h]

/-! ## Changes of a session -/

variable {m : Type → Type} [Monad m] [LawfulMonad m]

omit [LawfulMonad m] in
theorem modify_eq (change : Session → Session) :
    (modify change : SessionT m Unit) = modifyGet fun session => ((), change session) := rfl

/-- What comes after a `change` starts from the changed session. -/
theorem modifyGet_bind {α β : Type} (change : Session → α × Session) (next : α → SessionT m β)
    (session : Session) :
    (modifyGet change >>= next) session = next (change session).1 (change session).2 :=
  pure_bind _ _

theorem settle_eq (availability : Availability) (event : Option TrafficEvent) :
    settle (m := m) availability event = modify (·.settled availability event) := by
  funext session
  refine (modifyGet_bind _ _ session).trans ?_
  cases event with
  | none => simp [settled, modify_eq, modifyGet, MonadStateOf.modifyGet, StateT.modifyGet, pure,
      StateT.pure]
  | some event => rfl

theorem updateValues_eq (values : List SpeedGroup) :
    updateValues (m := m) values = modifyGet (·.colored values) := by
  funext session
  refine (modifyGet_bind _ _ session).trans ?_
  show _ = pure (session.colored values)
  by_cases hlength : session.snapshot.keys.length = values.length
  · rw [colored_of_length hlength, Coloring.ofParallel, if_pos hlength]
    exact modifyGet_bind _ _ session
  · rw [colored_of_length_ne hlength, Coloring.ofParallel, if_neg hlength]
    refine (modifyGet_bind _ _ session).trans ?_
    refine (modifyGet_bind _ _ _).trans ?_
    refine (modifyGet_bind _ _ _).trans ?_
    simp [withMismatch, settled, logged, pure, StateT.pure]

end Session

namespace Source

variable {m : Type → Type} [Monad m] [LawfulMonad m]

/-! ## Requests -/

theorem exists_keysRequest? {source : Source} (h : source.remote.isConfigured) :
    ∃ request, source.keysRequest? = some request := by
  obtain ⟨base, hbase⟩ := Option.isSome_iff_exists.mp h
  simp [keysRequest?, Remote.keysUrl?, Remote.valuesUrl?, hbase]

theorem exists_valuesRequest? {source : Source} (h : source.remote.isConfigured)
    (token : String) : ∃ request, source.valuesRequest? token = some request := by
  obtain ⟨base, hbase⟩ := Option.isSome_iff_exists.mp h
  simp [valuesRequest?, Remote.valuesUrl?, hbase]

/-- A request for values names the revision `token` under `ifNoneMatch`, if there is one. -/
theorem header?_of_valuesRequest? {source : Source} {token : String} {request : Request}
    (h : source.valuesRequest? token = some request) :
    request.header? ifNoneMatch = if token.isEmpty then none else some token := by
  unfold valuesRequest? at h
  obtain ⟨url, -, rfl⟩ := Option.map_eq_some_iff.mp h
  by_cases hempty : token.isEmpty
  · simp [hempty, Request.header?]
  · simp [hempty, Request.header?, Request.withHeader]

/-! ## Keys -/

/-- What fetching keys makes of `reply`. -/
def concludeKeys (source : Source) (request : Request) (reply : Reply) (session : Session) :
    Except SyncError Unit × Session :=
  match source.judgeKeys request reply with
  | (.ok keys, records) => (.ok (), (session.logged records).withKeys keys)
  | (.error e, records) => (.error e, session.logged records)

/-- A failure to come by keys, with a warning of it in the log. -/
def warned (source : Source) : Except SyncError Unit × Session → Except SyncError Unit × Session
  | (.ok (), session) => (.ok (), session)
  | (.error e, session) =>
    (.error e, session.logged [record .warn "Could not initialize traffic keys"
      [source.editionField, ("error", e.message)]])

/-- What loading keys makes of `bytes`, a local key list. -/
def concludeSection (source : Source) (bytes : Bytes) (session : Session) :
    Except SyncError Unit × Session :=
  let session := session.logged
    [record .info "Reading traffic keys from section" [source.editionField]]
  match Keys.decode bytes with
  | .ok keys => (.ok (), session.withKeys keys)
  | .error e => (.error (.keys e), session)

/-- The session of a caller that finds no local key list. -/
def webAnnounced (source : Source) (session : Session) : Session :=
  session.logged [record .info "Reading traffic keys from the web" [source.editionField]]

theorem fetchKeys_eq (source : Source) (send : Request → SessionT m Reply) :
    source.fetchKeys send =
      match source.keysRequest? with
      | none => pure (.error .noServer)
      | some request => send request >>= fun reply =>
          modifyGet (source.concludeKeys request reply) := by
  unfold fetchKeys
  cases source.keysRequest? with
  | none => rfl
  | some request =>
    refine bind_congr fun reply => funext fun session => ?_
    show _ = pure (source.concludeKeys request reply session)
    unfold concludeKeys
    generalize source.judgeKeys request reply = judged
    obtain ⟨result, records⟩ := judged
    refine (Session.modifyGet_bind _ _ session).trans ?_
    cases result with
    | ok keys => exact Session.modifyGet_bind _ _ _
    | error e => rfl

/-- A warning put after a conclusion is part of it: the two changes are one `modifyGet`. -/
theorem modifyGet_bind_warning (source : Source)
    (conclude : Session → Except SyncError Unit × Session) :
    ((modifyGet conclude : SessionT m (Except SyncError Unit)) >>= fun result => do
      match result with
      | .ok () => pure ()
      | .error e =>
        Session.log [record .warn "Could not initialize traffic keys"
          [source.editionField, ("error", e.message)]]
      return result) = modifyGet fun session => source.warned (conclude session) := by
  funext session
  refine (Session.modifyGet_bind _ _ session).trans ?_
  show _ = pure (source.warned (conclude session))
  generalize conclude session = concluded
  obtain ⟨result, session⟩ := concluded
  cases result with
  | ok value => rfl
  | error e => exact Session.modifyGet_bind _ _ _

theorem initializeKeys_eq_section (source : Source) (send : Request → SessionT m Reply)
    (bytes : Bytes) : source.initializeKeys send (.ok (some bytes)) =
      modifyGet (source.concludeSection bytes) := by
  funext session
  show _ = pure (source.concludeSection bytes session)
  unfold concludeSection initializeKeys
  dsimp only
  generalize Keys.decode bytes = decoded
  refine (Session.modifyGet_bind _ _ session).trans ?_
  cases decoded with
  | ok keys => exact Session.modifyGet_bind _ _ _
  | error e => rfl

theorem loadKeys_eq (source : Source) (send : Request → SessionT m Reply)
    (reading : SectionReading) :
    source.loadKeys send reading =
      match reading with
      | .ok (some bytes) => modifyGet fun session =>
          source.warned (source.concludeSection bytes session)
      | .ok none => modify source.webAnnounced >>= fun _ =>
          match source.keysRequest? with
          | none => modifyGet fun session => source.warned (.error .noServer, session)
          | some request => send request >>= fun reply =>
              modifyGet fun session => source.warned (source.concludeKeys request reply session)
      | .error fault => modifyGet fun session =>
          source.warned (.error (.localKeys fault), session) := by
  unfold loadKeys
  match reading with
  | .error fault =>
    exact source.modifyGet_bind_warning fun session => (.error (.localKeys fault), session)
  | .ok (some bytes) =>
    rw [initializeKeys_eq_section]
    exact source.modifyGet_bind_warning (source.concludeSection bytes)
  | .ok none =>
    unfold initializeKeys
    rw [bind_assoc, fetchKeys_eq]
    refine bind_congr fun _ => ?_
    cases source.keysRequest? with
    | none => exact source.modifyGet_bind_warning fun session => (.error .noServer, session)
    | some request =>
      rw [bind_assoc]
      exact bind_congr fun reply => source.modifyGet_bind_warning _

/-! ## Values -/

theorem requestValues_eq (source : Source) (send : Request → SessionT m Reply) (token : String) :
    source.requestValues send token =
      match source.valuesRequest? token with
      | none => pure none
      | some request => send request >>= fun reply => modifyGet fun session =>
          (some (source.judgeValues request token reply),
            session.logged (source.judgeValues request token reply).records) := by
  unfold requestValues
  cases source.valuesRequest? token with
  | none => rfl
  | some request =>
    refine bind_congr fun reply => funext fun session => ?_
    exact Session.modifyGet_bind _ _ session

/-- What asking for values makes of `reply`. -/
def concludeValues (source : Source) (request : Request) (token : String) (reply : Reply)
    (session : Session) : (ValuesAnswer × String) × Session :=
  let judgement := source.judgeValues request token reply
  ((judgement.answer, judgement.token),
    (session.logged judgement.records).settled judgement.availability judgement.event)

theorem fetchValues_eq (source : Source) (send : Request → SessionT m Reply) (token : String) :
    source.fetchValues send token =
      match source.valuesRequest? token with
      | none => pure (.failed .noServer, token)
      | some request => send request >>= fun reply =>
          modifyGet (source.concludeValues request token reply) := by
  unfold fetchValues
  rw [requestValues_eq]
  cases source.valuesRequest? token with
  | none => exact pure_bind _ _
  | some request =>
    rw [bind_assoc]
    refine bind_congr fun reply => funext fun session => ?_
    refine (Session.modifyGet_bind _ _ session).trans ?_
    dsimp only
    rw [Session.settle_eq]
    exact Session.modifyGet_bind _ _ _

/-- The log record of a round that failed. -/
def failedRound (source : Source) (cause : SyncError) : LogRecord :=
  record .debug "Traffic sync failed" [source.editionField, ("error", cause.message)]

/-- What follows for a session from a `judgement` of values, and whether the coloring is taken to be
current. -/
def settleRound (source : Source) (judgement : ValuesJudgement) (session : Session) :
    Bool × Session :=
  match judgement.answer with
  | .new values =>
    match session.colored values with
    | (.ok (), session) => (true, session)
    | (.error _, session) => (false, session)
  | .notChanged => (true, session.settled judgement.availability judgement.event)
  | .notFound => (false, session.settled judgement.availability judgement.event)
  | .failed cause => (false, (session.settled judgement.availability judgement.event).logged
      [source.failedRound cause])

theorem settleRound_of_new {judgement : ValuesJudgement} {values : List SpeedGroup}
    (h : judgement.answer = .new values) (source : Source) (session : Session) :
    source.settleRound judgement session =
      ((session.colored values).1.isOk, (session.colored values).2) := by
  unfold settleRound
  rw [h]
  dsimp only
  generalize session.colored values = colored
  obtain ⟨result, after⟩ := colored
  cases result <;> rfl

/-- Without new values all that remains to be done is to publish the verdict: the coloring is taken
to be current exactly if the answer is `.notChanged`. -/
theorem settleRound_of_not_new {judgement : ValuesJudgement}
    (h : ∀ values, judgement.answer ≠ .new values) (source : Source) :
    ∃ records, ∀ session, source.settleRound judgement session =
      (decide (judgement.answer = .notChanged),
        (session.settled judgement.availability judgement.event).logged records) := by
  unfold settleRound
  cases hanswer : judgement.answer with
  | new values => exact absurd hanswer (h values)
  | notChanged => exact ⟨[], by simp⟩
  | notFound => exact ⟨[], by simp⟩
  | failed cause => exact ⟨[source.failedRound cause], by simp⟩

/-- What a round of synchronization makes of `reply`. -/
def concludeSync (source : Source) (request : Request) (token : String) (reply : Reply)
    (session : Session) : (Bool × String) × Session :=
  let judgement := source.judgeValues request token reply
  let (current, session) := source.settleRound judgement (session.logged judgement.records)
  ((current, judgement.token), session)

theorem sync_eq (source : Source) (send : Request → SessionT m Reply) (token : String) :
    source.sync send token =
      match source.valuesRequest? token with
      | none => modifyGet fun session =>
          ((false, token), session.logged [source.failedRound .noServer])
      | some request => send request >>= fun reply =>
          modifyGet (source.concludeSync request token reply) := by
  unfold sync
  rw [requestValues_eq]
  cases source.valuesRequest? token with
  | none =>
    -- Without a server there is nothing to send, and the round fails at once.
    rw [pure_bind]
    exact funext fun session => Session.modifyGet_bind _ _ session
  | some request =>
    rw [bind_assoc]
    refine bind_congr fun reply => funext fun session => ?_
    refine (Session.modifyGet_bind _ _ session).trans ?_
    show _ = pure (source.concludeSync request token reply session)
    unfold concludeSync settleRound
    -- From here on it does not matter what the reply was, only what it was taken for.
    generalize source.judgeValues request token reply = judgement
    dsimp only
    cases judgement.answer with
    | new values =>
      dsimp only
      rw [Session.updateValues_eq]
      refine (Session.modifyGet_bind _ _ _).trans ?_
      generalize Session.colored _ values = colored
      obtain ⟨result, session'⟩ := colored
      cases result with
      | ok value => rfl
      | error e => rfl
    | notChanged =>
      dsimp only
      rw [Session.settle_eq]
      exact Session.modifyGet_bind _ _ _
    | notFound =>
      dsimp only
      rw [Session.settle_eq]
      exact Session.modifyGet_bind _ _ _
    | failed cause =>
      dsimp only
      rw [Session.settle_eq]
      refine (Session.modifyGet_bind _ _ _).trans ?_
      exact Session.modifyGet_bind _ _ _

/-! ## What a reply is taken for -/

/-- What `reply` to a request for values is taken for, and which token goes on with it. -/
inductive Judges (source : Source) (request : Request) (token : String) :
    Reply → ValuesJudgement → Prop where
  /-- No response came in. -/
  | unanswered {cause : TransportError} {records : List LogRecord} :
      Judges source request token (.error cause)
        { answer := .failed (.transport cause)
          availability := .unknown
          event := some (.networkError none)
          token, records }
  /-- Values were sent. -/
  | unpacked {response : Response} {values : List SpeedGroup} (hstatus : response.status = .ok)
      (hvalues : Values.decode response.body = .ok values) :
      Judges source request token (.ok response)
        { answer := .new values
          availability := .available
          token := (response.header? revisionHeader).getD token }
  /-- Something was sent that does not unpack. -/
  | damaged {response : Response} {fault : ValuesError} {records : List LogRecord}
      (hstatus : response.status = .ok) (hvalues : Values.decode response.body = .error fault) :
      Judges source request token (.ok response)
        { answer := .failed (.values fault)
          availability := .noData
          event := some (.readError source.edition.region source.edition.version)
          token, records }
  /-- There are no values for the edition. -/
  | missing {response : Response} {records : List LogRecord}
      (hstatus : response.status = .notFound) :
      Judges source request token (.ok response)
        { answer := .notFound
          availability := .ofMissing ((serverVersion? response.body).getD 0)
            source.edition.version source.dataVersion
          token, records }
  /-- The values of the token are still current. -/
  | unchanged {response : Response} (hstatus : response.status = .notModified) :
      Judges source request token (.ok response)
        { answer := .notChanged, availability := .available, token }
  /-- The server could not or would not tell. -/
  | refused {response : Response} {records : List LogRecord} (hok : response.status ≠ .ok)
      (hmissing : response.status ≠ .notFound) (hunchanged : response.status ≠ .notModified) :
      Judges source request token (.ok response)
        { answer := .failed (.unexpectedStatus response.status)
          availability := .unknown
          event := some (.networkError (some response.status))
          token, records }

theorem judges_judgeValues (source : Source) (request : Request) (token : String)
    (reply : Reply) : source.Judges request token reply (source.judgeValues request token reply) :=
  by
  unfold judgeValues
  cases reply with
  | error cause => exact .unanswered
  | ok response =>
    dsimp only
    by_cases hok : response.status = .ok
    · rw [if_pos hok, judgeBody]
      cases hvalues : Values.decode response.body with
      | ok values => exact .unpacked hok hvalues
      | error fault => exact .damaged hok hvalues
    · rw [if_neg hok]
      by_cases hmissing : response.status = .notFound
      · rw [if_pos hmissing, judgeMissing]
        exact .missing hmissing
      · rw [if_neg hmissing]
        by_cases hunchanged : response.status = .notModified
        · rw [if_pos hunchanged]
          exact .unchanged hunchanged
        · rw [if_neg hunchanged]
          exact .refused hok hmissing hunchanged

/-! ## Conclusions from what was sent -/

section Sent

variable {source : Source} {response : Response}

/-- The `keys` that are sent and unpack are put in place. -/
theorem concludeKeys_of_decode {keys : List SegmentId} (hstatus : response.status = .ok)
    (hkeys : Keys.decode response.body = .ok keys) (request : Request) (session : Session) :
    source.concludeKeys request (.ok response) session = (.ok (), session.withKeys keys) := by
  unfold concludeKeys judgeKeys
  dsimp only
  rw [if_neg (not_not.mpr hstatus), hkeys]
  dsimp only
  rw [Session.logged_nil]

/-- The `values` that are sent and unpack color the keys at hand, and the revision token is that of
the response even if they do not. -/
theorem concludeSync_of_decode {values : List SpeedGroup} (hstatus : response.status = .ok)
    (hvalues : Values.decode response.body = .ok values) (request : Request) (token : String)
    (session : Session) :
    source.concludeSync request token (.ok response) session =
      let (result, session) := session.colored values
      ((result.isOk, (response.header? revisionHeader).getD token), session) := by
  unfold concludeSync judgeValues judgeBody settleRound
  dsimp only
  rw [if_pos hstatus, hvalues]
  dsimp only
  rw [Session.logged_nil]
  generalize session.colored values = colored
  obtain ⟨result, session⟩ := colored
  cases result <;> rfl

/-- Values that are unchanged are to be trusted, and their `token` is to be kept. -/
theorem judgeValues_of_notModified (hstatus : response.status = .notModified)
    (request : Request) (token : String) :
    source.judgeValues request token (.ok response) =
      { answer := .notChanged, availability := .available, token } := by
  unfold judgeValues
  dsimp only
  rw [hstatus, if_neg (by decide), if_neg (by decide), if_pos rfl]

/-- Values that are unchanged leave everything but the verdict as it is. -/
theorem concludeSync_of_notModified (hstatus : response.status = .notModified)
    (request : Request) (token : String) (session : Session) :
    source.concludeSync request token (.ok response) session =
      ((true, token), session.settled .available none) := by
  unfold concludeSync
  rw [judgeValues_of_notModified hstatus]
  dsimp only
  rw [Session.logged_nil]
  rfl

end Sent

end Source

end RoadTraffic
