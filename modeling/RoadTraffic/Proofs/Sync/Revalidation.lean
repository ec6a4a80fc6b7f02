import Mathlib
import RoadTraffic.Proofs.Coloring
import RoadTraffic.Proofs.KeyRoundTrip
import RoadTraffic.Proofs.Sync.Steps
import RoadTraffic.Proofs.ValueCodec

/-!
# Revalidated colorings

A server that holds one list of values at a time names each list by a tag and does not send a list
again to who names its tag. A caller that polls such a server with the tag it was last sent learns
that the list is still the same, which says nothing about the coloring: the tag may belong to
values that were never accepted, and the keys may have been replaced since.

* `IsAnswer compress archive tag request response`: what a server answers that holds `archive tag`.
* `Reached`: the sessions that a caller can bring about that loads keys and polls a server.
* `lastAccepted archive log`: keys and values of the last round that was accepted.
* `Reached.consistent`: the coloring is that of the last accepted round (`Consistent`).
* `isCurrent_iff_of_sync`: when the coloring is current after a round that claims it is.
-/

namespace RoadTraffic

namespace Revalidation

/-- The answer of a server that holds the values of revision `tag`, to a `request` for values. -/
def IsAnswer (compress : Bytes → Bytes) (archive : String → List SpeedGroup) (tag : String)
    (request : Request) (response : Response) : Prop :=
  if request.header? ifNoneMatch = some tag then response.status = .notModified
  else response.status = .ok ∧ response.header? revisionHeader = some tag ∧
    response.body = compress (Values.pack (archive tag))

/-- A reader sees the keys colored by `values`. -/
def IsCurrent (snapshot : Snapshot) (values : List SpeedGroup) : Prop :=
  Coloring.ofParallel snapshot.keys values = .ok snapshot.coloring

/-- A round of synchronization: the keys it left, the revision that the server held, whether
values were sent, and the verdict. -/
structure Round where
  keys : List SegmentId
  tag : String
  sent : Bool
  current : Bool
  deriving DecidableEq

/-- The keys and the values of the last round in which values were sent and accepted. -/
def lastAccepted (archive : String → List SpeedGroup) (log : List Round) :
    List SegmentId × List SpeedGroup :=
  log.foldl (fun last round =>
    if round.sent && round.current then (round.keys, archive round.tag) else last) ([], [])

/-- The sessions that a caller can bring about from a new one by loading keys and synchronizing,
with the rounds so far and the revision token it holds. Where keys come from is left open, and
others may load keys while a step waits; values come from a server that holds some revision of its
`archive` at each moment. -/
inductive Reached (compress : Bytes → Bytes) (archive : String → List SpeedGroup)
    (source : Source) : List Round → String → Session → Prop where
  | new : Reached compress archive source [] "" {}
  | load {log : List Round} {token token' : String} {session after : Session} {step : Step}
      {result : OperationResult} {reports : List StepReport}
      (h : Reached compress archive source log token session) (hstep : step.LoadsKeys)
      (hrun : Step.run source token step session = (.mk result token' reports, after)) :
      Reached compress archive source log token' after
  | sync {log : List Round} {token token' tag : String} {session after : Session}
      {meanwhile : List Step} {reports : List StepReport} {current : Bool} {response : Response}
      (h : Reached compress archive source log token session) (htag : tag ≠ "")
      (hmeanwhile : ∀ step ∈ meanwhile, step.LoadsKeys)
      (hanswer : ∀ request, source.valuesRequest? token = some request →
        IsAnswer compress archive tag request response)
      (hrun : Step.run source token (.mk .sync (.response response) meanwhile) session =
        (.mk (.synced current) token' reports, after)) :
      Reached compress archive source
        (log ++ [⟨after.snapshot.keys, tag, response.status = .ok, current⟩]) token' after

variable {compress : Bytes → Bytes} {archive : String → List SpeedGroup} {source : Source}
  {log : List Round} {token token' tag : String} {session after : Session}

/-! ## The last accepted round -/

theorem lastAccepted_concat (archive : String → List SpeedGroup) (log : List Round)
    (round : Round) : lastAccepted archive (log ++ [round]) =
      if round.sent && round.current then (round.keys, archive round.tag)
      else lastAccepted archive log := by
  simp [lastAccepted]

/-- What a session, a revision `token` and the rounds so far (`log`) have to do with each other. -/
structure Consistent (archive : String → List SpeedGroup) (log : List Round) (token : String)
    (snapshot : Snapshot) : Prop where
  keys_lt : snapshot.keys.Pairwise (· < ·)
  accepted_lt : (lastAccepted archive log).1.Pairwise (· < ·)
  accepted_length : (lastAccepted archive log).1.length = (lastAccepted archive log).2.length
  coloring : snapshot.coloring =
    .ofList ((lastAccepted archive log).1.zip (lastAccepted archive log).2)
  /-- The token is that of the accepted values, unless others were sent and not accepted. -/
  token : (∀ round ∈ log, round.sent → round.current) →
    token = "" ∨ (lastAccepted archive log).2 = archive token

theorem Consistent.new (archive : String → List SpeedGroup) : Consistent archive [] "" {} :=
  ⟨.nil, .nil, rfl, rfl, fun _ => .inl rfl⟩

theorem Consistent.installed {before after : Snapshot} (h : Consistent archive log token before)
    (hkeys : Step.KeysInstalled before after) : Consistent archive log token after := by
  obtain rfl | ⟨bytes, keys, hdecode, rfl⟩ := hkeys
  · exact h
  · exact { h with keys_lt := Keys.pairwise_lt_of_decode hdecode }

/-- What is sent is what the server holds: the values of `tag`, with `tag` in the header. -/
theorem IsAnswer.of_status {request : Request} {response : Response}
    (h : IsAnswer compress archive tag request response) (hstatus : response.status = .ok) :
    response.header? revisionHeader = some tag ∧
      response.body = compress (Values.pack (archive tag)) := by
  unfold IsAnswer at h
  split at h
  · rw [hstatus] at h
    exact absurd h (by decide)
  · exact h.2

/-- Only a request that names `tag`, the revision of the server, is told that it is unchanged. -/
theorem IsAnswer.of_notModified {request : Request} {response : Response}
    (h : IsAnswer compress archive tag request response)
    (hstatus : response.status = .notModified) : request.header? ifNoneMatch = some tag := by
  unfold IsAnswer at h
  split at h
  · next hheader => exact hheader
  · rw [hstatus] at h
    exact absurd h.1 (by decide)

theorem eq_of_notModified {request : Request} {response : Response}
    (hrequest : source.valuesRequest? token = some request)
    (hanswer : IsAnswer compress archive tag request response)
    (hstatus : response.status = .notModified) : token = tag := by
  have hheader := hanswer.of_notModified hstatus
  rw [Source.header?_of_valuesRequest? hrequest] at hheader
  split at hheader
  · cases hheader
  · exact Option.some.inj hheader

/-- A `round` without an accepted list of values leaves the coloring as it is. It may leave behind a
token that is not that of the coloring, but only if values were sent. -/
theorem Consistent.notAccepted {round : Round} {before : Snapshot}
    (h : Consistent archive log token before) (hround : (round.sent && round.current) = false)
    (htoken : (round.sent → round.current) → token' = token) (availability : Availability) :
    Consistent archive (log ++ [round]) token' { before with availability } := by
  have haccepted : lastAccepted archive (log ++ [round]) = lastAccepted archive log := by
    rw [lastAccepted_concat, hround]
    rfl
  refine ⟨h.keys_lt, ?_, ?_, ?_, fun hall => ?_⟩
  · rw [haccepted]
    exact h.accepted_lt
  · rw [haccepted]
    exact h.accepted_length
  · rw [haccepted]
    exact h.coloring
  · rw [haccepted, htoken (hall round (List.mem_append_right _ List.mem_cons_self))]
    exact h.token fun other hother => hall other (List.mem_append_left _ hother)

/-- A round keeps the coloring that of the last accepted round, be it this one or one before. -/
theorem Consistent.synced (hzlib : Zlib.InflatesBack compress) {request : Request}
    {response : Response} {before after : Snapshot} {current : Bool}
    (h : Consistent archive log token before)
    (hanswer : IsAnswer compress archive tag request response)
    (houtcome : Step.SyncOutcome (.response response) token before current token' after) :
    Consistent archive (log ++ [⟨after.keys, tag, response.status = .ok, current⟩]) token'
      after := by
  cases houtcome with
  | accepted hresponse hstatus hvalues hlength =>
    cases hresponse
    obtain ⟨hheader, hbody⟩ := hanswer.of_status hstatus
    rw [hbody] at hvalues
    obtain rfl := Values.eq_of_decode_pack hzlib hvalues
    have haccepted : lastAccepted archive
        (log ++ [⟨before.keys, tag, response.status = .ok, true⟩]) =
          (before.keys, archive tag) := by
      rw [lastAccepted_concat, hstatus]
      rfl
    refine ⟨h.keys_lt, ?_, ?_, ?_, fun _ => .inr ?_⟩
    · rw [haccepted]
      exact h.keys_lt
    · rw [haccepted]
      exact hlength
    · rw [haccepted]
    · rw [haccepted, hheader]
      rfl
  | rejected hresponse hstatus hvalues hlength =>
    cases hresponse
    refine h.notAccepted (Bool.and_false _) (fun hcurrent => ?_) .noData
    exact absurd (hcurrent (by simpa using hstatus)) Bool.false_ne_true
  | unchanged hresponse hstatus =>
    cases hresponse
    refine h.notAccepted ?_ (fun _ => rfl) .available
    rw [hstatus]
    rfl
  | failed availability =>
    exact h.notAccepted (Bool.and_false _) (fun _ => rfl) availability

/-- The coloring of a session is that of the last accepted round, which each kind of step
preserves. -/
theorem Reached.consistent (hzlib : Zlib.InflatesBack compress)
    (h : Reached compress archive source log token session) :
    Consistent archive log token session.snapshot := by
  induction h with
  | new => exact .new archive
  | @load log token token' session after step result reports _ hstep hrun ih =>
    obtain ⟨_, _, _, hcases, hkeys⟩ := hstep.installsKeys token session
    rw [hrun] at hcases
    cases hcases
    exact ih.installed hkeys
  | @sync log token token' tag session after meanwhile reports current response _ _ hmeanwhile
      hanswer hrun ih =>
    cases hrequest : source.valuesRequest? token with
    | none =>
      rw [Step.run_sync_noServer hrequest] at hrun
      cases hrun
      exact ih.notAccepted (Bool.and_false _) (fun _ => rfl) session.snapshot.availability
    | some request =>
      obtain ⟨_, _, _, _, _, hcases, hkeys, houtcome⟩ :=
        Step.run_sync_cases hrequest hmeanwhile (.response response) session
      rw [hrun] at hcases
      cases hcases
      exact (ih.installed hkeys).synced hzlib (hanswer request hrequest) houtcome

/-! ## When the verdict is right -/

/-- Under a consistent log the coloring is current exactly if the last accepted round was made with
the keys and the `values` of now. -/
theorem Consistent.isCurrent_iff {snapshot : Snapshot}
    (h : Consistent archive log token snapshot) {values : List SpeedGroup} :
    IsCurrent snapshot values ↔ lastAccepted archive log = (snapshot.keys, values) := by
  unfold IsCurrent Coloring.ofParallel
  rw [h.coloring, Prod.ext_iff]
  by_cases hlength : snapshot.keys.length = values.length
  · rw [if_pos hlength, Except.ok.injEq,
      Coloring.ofList_zip_inj h.keys_lt h.accepted_lt hlength h.accepted_length]
    exact ⟨fun h => ⟨h.1.symm, h.2.symm⟩, fun h => ⟨h.1.symm, h.2.symm⟩⟩
  · rw [if_neg hlength]
    refine ⟨fun h => (by cases h), fun heq => absurd ?_ hlength⟩
    have := h.accepted_length
    rwa [heq.1, heq.2] at this

/-- After a round that claims that the coloring is current, the token is `tag`, that of the
server. -/
theorem token_eq_of_syncOutcome {request : Request} {response : Response}
    {before after : Snapshot} (hrequest : source.valuesRequest? token = some request)
    (hanswer : IsAnswer compress archive tag request response)
    (houtcome : Step.SyncOutcome (.response response) token before true token' after) :
    token' = tag := by
  cases houtcome with
  | accepted hresponse hstatus hvalues hlength =>
    cases hresponse
    rw [(hanswer.of_status hstatus).1]
    rfl
  | unchanged hresponse hstatus =>
    cases hresponse
    exact eq_of_notModified hrequest hanswer hstatus

/-- **What the verdict of a round is worth.** When a round claims that the coloring is current, it
is (`IsCurrent`) if values were sent. If they were not, it is current exactly if the last accepted
round was made with the keys that are in place now and with `archive tag`, the values that the
server holds now. So long as all values that were sent were accepted, the keys alone can differ. -/
theorem isCurrent_iff_of_sync (hzlib : Zlib.InflatesBack compress)
    (h : Reached compress archive source log token session) (htag : tag ≠ "")
    {meanwhile : List Step} (hmeanwhile : ∀ step ∈ meanwhile, step.LoadsKeys)
    {response : Response}
    (hanswer : ∀ request, source.valuesRequest? token = some request →
      IsAnswer compress archive tag request response)
    {reports : List StepReport}
    (hrun : Step.run source token (.mk .sync (.response response) meanwhile) session =
      (.mk (.synced true) token' reports, after)) :
    let log' := log ++ [⟨after.snapshot.keys, tag, response.status = .ok, true⟩]
    (response.status = .ok → IsCurrent after.snapshot (archive tag)) ∧
    (IsCurrent after.snapshot (archive tag) ↔
      lastAccepted archive log' = (after.snapshot.keys, archive tag)) ∧
    ((∀ round ∈ log, round.sent → round.current) →
      (IsCurrent after.snapshot (archive tag) ↔
        (lastAccepted archive log').1 = after.snapshot.keys)) := by
  intro log'
  have hconsistent : Consistent archive log' token' after.snapshot :=
    (h.sync htag hmeanwhile hanswer hrun).consistent hzlib
  -- A round can only claim this if a server was asked, which told its tag or was told it.
  have htoken : token' = tag := by
    cases hrequest : source.valuesRequest? token with
    | none =>
      rw [Step.run_sync_noServer hrequest] at hrun
      cases hrun
    | some request =>
      obtain ⟨_, _, _, _, _, hcases, -, houtcome⟩ :=
        Step.run_sync_cases hrequest hmeanwhile (.response response) session
      rw [hrun] at hcases
      cases hcases
      exact token_eq_of_syncOutcome hrequest (hanswer request hrequest) houtcome
  refine ⟨fun hstatus => ?_, hconsistent.isCurrent_iff, fun hall => ?_⟩
  · rw [hconsistent.isCurrent_iff, lastAccepted_concat, hstatus]
    rfl
  · rw [hconsistent.isCurrent_iff, Prod.ext_iff]
    refine and_iff_left_of_imp fun _ => ?_
    have hall' : ∀ round ∈ log', round.sent → round.current := by
      intro round hround
      rcases List.mem_append.mp hround with hround | hround
      · exact hall round hround
      · rw [List.mem_singleton.mp hround]
        exact fun _ => rfl
    rw [← htoken]
    exact (hconsistent.token hall').resolve_left (htoken ▸ htag)

/-! ## A server at work -/

/-- The response with the values of a revision. -/
def sent (values : List SpeedGroup) (tag : String) : Response :=
  ({ status := .ok, body := Values.encode values } : Response).withHeader revisionHeader tag

/-- The response to who names the revision of the server. -/
def unchanged : Response := { status := .notModified }

theorem header?_sent (values : List SpeedGroup) (tag : String) :
    (sent values tag).header? revisionHeader = some tag := by
  simp [sent, Response.header?, Response.withHeader]

theorem isAnswer_sent (archive : String → List SpeedGroup) (h : token ≠ tag) (request : Request)
    (hrequest : source.valuesRequest? token = some request) :
    IsAnswer Zlib.deflate archive tag request (sent (archive tag) tag) := by
  have hheader : request.header? ifNoneMatch ≠ some tag := by
    rw [Source.header?_of_valuesRequest? hrequest]
    split
    · simp
    · exact fun heq => h (Option.some.inj heq)
  unfold IsAnswer
  rw [if_neg hheader]
  exact ⟨rfl, header?_sent _ _, rfl⟩

theorem isAnswer_unchanged (archive : String → List SpeedGroup) (h : tag.isEmpty = false)
    (request : Request) (hrequest : source.valuesRequest? tag = some request) :
    IsAnswer Zlib.deflate archive tag request unchanged := by
  have hheader : request.header? ifNoneMatch = some tag := by
    rw [Source.header?_of_valuesRequest? hrequest, h]
    rfl
  unfold IsAnswer
  rw [if_pos hheader]
  rfl

theorem run_sync_sent {request : Request} (hrequest : source.valuesRequest? token = some request)
    {values : List SpeedGroup} (hmax : values.length ≤ Values.maxValues) (tag : String) :
    Step.run source token (.mk .sync (.response (sent values tag)) []) session =
      let (result, after) := (session.noted (.request request)).colored values
      (.mk (.synced result.isOk) tag [], after) := by
  have hstatus : (sent values tag).status = .ok := rfl
  have hbody : (sent values tag).body = Values.encode values := rfl
  have hvalues : Values.decode (sent values tag).body = .ok values := by
    rw [hbody, Values.decode_encode hmax]
  rw [Step.run_sync_of_decode hrequest hstatus hvalues, header?_sent]
  rfl

/-- Keys, then values for them, then the news that they are unchanged. -/
theorem isCurrent_iff_of_sync_unchanged :
    let source : Source := ⟨⟨"Monaco", 0⟩, 0, ⟨some "https://localhost/"⟩⟩
    let log : List Round := [⟨[⟨5, 0, .forward⟩], "rev-1", true, true⟩]
    ∃ session after,
      Reached Zlib.deflate (fun _ => [.g0]) source log "rev-1" session ∧
      Step.run source "rev-1" (.mk .sync (.response unchanged) []) session =
        (.mk (.synced true) "rev-1" [], after) ∧
      IsCurrent after.snapshot [.g0] := by
  intro source log
  have hremote : source.remote.isConfigured := rfl
  obtain ⟨first, hfirst⟩ := Source.exists_valuesRequest? hremote ""
  obtain ⟨second, hsecond⟩ := Source.exists_valuesRequest? hremote "rev-1"
  let loaded : Session := (({} : Session).logged [Source.record .info
    "Reading traffic keys from section" [source.editionField]]).withKeys [⟨5, 0, .forward⟩]
  have hloaded : Step.run source ""
      (.mk (.loadKeys (.ok (some [0, 1, 84, 1]))) (.fault "no response") []) {} =
        (.mk .done "" [], loaded) := Step.run_loadKeys_of_decode rfl _
  let colored : Session := (loaded.noted (.request first)).withColoring
    (.ofList [(⟨5, 0, .forward⟩, .g0)])
  have hcolored : Step.run source "" (.mk .sync (.response (sent [.g0] "rev-1")) []) loaded =
      (.mk (.synced true) "rev-1" [], colored) := by
    have hlength : (loaded.noted (.request first)).snapshot.keys.length =
        [SpeedGroup.g0].length := rfl
    rw [run_sync_sent hfirst (by decide), Session.colored_of_length hlength]
    rfl
  have hstart : Reached Zlib.deflate (fun _ => [.g0]) source [] "" loaded :=
    Reached.new.load (.loadKeys (by simp)) hloaded
  have hreached : Reached Zlib.deflate (fun _ => [.g0]) source log "rev-1" colored :=
    Reached.sync hstart (by decide) (by simp) (isAnswer_sent _ (by decide)) hcolored
  have hrun : Step.run source "rev-1" (.mk .sync (.response unchanged) []) colored = _ :=
    Step.run_sync_of_notModified hsecond rfl
  have hcurrent := isCurrent_iff_of_sync Zlib.inflatesBack_deflate hreached (by decide)
    (by simp) (isAnswer_unchanged _ rfl) hrun
  exact ⟨colored, _, hreached, hrun, hcurrent.2.1.mpr rfl⟩

/-- **A stale verdict.** Values that are more than the keys are not accepted, but their tag is kept.
Once the keys are in place that they belong to, the server says that they are unchanged, and the
coloring that was never made of them is taken to be current: `.synced true` next to `.empty`. -/
theorem sync_true_of_stale :
    let source : Source := ⟨⟨"Monaco", 0⟩, 0, ⟨some "https://localhost/"⟩⟩
    ∃ after,
      Step.runAll source ""
          [.mk .sync (.response (sent [.g0] "rev-1")) [],
            .mk (.loadKeys (.ok (some [0, 1, 84, 1]))) (.fault "no response") [],
            .mk .sync (.response unchanged) []] {} =
        ([.mk (.synced false) "rev-1" [], .mk .done "rev-1" [],
          .mk (.synced true) "rev-1" []], after) ∧
      (∀ request, source.valuesRequest? "" = some request →
        IsAnswer Zlib.deflate (fun _ => [.g0]) "rev-1" request (sent [.g0] "rev-1")) ∧
      (∀ request, source.valuesRequest? "rev-1" = some request →
        IsAnswer Zlib.deflate (fun _ => [.g0]) "rev-1" request unchanged) ∧
      after.snapshot.keys = [⟨5, 0, .forward⟩] ∧
      after.snapshot.coloring = .empty ∧
      ¬ IsCurrent after.snapshot [.g0] := by
  intro source
  have hremote : source.remote.isConfigured := rfl
  obtain ⟨first, hfirst⟩ := Source.exists_valuesRequest? hremote ""
  obtain ⟨second, hsecond⟩ := Source.exists_valuesRequest? hremote "rev-1"
  let refused : Session := (({} : Session).noted (.request first)).withMismatch ⟨0, 1⟩
  have hrefused : Step.run source "" (.mk .sync (.response (sent [.g0] "rev-1")) []) {} =
      (.mk (.synced false) "rev-1" [], refused) := by
    have hlength : (({} : Session).noted (.request first)).snapshot.keys.length ≠
        [SpeedGroup.g0].length := Nat.zero_ne_one
    rw [run_sync_sent hfirst (by decide), Session.colored_of_length_ne hlength]
    rfl
  let loaded : Session := (refused.logged [Source.record .info
    "Reading traffic keys from section" [source.editionField]]).withKeys [⟨5, 0, .forward⟩]
  have hloaded : Step.run source "rev-1"
      (.mk (.loadKeys (.ok (some [0, 1, 84, 1]))) (.fault "no response") []) refused =
        (.mk .done "rev-1" [], loaded) := Step.run_loadKeys_of_decode rfl _
  have hstale : Step.run source "rev-1" (.mk .sync (.response unchanged) []) loaded = _ :=
    Step.run_sync_of_notModified hsecond rfl
  refine ⟨(loaded.noted (.request second)).settled .available none, ?_,
    isAnswer_sent _ (by decide), isAnswer_unchanged _ rfl, rfl, rfl, ?_⟩
  · rw [Step.runAll_cons hrefused, Step.runAll_cons hloaded, Step.runAll_cons hstale]
    rfl
  · intro hcurrent
    have hcoloring : Coloring.ofList [(⟨5, 0, .forward⟩, .g0)] = .empty := Except.ok.inj hcurrent
    have hget := Coloring.get?_ofList_concat [] ⟨5, 0, .forward⟩ ⟨5, 0, .forward⟩ .g0
    rw [List.nil_append, hcoloring, if_pos rfl] at hget
    cases hget

end Revalidation

end RoadTraffic
