import Mathlib
import RoadTraffic.Proofs.Sync.Steps

/-!
# What is logged

Nobody has to ask whether a round of synchronization or an attempt to come by keys failed: the log
tells. A round is logged exactly if the coloring is not current after it, be it with the events that
are written to the log or without them, and a failure to load keys is what is warned of.

* `Session.Gains before after new`: `after.trace = before.trace ++ new`.
* `Source.exists_gains_concludeSync`/`QuietIfLoaded.exists_gains_warned`: what is logged in
  conclusion.
* `Step.run_silent_iff`: the same for steps that nobody else comes in between.
-/

namespace RoadTraffic

open Occurrence (records)

/-! ## Logs -/

namespace Occurrence

variable (withEvents : Bool)

@[simp] theorem records_append (first second : List Occurrence) :
    records withEvents (first ++ second) = records withEvents first ++ records withEvents second :=
  List.filterMap_append

@[simp] theorem records_nil : records withEvents [] = [] := rfl

@[simp] theorem records_cons_record (written : LogRecord) (trace : List Occurrence) :
    records withEvents (.record written :: trace) = written :: records withEvents trace := rfl

@[simp] theorem records_cons_request (request : Request) (trace : List Occurrence) :
    records withEvents (.request request :: trace) = records withEvents trace := rfl

@[simp] theorem records_cons_event (told : TrafficEvent) (seen : Snapshot)
    (trace : List Occurrence) : records withEvents (.event told seen :: trace) =
      (if withEvents then [told.record] else []) ++ records withEvents trace := by
  cases withEvents <;> rfl

@[simp] theorem records_map_record (written : List LogRecord) :
    records withEvents (written.map .record) = written := by
  simp [records, List.filterMap_map]

end Occurrence

/-- Something is warned of: one of the records has the level `.warn`. -/
def Warns (written : List LogRecord) : Prop := ∃ record ∈ written, record.level = .warn

@[simp] theorem warns_append {first second : List LogRecord} :
    Warns (first ++ second) ↔ Warns first ∨ Warns second := by
  simp [Warns, or_and_right, exists_or]

@[simp] theorem not_warns_nil : ¬ Warns [] := by simp [Warns]

@[simp] theorem warns_singleton {record : LogRecord} : Warns [record] ↔ record.level = .warn := by
  simp [Warns]

namespace Session

variable {before middle after : Session} {new new' : List Occurrence}

/-- What happened from one moment of a session to another: the trace `after` goes on with `new`. -/
def Gains (before after : Session) (new : List Occurrence) : Prop :=
  after.trace = before.trace ++ new

theorem Gains.trans (h : before.Gains middle new) (h' : middle.Gains after new') :
    before.Gains after (new ++ new') := by
  rw [Gains, h', h, List.append_assoc]

theorem gains_noted (session : Session) (occurrence : Occurrence) :
    session.Gains (session.noted occurrence) [occurrence] := rfl

theorem gains_logged (session : Session) (written : List LogRecord) :
    session.Gains (session.logged written) (written.map .record) := rfl

theorem gains_settled (session : Session) (availability : Availability)
    (event : Option TrafficEvent) : ∃ seen, session.Gains (session.settled availability event)
      (event.map (.event · seen)).toList := ⟨_, rfl⟩

theorem gains_withKeys (session : Session) (keys : List SegmentId) :
    session.Gains (session.withKeys keys) [] := (List.append_nil _).symm

theorem gains_withColoring (session : Session) (coloring : Coloring) :
    session.Gains (session.withColoring coloring) [] := (List.append_nil _).symm

end Session

namespace Source

variable {source : Source} {request : Request} (withEvents : Bool)

/-! ## A round of synchronization -/

/-- That there are no values for the edition is logged, in the records of the judgement. -/
theorem records_judgeValues_of_notFound {response : Response}
    (hstatus : response.status = .notFound) (request : Request) (token : String) :
    (source.judgeValues request token (.ok response)).records ≠ [] := by
  unfold judgeValues
  dsimp only
  rw [hstatus, if_neg (by decide), if_pos rfl]
  simp [judgeMissing]

/-- The `values` are logged exactly if they are more or fewer than the keys. -/
theorem exists_gains_colored (values : List SpeedGroup) (session : Session) :
    ∃ new, session.Gains (session.colored values).2 new ∧
      (records withEvents new = [] ↔ (session.colored values).1.isOk = true) := by
  by_cases hlength : session.snapshot.keys.length = values.length
  · rw [Session.colored_of_length hlength]
    exact ⟨[], session.gains_withColoring _, iff_of_true rfl rfl⟩
  · rw [Session.colored_of_length_ne hlength]
    obtain ⟨_, hdistrusted⟩ := session.gains_settled .noData none
    have hwarned := hdistrusted.trans (Session.gains_logged _ [record .warn
      "The number of received traffic values does not match the number of keys"
      [("keys", toString session.snapshot.keys.length), ("values", toString values.length)]])
    obtain ⟨_, hreported⟩ := Session.gains_settled _ .noData
      (some (.updateError session.snapshot.keys.length values.length))
    exact ⟨_, hwarned.trans hreported, iff_of_false (by simp) nofun⟩

/-- A round that came to nothing logs why: `cause`. -/
theorem settleRound_of_failed {judgement : ValuesJudgement} {cause : SyncError}
    (h : judgement.answer = .failed cause) (source : Source) (session : Session) :
    source.settleRound judgement session =
      (false, (session.settled judgement.availability judgement.event).logged
        [source.failedRound cause]) := by
  unfold settleRound
  rw [h]

/-- What a round logs, its `judgement` given. Where there are no values, the record is that of the
judgement. -/
theorem exists_gains_settleRound {token : String} {reply : Reply} {judgement : ValuesJudgement}
    (h : source.Judges request token reply judgement)
    (hmissing : ∀ response, reply = .ok response → response.status = .notFound →
      judgement.records ≠ []) (session : Session) :
    ∃ new, session.Gains
        (source.settleRound judgement (session.logged judgement.records)).2 new ∧
      (records withEvents new = [] ↔
        (source.settleRound judgement (session.logged judgement.records)).1 = true) := by
  have hlogged := session.gains_logged judgement.records
  obtain ⟨_, hsettled⟩ := (session.logged judgement.records).gains_settled
    judgement.availability judgement.event
  cases h with
  | unpacked hstatus hvalues =>
    rw [settleRound_of_new rfl, Session.logged_nil]
    exact exists_gains_colored withEvents _ session
  | unchanged hstatus => exact ⟨_, hlogged.trans hsettled, iff_of_true rfl rfl⟩
  | missing hstatus =>
    refine ⟨_, hlogged.trans hsettled, iff_of_false (fun hnone => ?_) nofun⟩
    exact hmissing _ rfl hstatus (by simpa using hnone)
  | unanswered | damaged | refused =>
    rw [settleRound_of_failed rfl]
    exact ⟨_, (hlogged.trans hsettled).trans (Session.gains_logged _ _),
      iff_of_false (by simp) nofun⟩

/-- **What a round logs.** Each way in which a round can fail leaves a record: what was the matter
with the request or the values, that values do not fit the keys, or that there are none. So
`records withEvents new = []` exactly if the round tells that the coloring is current. -/
theorem exists_gains_concludeSync (source : Source) (request : Request) (token : String)
    (reply : Reply) (session : Session) :
    ∃ new, session.Gains (source.concludeSync request token reply session).2 new ∧
      (records withEvents new = [] ↔
        (source.concludeSync request token reply session).1.1 = true) :=
  exists_gains_settleRound withEvents (source.judges_judgeValues request token reply)
    (fun _ hreply hstatus => hreply ▸ records_judgeValues_of_notFound hstatus request token) session

/-! ## Loading keys -/

/-- Keys that were come by are not warned of: nothing between `before` and what was `concluded` is a
warning. -/
def QuietIfLoaded (before : Session) (concluded : Except SyncError Unit × Session) : Prop :=
  ∃ new, before.Gains concluded.2 new ∧
    (concluded.1 = .ok () → ¬ Warns (records withEvents new))

theorem quietIfLoaded_concludeSection (source : Source) (bytes : Bytes) (session : Session) :
    QuietIfLoaded withEvents session (source.concludeSection bytes session) := by
  unfold concludeSection
  have hlogged := session.gains_logged
    [record .info "Reading traffic keys from section" [source.editionField]]
  dsimp only
  cases Keys.decode bytes with
  | ok keys => exact ⟨_, hlogged.trans (Session.gains_withKeys _ keys), by simp [record]⟩
  | error fault => exact ⟨_, hlogged, nofun⟩

theorem quietIfLoaded_concludeKeys (source : Source) (request : Request) (reply : Reply)
    (session : Session) :
    QuietIfLoaded withEvents session (source.concludeKeys request reply session) := by
  have hrecords (keys : List SegmentId) (hkeys : (source.judgeKeys request reply).1 = .ok keys) :
      (source.judgeKeys request reply).2 = [] := by
    unfold judgeKeys at hkeys ⊢
    grind
  unfold concludeKeys
  generalize source.judgeKeys request reply = judged at hrecords
  obtain ⟨result, written⟩ := judged
  have hlogged := session.gains_logged written
  cases result with
  | ok keys =>
    obtain rfl : written = [] := hrecords keys rfl
    exact ⟨_, hlogged.trans (Session.gains_withKeys _ keys), by simp⟩
  | error fault => exact ⟨_, hlogged, nofun⟩

theorem QuietIfLoaded.trans {before middle : Session} {concluded : Except SyncError Unit × Session}
    {new : List Occurrence} (h : QuietIfLoaded withEvents middle concluded)
    (hgains : before.Gains middle new) (hquiet : ¬ Warns (records withEvents new)) :
    QuietIfLoaded withEvents before concluded := by
  obtain ⟨later, hlater, hwarns⟩ := h
  exact ⟨_, hgains.trans hlater, fun hloaded => by simp [hquiet, hwarns hloaded]⟩

/-- **What loading keys warns of.** `warned` warns of a failure, and of nothing else. -/
theorem QuietIfLoaded.exists_gains_warned {before : Session}
    {concluded : Except SyncError Unit × Session} (h : QuietIfLoaded withEvents before concluded)
    (source : Source) :
    ∃ new, before.Gains (source.warned concluded).2 new ∧
      (Warns (records withEvents new) ↔ ∃ cause, (source.warned concluded).1 = .error cause) := by
  obtain ⟨new, hgains, hquiet⟩ := h
  obtain ⟨result, session⟩ := concluded
  cases result with
  | ok loaded => exact ⟨new, hgains, iff_of_false (hquiet rfl) nofun⟩
  | error cause =>
    exact ⟨_, hgains.trans (Session.gains_logged _ _), iff_of_true (by simp [record]) ⟨cause, rfl⟩⟩

end Source

namespace Step

variable (source : Source) (token : String) (answer : Answer) (session : Session)
  (withEvents : Bool)

/-- What an undisturbed round logs, and that it logs nothing exactly if the coloring is
`current`. -/
theorem run_sync_records :
    ∃ current token' after new,
      run source token (.mk .sync answer []) session = (.mk (.synced current) token' [], after) ∧
        session.Gains after new ∧ (records withEvents new = [] ↔ current = true) := by
  cases hrequest : source.valuesRequest? token with
  | none =>
    rw [run_sync_noServer hrequest]
    exact ⟨_, _, _, _, rfl, session.gains_logged _, iff_of_false (by simp) nofun⟩
  | some request =>
    rw [run_sync hrequest]
    have hnoted := session.gains_noted (.request request)
    obtain ⟨new, hnew, hrecords⟩ := Source.exists_gains_concludeSync withEvents source request token
      (answer.reply request) (session.noted (.request request))
    simp only [wait, runAll]
    exact ⟨_, _, _, _, rfl, hnoted.trans hnew, by simpa using hrecords⟩

/-- What an undisturbed attempt to come by keys logs, and that it warns exactly of a failure. -/
theorem run_loadKeys_records (reading : SectionReading) :
    ∃ result after new,
      run source token (.mk (.loadKeys reading) answer []) session =
          (.mk (.ofExcept result) token [], after) ∧
        session.Gains after new ∧
          (Warns (records withEvents new) ↔ ∃ cause, result = .error cause) := by
  have hunchanged : session.Gains session [] := (List.append_nil _).symm
  have hannounced : session.Gains (source.webAnnounced session) _ := session.gains_logged _
  -- Wherever the keys are looked for, the warning is added to what was concluded.
  suffices h : ∃ concluded, Source.QuietIfLoaded withEvents session concluded ∧
      run source token (.mk (.loadKeys reading) answer []) session =
        (.mk (.ofExcept (source.warned concluded).1) token [], (source.warned concluded).2) by
    obtain ⟨concluded, hquiet, hrun⟩ := h
    obtain ⟨new, hnew, hwarns⟩ := hquiet.exists_gains_warned withEvents source
    exact ⟨_, _, new, hrun, hnew, hwarns⟩
  match reading with
  | .error fault =>
    exact ⟨(.error (.localKeys fault), session), ⟨[], hunchanged, nofun⟩, run_loadKeys_fault⟩
  | .ok (some bytes) =>
    exact ⟨_, source.quietIfLoaded_concludeSection withEvents bytes session, run_loadKeys_section⟩
  | .ok none =>
    cases hrequest : source.keysRequest? with
    | none =>
      exact ⟨(.error .noServer, source.webAnnounced session), ⟨_, hannounced, nofun⟩,
        run_loadKeys_noServer hrequest⟩
    | some request =>
      have hasked := hannounced.trans (Session.gains_noted _ (.request request))
      have hconcluded := source.quietIfLoaded_concludeKeys withEvents request
        (answer.reply request) ((source.webAnnounced session).noted (.request request))
      refine ⟨_, hconcluded.trans withEvents hasked (by simp [Source.record]), ?_⟩
      rw [run_loadKeys_web hrequest]
      simp only [wait, runAll]

/-- **No failed round is silent.** A round to which nobody comes in between logs nothing at all
exactly if it yields `.synced true`, whatever the session, the token and the answer are; and an
attempt to come by keys warns (`Warns`) exactly if it fails. -/
theorem run_silent_iff :
    (∃ current token' after new,
      run source token (.mk .sync answer []) session = (.mk (.synced current) token' [], after) ∧
        session.Gains after new ∧ (records withEvents new = [] ↔ current = true)) ∧
    ∀ reading, ∃ result after new,
      run source token (.mk (.loadKeys reading) answer []) session =
          (.mk (.ofExcept result) token [], after) ∧
        session.Gains after new ∧
          (Warns (records withEvents new) ↔ ∃ cause, result = .error cause) :=
  ⟨run_sync_records source token answer session withEvents,
    run_loadKeys_records source token answer session withEvents⟩

end Step

end RoadTraffic
