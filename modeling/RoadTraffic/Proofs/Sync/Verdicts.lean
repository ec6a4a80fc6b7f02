import Mathlib
import RoadTraffic.Proofs.Sync.Interference

/-!
# Verdicts

What a step that asks for values makes known is told by the token of its caller and by the answer.
If it colors the keys, how many there are counts as well. Nothing else that was before does, be it
a verdict or a coloring.

* `Answer.Deserves answer count availability`: the verdict that an answer deserves.
* `ValuesJudgement.verdict`: the verdict on a round of synchronization.
* `Source.Judges.deserves`: the verdict on a round for each kind of answer.
* `Step.discloses_fetchValues`/`discloses_sync`: what a step makes known (`Disclosure`).
* `Step.discloses_regardless`: what a step makes known is the same in all sessions.
-/

namespace RoadTraffic

namespace Availability

theorem ofMissing_cases (server edition format : Int) :
    let availability := ofMissing server edition format
    availability = .noData ∨ availability = .expiredData ∨ availability = .expiredApp := by
  unfold ofMissing
  split_ifs <;> simp

theorem isAvailable_ofMissing (server edition format : Int) :
    (ofMissing server edition format).isAvailable = false := by
  unfold ofMissing
  split_ifs <;> rfl

end Availability

namespace Answer

/-- The status of the response, if one came in. -/
def status? : Answer → Option Status
  | .response received => some received.status
  | .fault _ => none

/-- Values were sent that unpack, one for each of `count` keys. -/
def Fits (count : Nat) (answer : Answer) : Prop :=
  ∃ response values, answer = .response response ∧ response.status = .ok ∧
    Values.decode response.body = .ok values ∧ values.length = count

theorem fits_of_decode {response : Response} {values : List SpeedGroup}
    (hstatus : response.status = .ok) (hvalues : Values.decode response.body = .ok values)
    (count : Nat) : (Answer.response response).Fits count ↔ values.length = count := by
  simp [Fits, hstatus, hvalues]

theorem not_fits_of_decode_error {response : Response} {fault : ValuesError}
    (hvalues : Values.decode response.body = .error fault) (count : Nat) :
    ¬ (Answer.response response).Fits count := by
  simp [Fits, hvalues]

/-- The verdict that `answer` deserves if there are `count` keys. -/
structure Deserves (answer : Answer) (count : Nat) (availability : Availability) : Prop where
  /-- The coloring is trusted if it is new, or if it is said to be current. -/
  available_iff : availability = .available ↔
    answer.status? = some .notModified ∨ answer.Fits count
  /-- One of the verdicts on an edition that there are no values for. -/
  of_notFound : answer.status? = some .notFound →
    availability = .noData ∨ availability = .expiredData ∨ availability = .expiredApp
  /-- What was sent does not unpack, or is too much or too little. -/
  of_ok : answer.status? = some .ok → ¬ answer.Fits count → availability = .noData
  /-- Nothing that was received says anything about values. -/
  of_others : answer.status? ≠ some .ok → answer.status? ≠ some .notModified →
    answer.status? ≠ some .notFound → availability = .unknown

variable {answer : Answer} {count : Nat}

theorem Fits.status?_eq (h : answer.Fits count) : answer.status? = some .ok := by
  obtain ⟨response, _, rfl, hstatus, _⟩ := h
  exact congrArg some hstatus

theorem deserves_available (h : answer.status? = some .notModified ∨ answer.Fits count) :
    answer.Deserves count .available := by
  -- The status tells the kinds of answers apart.
  have hstatus : answer.status? = some .notModified ∨ answer.status? = some .ok :=
    h.imp_right Fits.status?_eq
  refine ⟨iff_of_true rfl h, fun hmissing => ?_, fun hok hfits => ?_, fun hok hunchanged _ => ?_⟩
  · rw [hmissing] at hstatus
    exact absurd hstatus (by decide)
  · rw [hok] at h
    exact absurd (h.resolve_right hfits) (by decide)
  · exact absurd hstatus (not_or.mpr ⟨hunchanged, hok⟩)

theorem deserves_noData (hok : answer.status? = some .ok) (hfits : ¬ answer.Fits count) :
    answer.Deserves count .noData where
  available_iff := by
    rw [hok]
    exact iff_of_false (by decide) (not_or.mpr ⟨by decide, hfits⟩)
  of_notFound _ := .inl rfl
  of_ok _ _ := rfl
  of_others hother := absurd hok hother

theorem deserves_ofMissing (h : answer.status? = some .notFound) (server edition format : Int) :
    answer.Deserves count (.ofMissing server edition format) := by
  have hmissing := Availability.ofMissing_cases server edition format
  refine ⟨iff_of_false ?_ ?_, fun _ => hmissing, fun hok => ?_, fun _ _ hother => absurd h hother⟩
  · rintro havailable
    rw [havailable] at hmissing
    exact absurd hmissing (by decide)
  · rintro (hunchanged | hfits)
    · rw [h] at hunchanged
      exact absurd hunchanged (by decide)
    · rw [hfits.status?_eq] at h
      exact absurd h (by decide)
  · rw [h] at hok
    exact absurd hok (by decide)

theorem deserves_unknown (hok : answer.status? ≠ some .ok)
    (hunchanged : answer.status? ≠ some .notModified)
    (hmissing : answer.status? ≠ some .notFound) : answer.Deserves count .unknown where
  available_iff := iff_of_false (by decide) (not_or.mpr ⟨hunchanged, fun h => hok h.status?_eq⟩)
  of_notFound h := absurd h hmissing
  of_ok h := absurd h hok
  of_others _ _ _ := rfl

end Answer

/-! ## The verdict on a round -/

/-- What is made known when a round of synchronization concludes. -/
structure Verdict where
  /-- The coloring is taken to be current. -/
  current : Bool
  availability : Availability
  event : Option TrafficEvent

/-- The verdict on a round that finds `count` keys: new values count if they are as many. -/
def ValuesJudgement.verdict (judgement : ValuesJudgement) (count : Nat) : Verdict :=
  match judgement.answer with
  | .new values =>
    if count = values.length then ⟨true, .available, none⟩
    else ⟨false, .noData, some (.updateError count values.length)⟩
  | .notChanged => ⟨true, judgement.availability, judgement.event⟩
  | .notFound | .failed _ => ⟨false, judgement.availability, judgement.event⟩

theorem ValuesJudgement.verdict_of_not_new {judgement : ValuesJudgement}
    (h : ∀ values, judgement.answer ≠ .new values) (count : Nat) :
    judgement.verdict count =
      ⟨decide (judgement.answer = .notChanged), judgement.availability, judgement.event⟩ := by
  unfold verdict
  cases hanswer : judgement.answer with
  | new values => exact absurd hanswer (h values)
  | notChanged | notFound | failed cause => simp

open Occurrence (events)

namespace Occurrence

@[simp] theorem events_event (event : Option TrafficEvent) (seen : Snapshot) :
    events (event.map (.event · seen)).toList = (event.map (·, seen)).toList := by
  cases event <;> rfl

end Occurrence

namespace Session

variable {before after : Session} {availability : Availability} {event : Option TrafficEvent}

/-- A change from `before` to `after` passes a verdict and reports the `event` that goes with it.
Who hears of the event sees what a reader sees from then on. -/
structure Settles (before after : Session) (availability : Availability)
    (event : Option TrafficEvent) : Prop where
  availability : after.snapshot.availability = availability
  events : events after.trace = events before.trace ++ (event.map (·, after.snapshot)).toList

theorem settles_settled (session : Session) (availability : Availability)
    (event : Option TrafficEvent) :
    session.Settles (session.settled availability event) availability event :=
  ⟨rfl, by simp [settled]⟩

theorem settles_withColoring (session : Session) (coloring : Coloring) :
    session.Settles (session.withColoring coloring) .available none :=
  ⟨rfl, by simp [withColoring]⟩

theorem Settles.of_logged {records : List LogRecord}
    (h : (before.logged records).Settles after availability event) :
    before.Settles after availability event :=
  ⟨h.availability, by simpa [logged] using h.events⟩

theorem Settles.logged (h : before.Settles after availability event) (records : List LogRecord) :
    before.Settles (after.logged records) availability event :=
  ⟨h.availability, by simpa [Session.logged] using h.events⟩

theorem settles_withMismatch (session : Session) (fault : LengthMismatch) :
    session.Settles (session.withMismatch fault) .noData
      (some (.updateError fault.keys fault.values)) :=
  ⟨rfl, by simp [withMismatch, settled, Session.logged, Occurrence.events]⟩

end Session

namespace Source

variable {source : Source} {request : Request} {token : String}

theorem settles_settleRound {judgement : ValuesJudgement} {session after : Session} {current : Bool}
    (h : source.settleRound judgement session = (current, after)) :
    let verdict := judgement.verdict session.snapshot.keys.length
    current = verdict.current ∧ session.Settles after verdict.availability verdict.event := by
  by_cases hnew : ∃ values, judgement.answer = .new values
  -- New values: the verdict is up to their number.
  · obtain ⟨values, hanswer⟩ := hnew
    rw [settleRound_of_new hanswer] at h
    unfold ValuesJudgement.verdict
    rw [hanswer]
    dsimp only
    by_cases hlength : session.snapshot.keys.length = values.length
    · rw [Session.colored_of_length hlength] at h
      rw [if_pos hlength]
      cases h
      exact ⟨rfl, session.settles_withColoring _⟩
    · rw [Session.colored_of_length_ne hlength] at h
      rw [if_neg hlength]
      cases h
      exact ⟨rfl, session.settles_withMismatch _⟩
  · obtain ⟨records, hsettle⟩ := settleRound_of_not_new (not_exists.mp hnew) source
    rw [hsettle] at h
    rw [ValuesJudgement.verdict_of_not_new (not_exists.mp hnew)]
    cases h
    exact ⟨rfl, (session.settles_settled _ _).logged records⟩

theorem settles_concludeSync {reply : Reply} {session after : Session} {current : Bool}
    {token' : String}
    (h : source.concludeSync request token reply session = ((current, token'), after)) :
    let judgement := source.judgeValues request token reply
    let verdict := judgement.verdict session.snapshot.keys.length
    current = verdict.current ∧ token' = judgement.token ∧
      session.Settles after verdict.availability verdict.event := by
  unfold concludeSync at h
  dsimp only at h
  cases hround : source.settleRound (source.judgeValues request token reply)
    (session.logged (source.judgeValues request token reply).records) with
  | mk current' after' =>
  rw [hround] at h
  cases h
  obtain ⟨hcurrent, hsettles⟩ := settles_settleRound hround
  exact ⟨hcurrent, rfl, hsettles.of_logged⟩

/-- The verdict on a round is the one that `answer` deserves, and it is current exactly if it
`isAvailable`. -/
theorem Judges.deserves {answer : Answer} {judgement : ValuesJudgement}
    (h : source.Judges request token (answer.reply request) judgement) (count : Nat) :
    let verdict := judgement.verdict count
    answer.Deserves count verdict.availability ∧
      verdict.current = verdict.availability.isAvailable := by
  cases answer with
  | fault text =>
    cases h with
    | unanswered => exact ⟨Answer.deserves_unknown nofun nofun nofun, rfl⟩
  | response response =>
    cases h with
    | @unpacked _ values hstatus hvalues =>
      have hok : (Answer.response response).status? = some .ok := congrArg some hstatus
      have hfits := Answer.fits_of_decode hstatus hvalues count
      unfold ValuesJudgement.verdict
      dsimp only
      by_cases hlength : count = values.length
      · rw [if_pos hlength]
        exact ⟨Answer.deserves_available (.inr (hfits.mpr hlength.symm)), rfl⟩
      · rw [if_neg hlength]
        exact ⟨Answer.deserves_noData hok fun h => hlength (hfits.mp h).symm, rfl⟩
    | damaged hstatus hvalues =>
      exact ⟨Answer.deserves_noData (congrArg some hstatus)
        (Answer.not_fits_of_decode_error hvalues count), rfl⟩
    | missing hstatus =>
      have hmissing : (Answer.response response).status? = some .notFound := congrArg some hstatus
      exact ⟨Answer.deserves_ofMissing hmissing _ _ _,
        (Availability.isAvailable_ofMissing _ _ _).symm⟩
    | unchanged hstatus => exact ⟨Answer.deserves_available (.inl (congrArg some hstatus)), rfl⟩
    | refused hok hmissing hunchanged =>
      -- A status of the response is a status of the answer.
      have hstatus {status : Status} (h : response.status ≠ status) :
          (Answer.response response).status? ≠ some status := fun heq => h (Option.some.inj heq)
      exact ⟨Answer.deserves_unknown (hstatus hok) (hstatus hunchanged) (hstatus hmissing), rfl⟩

end Source

/-! ## What a step makes known -/

/-- What a step makes known to its caller, to readers and to those who listen for events. -/
structure Disclosure where
  result : OperationResult
  token : String
  availability : Availability
  event : Option TrafficEvent

namespace Step

variable {source : Source} {token : String} {answer : Answer} {request : Request}

/-- What `step` makes known when it concludes in the session that it has `found`. -/
def Discloses (source : Source) (token : String) (session : Session) (step : Step)
    (disclosure : Disclosure) : Prop :=
  ∃ reports after,
    run source token step session = (.mk disclosure.result disclosure.token reports, after) ∧
    (step.found source token session).Settles after disclosure.availability disclosure.event

theorem discloses_fetchValues (hrequest : source.valuesRequest? token = some request)
    (answer : Answer) (meanwhile : List Step) (session : Session) :
    let judgement := source.judgeValues request token (answer.reply request)
    Discloses source token session (.mk .fetchValues answer meanwhile)
      ⟨.values judgement.answer, judgement.token, judgement.availability, judgement.event⟩ := by
  have hmade : Operation.fetchValues.request? source token = some request := hrequest
  refine ⟨_, _, run_fetchValues hrequest, ?_⟩
  rw [found_of_request hmade]
  exact (Session.settles_settled _ _ _).of_logged

theorem discloses_sync (hrequest : source.valuesRequest? token = some request) {answer : Answer}
    {meanwhile : List Step} {session : Session} {count : Nat}
    (hkeys : (found source token session (.mk .sync answer meanwhile)).snapshot.keys.length =
      count) :
    let judgement := source.judgeValues request token (answer.reply request)
    let verdict := judgement.verdict count
    Discloses source token session (.mk .sync answer meanwhile)
      ⟨.synced verdict.current, judgement.token, verdict.availability, verdict.event⟩ := by
  intro judgement verdict
  have hmade : Operation.sync.request? source token = some request := hrequest
  cases hwait : wait source request meanwhile session with | mk reports middle =>
  have hfound : found source token session (.mk .sync answer meanwhile) = middle :=
    (found_of_request hmade).trans (congrArg Prod.snd hwait)
  rw [hfound] at hkeys
  cases hconclude : source.concludeSync request token (answer.reply request) middle with
  | mk yielded after =>
  obtain ⟨current, token'⟩ := yielded
  obtain ⟨hcurrent, htoken, hsettles⟩ := Source.settles_concludeSync hconclude
  rw [hkeys] at hcurrent hsettles
  refine ⟨reports, after, ?_, hfound ▸ hsettles⟩
  rw [run_sync hrequest, hwait]
  dsimp only
  rw [hconclude, hcurrent, htoken]

/-- **A verdict tells nothing about what was before.** What a caller that fetches values is told,
and what is made known with it, is settled by its `token` and the `answer`: one `disclosure` for all
sessions. For a round of synchronization the number of keys counts as well, but no coloring, no
verdict and nothing else of the past. The verdict is the one that the answer deserves
(`Answer.Deserves`), and the coloring is taken to be current exactly if it is trusted. -/
theorem discloses_regardless (hremote : source.remote.isConfigured) (token : String)
    (answer : Answer) :
    (∃ disclosure, ∀ meanwhile session,
      Discloses source token session (.mk .fetchValues answer meanwhile) disclosure) ∧
    ∀ count, ∃ disclosure,
      (∀ meanwhile session,
        (found source token session (.mk .sync answer meanwhile)).snapshot.keys.length = count →
          Discloses source token session (.mk .sync answer meanwhile) disclosure) ∧
      answer.Deserves count disclosure.availability ∧
      disclosure.result = .synced disclosure.availability.isAvailable := by
  obtain ⟨request, hrequest⟩ := Source.exists_valuesRequest? hremote token
  refine ⟨⟨_, discloses_fetchValues hrequest answer⟩, fun count => ?_⟩
  let judgement := source.judgeValues request token (answer.reply request)
  let verdict := judgement.verdict count
  obtain ⟨hdeserves, hcurrent⟩ :=
    (source.judges_judgeValues request token (answer.reply request)).deserves count
  exact ⟨⟨.synced verdict.current, judgement.token, verdict.availability, verdict.event⟩,
    fun meanwhile session hkeys => discloses_sync hrequest hkeys, hdeserves, congrArg _ hcurrent⟩

/-- A new session with one key, and one with another key, a coloring and a bad verdict: one value is
sent to both. -/
theorem discloses_regardless_one_value :
    let source : Source := ⟨⟨"Monaco", 0⟩, 0, ⟨some "https://localhost/"⟩⟩
    let answer : Answer := .response { status := .ok, body := Values.encode [.g0] }
    let fresh : Session := { snapshot := { keys := [⟨5, 0, .forward⟩] } }
    let colored : Session :=
      { snapshot :=
          { keys := [⟨9, 0, .forward⟩]
            coloring := .ofList [(⟨7, 0, .backward⟩, .tempBlock)]
            availability := .expiredApp } }
    ∃ disclosure,
      Discloses source "rev-0" fresh (.mk .sync answer []) disclosure ∧
      Discloses source "rev-0" colored (.mk .sync answer []) disclosure ∧
      disclosure.availability = .available ∧ disclosure.result = .synced true := by
  intro source answer fresh colored
  have hremote : source.remote.isConfigured := rfl
  obtain ⟨disclosure, hsame, hdeserves, hresult⟩ :=
    (discloses_regardless hremote "rev-0" answer).2 1
  have havailable : disclosure.availability = .available :=
    hdeserves.available_iff.mpr
      (.inr ⟨_, [.g0], rfl, rfl, Values.decode_encode (by decide), rfl⟩)
  refine ⟨disclosure, hsame [] fresh ?_, hsame [] colored ?_, havailable, ?_⟩
  · rw [snapshot_found_undisturbed]
    rfl
  · rw [snapshot_found_undisturbed]
    rfl
  · rw [hresult, havailable]
    rfl

end Step

end RoadTraffic
