import Mathlib
import RoadTraffic.Proofs.Sync.Interference
import RoadTraffic.Proofs.Sync.Revisions

/-!
# A round as two calls

A round of synchronization publishes new values together with the verdict on them. Who fetches the
values first and colors the keys with them afterwards publishes two verdicts, one after the other.
In the end both come to the same.

* `Session.colored_settled`: coloring keys leaves nothing of the verdict before.
* `Step.run_sync_eq_fetchValues_updateValues`: `.sync` does what `.fetchValues` and
  `.updateValues values` do, one after the other.
-/

namespace RoadTraffic

theorem OperationResult.isOk_iff_ofExcept_eq_done {result : Except SyncError Unit} :
    result.isOk = true ↔ ofExcept result = .done := by
  cases result with
  | ok done => exact iff_of_true rfl rfl
  | error cause => exact iff_of_false Bool.false_ne_true nofun

/-- Coloring keys leaves nothing of the verdict before: `settled` might as well not have been. -/
theorem Session.colored_settled (session : Session) (availability : Availability)
    (values : List SpeedGroup) :
    (session.settled availability none).colored values = session.colored values := by
  have hkeys : (session.settled availability none).snapshot.keys = session.snapshot.keys := rfl
  unfold colored
  rw [hkeys]
  cases Coloring.ofParallel session.snapshot.keys values with
  | ok coloring => simp [withColoring, settled]
  | error fault => simp [withMismatch, settled, logged]

namespace Source

variable {source : Source} {request : Request} {token : String} {reply : Reply}

/-- New values come with no event, as it is not known yet whether they fit the keys. -/
theorem Judges.event_of_new {judgement : ValuesJudgement} {values : List SpeedGroup}
    (h : source.Judges request token reply judgement) (hanswer : judgement.answer = .new values) :
    judgement.event = none := by
  cases h with
  | unpacked => rfl
  | unanswered | damaged | missing | unchanged | refused => cases hanswer

theorem concludeSync_of_new {values : List SpeedGroup}
    (h : (source.judgeValues request token reply).answer = .new values) (session : Session) :
    source.concludeSync request token reply session =
      let ((_, token'), middle) := source.concludeValues request token reply session
      let (result, after) := middle.colored values
      ((result.isOk, token'), after) := by
  have hevent := (source.judges_judgeValues request token reply).event_of_new h
  unfold concludeSync concludeValues
  dsimp only
  rw [settleRound_of_new h, hevent, Session.colored_settled]

theorem concludeSync_of_not_new
    (h : ∀ values, (source.judgeValues request token reply).answer ≠ .new values) :
    ∃ records, ∀ session, source.concludeSync request token reply session =
      let ((found, token'), middle) := source.concludeValues request token reply session
      ((decide (found = .notChanged), token'), middle.logged records) := by
  obtain ⟨records, hsettle⟩ := settleRound_of_not_new h source
  refine ⟨records, fun session => ?_⟩
  unfold concludeSync concludeValues
  dsimp only
  rw [hsettle]

end Source

open Occurrence (requests)

namespace Step

/-- **A round does what two calls do.** `.fetchValues` and then `.updateValues values`, if there are
new ones, makes the same request as `.sync`, and leaves the same token, reports the same events and
shows a reader the same in the end (`Session.Alike`). The round tells that the coloring is current
exactly if the values were said to be so (`.notChanged`), or colored the keys. -/
theorem run_sync_eq_fetchValues_updateValues (source : Source) (token : String)
    (answer unused : Answer) (meanwhile : List Step) (session : Session) :
    ∃ current found token' reports after middle,
      run source token (.mk .sync answer meanwhile) session =
        (.mk (.synced current) token' reports, after) ∧
      run source token (.mk .fetchValues answer meanwhile) session =
        (.mk (.values found) token' reports, middle) ∧
      match found with
      | .new values => ∃ result after',
        run source token' (.mk (.updateValues values) unused []) middle =
          (.mk result token' [], after') ∧
        (current = true ↔ result = .done) ∧
        after.Alike after' ∧ requests after.trace = requests after'.trace
      | _ =>
        (current = true ↔ found = .notChanged) ∧
        after.Alike middle ∧ requests after.trace = requests middle.trace := by
  cases hrequest : source.valuesRequest? token with
  | none =>
    exact ⟨_, _, _, _, _, _, run_sync_noServer hrequest, run_fetchValues_noServer hrequest,
      by simp, Session.alike_logged session _, by simp⟩
  | some request =>
    cases hwait : wait source request meanwhile session with | mk reports asked =>
    let judgement := source.judgeValues request token (answer.reply request)
    let middle := (asked.logged judgement.records).settled judgement.availability judgement.event
    have hfetch : run source token (.mk .fetchValues answer meanwhile) session =
        (.mk (.values judgement.answer) judgement.token reports, middle) := by
      rw [run_fetchValues hrequest, hwait]
      rfl
    by_cases hnew : ∃ values, judgement.answer = .new values
    -- New values: both color the same session, in which the verdict of the fetch is one more.
    · obtain ⟨values, hanswer⟩ := hnew
      have hsync : run source token (.mk .sync answer meanwhile) session =
          (.mk (.synced (middle.colored values).1.isOk) judgement.token reports,
            (middle.colored values).2) := by
        rw [run_sync hrequest, hwait]
        dsimp only
        rw [Source.concludeSync_of_new hanswer]
        rfl
      rw [hanswer] at hfetch
      exact ⟨_, _, _, _, _, _, hsync, hfetch, _, _, run_updateValues,
        OperationResult.isOk_iff_ofExcept_eq_done, ⟨rfl, rfl⟩, rfl⟩
    -- Anything else ends both ways at once, and the round may log that it failed.
    · obtain ⟨records, hconclude⟩ := Source.concludeSync_of_not_new (not_exists.mp hnew)
      have hsync : run source token (.mk .sync answer meanwhile) session =
          (.mk (.synced (decide (judgement.answer = .notChanged))) judgement.token reports,
            middle.logged records) := by
        rw [run_sync hrequest, hwait]
        dsimp only
        rw [hconclude]
        rfl
      refine ⟨_, _, _, _, _, _, hsync, hfetch, ?_⟩
      split
      · next values hanswer => exact absurd ⟨values, hanswer⟩ hnew
      · exact ⟨decide_eq_true_iff, Session.alike_logged middle records, by simp⟩

end Step

end RoadTraffic
