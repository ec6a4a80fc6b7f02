import Mathlib
import RoadTraffic.Proofs.Sync.Recovery
import RoadTraffic.Proofs.Text.Number
import RoadTraffic.Proofs.Text.Utf8

/-!
# Editions without data

A server that has no data for an edition tells the newest edition that it has data for. Whether it
is the map or the program that is out of date is told by this number.

* `Source.serverVersion?_eq_some_iff`: the number is the one that the body spells as a text
  (`TellsVersion`).
* `Source.CountsAsVersion body version`: the number, or `0` if none is told.
* `Availability.ofMissing_eq_expiredApp_iff`/`ofMissing_eq_expiredData_iff`/
  `ofMissing_eq_noData_iff`: what the verdict says about three editions.
* `Step.verdict_of_missing`: the verdict on every body.
-/

namespace RoadTraffic

namespace Availability

variable {server edition format : Int}

theorem ofMissing_eq_expiredApp_iff :
    ofMissing server edition format = .expiredApp ↔ format < server := by
  unfold ofMissing
  split_ifs <;> simp <;> omega

theorem ofMissing_eq_expiredData_iff :
    ofMissing server edition format = .expiredData ↔ edition < server ∧ server ≤ format := by
  unfold ofMissing
  split_ifs <;> simp <;> omega

theorem ofMissing_eq_noData_iff :
    ofMissing server edition format = .noData ↔ server ≤ edition ∧ server ≤ format := by
  unfold ofMissing
  split_ifs <;> simp <;> omega

end Availability

namespace Source

variable {body : Bytes} {version : Int}

/-- The bytes are those of a text that denotes the number `version`. -/
def TellsVersion (body : Bytes) (version : Int) : Prop :=
  ∃ text : String, body = Percent.bytesOf text ∧ Number.Denotes text.toList version

/-- Bytes that tell no number count as `0`. -/
def CountsAsVersion (body : Bytes) (version : Int) : Prop :=
  TellsVersion body version ∨ (∀ told, ¬ TellsVersion body told) ∧ version = 0

theorem serverVersion?_eq_some_iff :
    serverVersion? body = some version ↔ TellsVersion body version := by
  simp only [serverVersion?, Option.bind_eq_some_iff, Utf8.decode?_eq_some_iff,
    Number.parse?_trim_eq_some_iff, TellsVersion]

theorem countsAsVersion_iff :
    CountsAsVersion body version ↔ version = (serverVersion? body).getD 0 := by
  simp only [CountsAsVersion, ← serverVersion?_eq_some_iff]
  cases serverVersion? body <;> simp [eq_comm]

/-- A response without data is judged by its body, the edition and the format (`dataVersion`). -/
theorem availability_judgeValues_of_notFound {source : Source} {response : Response}
    (h : response.status = .notFound) (request : Request) (token : String) :
    (source.judgeValues request token (.ok response)).availability =
      .ofMissing ((serverVersion? response.body).getD 0) source.edition.version
        source.dataVersion := by
  unfold judgeValues
  dsimp only
  rw [h, if_neg (by decide), if_pos rfl, judgeMissing]

end Source

namespace Step

variable {source : Source}

/-- The verdict of a step that is told that there is no data, whatever others do `meanwhile`. -/
theorem availability_run_of_notFound (hremote : source.remote.isConfigured)
    {operation : Operation} (hasks : operation.AsksValues) {response : Response}
    (hstatus : response.status = .notFound) (token : String) (meanwhile : List Step)
    (session : Session) :
    let after := (run source token (.mk operation (.response response) meanwhile) session).2
    after.snapshot.availability = .ofMissing ((Source.serverVersion? response.body).getD 0)
      source.edition.version source.dataVersion := by
  intro after
  obtain ⟨request, hrequest⟩ := Source.exists_valuesRequest? hremote token
  have hanswer : (Answer.response response).status? ≠ some .ok := by
    rw [Answer.status?, hstatus]
    decide
  unfold after
  rw [run_eq, hasks.request?_eq, hrequest]
  dsimp only
  rw [hasks.opened_eq]
  refine (congrArg Snapshot.availability (hasks.snapshot_conclude hanswer request _)).trans ?_
  exact Source.availability_judgeValues_of_notFound hstatus request token

/-- **The verdict on missing data.** A response that there is no data for the edition counts as one
number (`CountsAsVersion`): the one that its body spells in UTF-8, between white space or not, with
a sign or without, in as many digits as one likes, if it fits in a signed word, and zero otherwise.
Beyond the format that is understood it is the program that is out of date (`.expiredApp`); up to
there, but beyond the edition at hand, it is the map (`.expiredData`); else there is no data. -/
theorem verdict_of_missing (hremote : source.remote.isConfigured) {operation : Operation}
    (hasks : operation.AsksValues) {response : Response} (hstatus : response.status = .notFound)
    (token : String) (meanwhile : List Step) (session : Session) :
    ∃ version, (∀ n, Source.CountsAsVersion response.body n ↔ n = version) ∧
      let after := (run source token (.mk operation (.response response) meanwhile) session).2
      (after.snapshot.availability = .expiredApp ↔ source.dataVersion < version) ∧
      (after.snapshot.availability = .expiredData ↔
        source.edition.version < version ∧ version ≤ source.dataVersion) ∧
      (after.snapshot.availability = .noData ↔
        version ≤ source.edition.version ∧ version ≤ source.dataVersion) := by
  refine ⟨_, fun n => Source.countsAsVersion_iff, ?_⟩
  intro after
  rw [availability_run_of_notFound hremote hasks hstatus]
  exact ⟨Availability.ofMissing_eq_expiredApp_iff, Availability.ofMissing_eq_expiredData_iff,
    Availability.ofMissing_eq_noData_iff⟩

/-- A map that is newer than the format is told of a version newer than the format, after a no-break
space and with a sign; and a body that is no text. -/
theorem verdict_of_missing_newer_map :
    let source : Source := ⟨⟨"Monaco", 140⟩, 120, ⟨some "https://localhost/"⟩⟩
    let told : Response :=
      { status := .notFound, body := [0xC2, 0xA0, 0x2B, 0x30, 0x31, 0x33, 0x30] }
    let untold : Response := { status := .notFound, body := [0x31, 0x33, 0x30, 0xFF] }
    (run source "" (.mk .sync (.response told) []) {}).2.snapshot.availability = .expiredApp ∧
    (run source "" (.mk .fetchValues (.response untold) []) {}).2.snapshot.availability =
      .noData := by
  intro source told untold
  have hremote : source.remote.isConfigured := rfl
  have hstatus : told.status = .notFound ∧ untold.status = .notFound := ⟨rfl, rfl⟩
  obtain ⟨version, hversion, happ, -, -⟩ :=
    verdict_of_missing hremote .sync hstatus.1 "" [] {}
  obtain ⟨zero, hzero, -, -, hnone⟩ :=
    verdict_of_missing hremote .fetchValues hstatus.2 "" [] {}
  have hspells : Number.Spells ['+', '0', '1', '3', '0'] 130 :=
    ⟨.plus, [0, 1, 3, 0], by decide, by decide, by decide, rfl, by norm_num, by norm_num⟩
  have htold : Source.CountsAsVersion told.body 130 :=
    .inl ⟨"\u00A0+0130", by decide, ['\u00A0'], _, [], by decide, by simp [Blank.whiteSpace],
      hspells⟩
  obtain rfl := (hversion 130).mp htold
  have huntold : Source.serverVersion? untold.body = none := by decide
  obtain rfl : 0 = zero := (hzero 0).mp (Source.countsAsVersion_iff.mpr (by rw [huntold]; rfl))
  exact ⟨happ.mpr (by decide), hnone.mpr (by decide)⟩

end Step

end RoadTraffic
