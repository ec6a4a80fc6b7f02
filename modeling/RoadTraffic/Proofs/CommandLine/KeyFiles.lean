import Mathlib
import RoadTraffic.Proofs.CommandLine.Files
import RoadTraffic.Proofs.Summary

/-!
# Key lists in files

The keys of the features in a JSON file are packed into another file, and whoever looks at that file
later is told the same of them: what can be counted in the features can be counted in the bytes.

* `World.FindsKeys`: features whose keys can be packed, and the bytes that they are packed to.
* `Machine.encodeKeys_cases`: `encodeKeys` fails if nothing is found, or goes on to write it.
* `Machine.packs_keys`: what `encode-keys` writes, and what `inspect-keys` reports of it.
-/

namespace RoadTraffic

/-- What is reported of the keys of `features` when they are packed. -/
def Feature.packedReport (features : List Feature) (keys : List SegmentId) (bytes : Bytes) :
    Report :=
  .record [("bytes", .number bytes.length), ("keys", keysReport features keys)]

/-- There are `features` in the file `input`, these are their `keys` and the `bytes` that they are
packed to, and the configuration, if one is named, can be read. -/
structure World.FindsKeys (world : World) (configFile : Option String) (input : String)
    (features : List Feature) (keys : List SegmentId) (bytes : Bytes) : Prop where
  config : (world.config? configFile).isSome
  parsed : world.parsed? Feature.parseList? input = some features
  extracted : Extraction.keys features = .ok keys
  packed : Keys.encode keys = .ok bytes

namespace CommandLine

variable {features : List Feature} {keys : List SegmentId} {bytes : Bytes}

theorem packFeatures_eq_ok_iff : packFeatures features = .ok (keys, bytes) ↔
    Extraction.keys features = .ok keys ∧ Keys.encode keys = .ok bytes := by
  unfold packFeatures
  cases hkeys : Extraction.keys features with
  | error e => simp
  | ok found =>
    dsimp only
    rw [Except.ok.injEq]
    constructor
    · intro h
      split at h
      · cases h
      · next hbytes =>
        cases h
        exact ⟨rfl, hbytes⟩
    · rintro ⟨rfl, hbytes⟩
      rw [hbytes]

end CommandLine

namespace Machine

variable {σ : Type} {machine : Machine (StateM σ)} {before : σ} {configFile : Option String}
  {input output : String}

/-- Either there are no keys to be packed, and the command fails, or it goes on to write them. -/
theorem encodeKeys_cases (h : machine.KeepsFiles) (output : String)
    (hconfig : ((machine.look before).config? configFile).isSome) :
    (∃ failure, CommandLine.encodeKeys machine input output before = (.error failure, before) ∧
      ∀ features keys bytes,
        ¬ (machine.look before).FindsKeys configFile input features keys bytes) ∨
    ∃ features keys bytes, (machine.look before).FindsKeys configFile input features keys bytes ∧
      CommandLine.encodeKeys machine input output before = (do
        CommandLine.writeFile machine output bytes
        return Feature.packedReport features keys bytes : ExceptT Failure (StateM σ) Report)
          before := by
  unfold CommandLine.encodeKeys
  cases hparsed : (machine.look before).parsed? Feature.parseList? input with
  | none =>
    have hnone (features : List Feature) (keys : List SegmentId) (bytes : Bytes) :
        ¬ (machine.look before).FindsKeys configFile input features keys bytes := by
      intro hfinds
      cases hparsed.symm.trans hfinds.parsed
    exact .inl ((exists_error_of_parsed? h hparsed ⟨"Invalid features JSON", []⟩
      fun bytes hbytes => by rw [hbytes]).imp fun failure hrun => ⟨hrun, hnone⟩)
  | some features =>
    rw [bind_of_parsed? h hparsed fun bytes hsome => by rw [hsome]]
    cases hpack : CommandLine.packFeatures features with
    | error failure =>
      -- What was parsed is what is found, and its keys cannot be packed.
      refine .inl ⟨failure, bind_of_error (congrArg (·, before) hpack), fun _ _ _ hfinds => ?_⟩
      cases hparsed.symm.trans hfinds.parsed
      rw [CommandLine.packFeatures_eq_ok_iff.mpr ⟨hfinds.extracted, hfinds.packed⟩] at hpack
      cases hpack
    | ok packed =>
      obtain ⟨keys, bytes⟩ := packed
      obtain ⟨hkeys, hbytes⟩ := CommandLine.packFeatures_eq_ok_iff.mp hpack
      refine .inr ⟨features, keys, bytes, ⟨hconfig, hparsed, hkeys, hbytes⟩, ?_⟩
      refine (bind_of_ok (congrArg (·, before) hpack)).trans ?_
      rw [Feature.packedReport, ← KeysSummary.report_of_keys hkeys]

variable {environment : List (String × String)} {arguments : List String} {baseUrl : Option String}

/-- **Keys in files.** Either there is nothing to be packed, and nothing is touched, or the packed
keys of the features are written, unless the file cannot be (`Packs`), and the report counts the
segments and roads among the features (`packedReport`). Whenever the file holds these bytes, looking
at it reports the same (`EndsOn`), unless the segments are more than `maxKeys`, which is what it
says then. -/
theorem packs_keys (h : machine.KeepsFiles)
    (hparse : Invocation.parse environment arguments =
      .ok ⟨configFile, baseUrl, .encodeKeys input output⟩) (before : σ) :
    machine.Packs output (fun bytes report => ∃ features keys,
        (machine.look before).FindsKeys configFile input features keys bytes ∧
          report = Feature.packedReport features keys bytes)
      before (machine.perform environment arguments before) ∧
    ∀ features keys bytes, (machine.look before).FindsKeys configFile input features keys bytes →
      machine.EndsOn (.inspectKeys output) output bytes
        (if (features.map Feature.keyCount).sum ≤ Keys.maxKeys then
          .reported (Feature.packedReport features keys bytes)
        else .failed ⟨"Invalid traffic keys",
          (KeysError.tooManyKeys (features.map Feature.keyCount).sum Keys.maxKeys).causes⟩) := by
  constructor
  · refine packs_perform (CommandLine.encodeKeys machine input output) h hparse (fun _ => rfl)
      (fun _ _ ⟨_, _, hfinds, _⟩ => hfinds.config) fun hconfig => ?_
    rcases encodeKeys_cases h output hconfig with
      ⟨failure, hrun, hnone⟩ | ⟨features, keys, bytes, hfinds, hrun⟩
    · exact .inl ⟨failure, hrun, fun bytes _ ⟨features, keys, hfinds, _⟩ =>
        hnone features keys bytes hfinds⟩
    · exact .inr ⟨bytes, _, ⟨features, keys, hfinds, rfl⟩, hrun⟩
  · intro features keys bytes hfinds
    have hends : machine.EndsOn (.inspectKeys output) output bytes _ :=
      endsOn_inspect h (fun _ _ => rfl) Keys.decode
        (fun e => ⟨"Invalid traffic keys", e.causes⟩)
        (fun bytes keys => .record [("bytes", .number bytes.length),
          ("keys", (KeysSummary.of keys).report)])
        (fun _ _ hdecode => by rw [hdecode]) (fun _ _ hdecode => by rw [hdecode]) bytes
    -- The number of keys that decides whether they unpack is told by the features.
    rw [Keys.decode, Keys.decodeWithLimit_of_encode hfinds.packed,
      KeysSummary.length_of_keys hfinds.extracted] at hends
    by_cases hfew : (features.map Feature.keyCount).sum ≤ Keys.maxKeys
    · rw [if_pos hfew] at hends ⊢
      rw [Feature.packedReport, ← KeysSummary.report_of_keys hfinds.extracted]
      exact hends
    · rw [if_neg hfew] at hends ⊢
      exact hends

/-- A two-way road with three points, a feature that is no road, and a one-way road. -/
theorem packs_keys_two_roads :
    let text := "[\x7b\"feature_id\": 2, \"point_count\": 3\x7d, " ++
      "\x7b\"feature_id\": 4, \"point_count\": 9, \"road\": false\x7d, " ++
      "\x7b\"feature_id\": 7, \"point_count\": 2, \"one_way\": true\x7d]"
    let files : String → Except FileFault Bytes := fun path =>
      if path = "roads.json" then .ok (Percent.bytesOf text) else .error .notFound
    let report : Report := .record [("bytes", .number 4), ("keys", .record
      [("segments", .number 5), ("features", .number 2), ("one_way_features", .number 1),
        ("two_way_features", .number 1), ("first", SegmentId.report ⟨2, 0, .forward⟩),
        ("last", SegmentId.report ⟨7, 0, .forward⟩)])]
    ∃ after, shelf.perform [] ["encode-keys", "roads.json", "roads.keys"] files =
        (.reported report, after) ∧
      shelf.perform [] ["inspect-keys", "roads.keys"] after = (.reported report, after) := by
  intro text files report
  let features : List Feature := [⟨2, 3, true, false⟩, ⟨4, 9, false, false⟩, ⟨7, 2, true, true⟩]
  let keys : List SegmentId := [⟨2, 0, .forward⟩, ⟨2, 0, .backward⟩, ⟨2, 1, .forward⟩,
    ⟨2, 1, .backward⟩, ⟨7, 0, .forward⟩]
  have hparse : Invocation.parse [] ["encode-keys", "roads.json", "roads.keys"] =
      .ok ⟨none, none, .encodeKeys "roads.json" "roads.keys"⟩ := by decide +kernel
  have hlater : Invocation.parse [] ["inspect-keys", "roads.keys"] =
      .ok ⟨none, none, .inspectKeys "roads.keys"⟩ := by decide +kernel
  obtain ⟨hpacks, hends⟩ := packs_keys keepsFiles_shelf hparse files
  have hfinds : (shelf.look files).FindsKeys none "roads.json" features keys [0, 2, 166, 150] :=
    ⟨rfl, by decide +kernel, by decide +kernel, by cbv⟩
  generalize hrun : shelf.perform [] ["encode-keys", "roads.json", "roads.keys"] files = run
    at hpacks
  cases hpacks with
  | refused hnone => exact absurd ⟨_, _, hfinds, rfl⟩ (hnone _ _)
  | unwritten _ hwrite => cases hwrite
  | written hfound hwrite hafter =>
    obtain ⟨_, _, hfound, rfl⟩ := hfound
    cases hfinds.parsed.symm.trans hfound.parsed
    cases hfinds.extracted.symm.trans hfound.extracted
    cases hfinds.packed.symm.trans hfound.packed
    exact ⟨_, rfl, hends _ _ _ hfinds _ _ _ _ _ hlater rfl hafter⟩

end Machine

end RoadTraffic
