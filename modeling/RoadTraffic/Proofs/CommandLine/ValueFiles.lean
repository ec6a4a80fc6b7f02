import Mathlib
import RoadTraffic.Proofs.CommandLine.Files
import RoadTraffic.Proofs.Summary
import RoadTraffic.Proofs.ValueFormat
import RoadTraffic.Proofs.ValueRoundTrip

/-!
# Values in files

The speed groups that a JSON file names are packed into another file, and whoever looks at that file
later is told how many there are of each.

* `Values.IsPayload payload values`: a stream of packed values, and what is made of it.
* `Machine.encodeValues_cases`: `encodeValues` fails if nothing is found, or goes on to write it.
* `Machine.packs_values`: what `encode-values` writes, and what `inspect-values` reports of it.
-/

namespace RoadTraffic

namespace Values

variable {payload : Bytes} {values : List SpeedGroup}

/-- A stream from which `pack values` are inflated, whatever compressor made it. -/
def IsPayload (payload : Bytes) (values : List SpeedGroup) : Prop :=
  ∃ room, Zlib.inflate payload room = .ok (pack values)

theorem isPayload_encode (values : List SpeedGroup) : IsPayload (encode values) values := by
  refine ⟨(pack values).length, ?_⟩
  rw [encode, Zlib.inflatesBack_deflate, if_pos le_rfl]

/-- Values come back if they are no more than `maxValues`. -/
theorem IsPayload.decode_eq (h : IsPayload payload values) (hfew : values.length ≤ maxValues) :
    decode payload = .ok values := by
  obtain ⟨room, hinflate⟩ := h
  have hlimit : maxValues = 0x1000000 := rfl
  rw [decode, decodeWithLimit_of_inflates (by omega) (Zlib.inflate_of_inflate hinflate).2,
    if_pos hfew]

/-- More values than `maxValues` do not come back, however many they are. -/
theorem IsPayload.exists_decode_eq_error (h : IsPayload payload values)
    (hmany : maxValues < values.length) : ∃ e, decode payload = .error e := by
  obtain ⟨room, hinflate⟩ := h
  cases hdecode : decode payload with
  | error e => exact ⟨e, rfl⟩
  | ok found =>
    obtain ⟨packed, hpacked, hunpack⟩ := exists_of_decodeInflated_eq_ok hdecode
    rw [(Zlib.inflate_of_inflate hinflate).2] at hpacked
    split at hpacked
    · cases hpacked
      obtain rfl := eq_of_unpack_pack hunpack
      -- What came back would be the values themselves, and they are too many.
      have hsame := unpack_of_unpack hunpack maxValues
      rw [hunpack, if_neg (by omega)] at hsame
      cases hsame
    · cases hpacked

end Values

/-- The speed groups `groups` are in the file `input`, and the configuration, if one is named, can
be read. -/
structure World.FindsGroups (world : World) (configFile : Option String) (input : String)
    (groups : List SpeedGroup) : Prop where
  config : (world.config? configFile).isSome
  parsed : world.parsed? SpeedGroup.parseList? input = some groups

namespace Machine

variable {σ : Type} {machine : Machine (StateM σ)} {before : σ} {configFile : Option String}
  {input output : String}

/-- Either there are no speed groups, and the command fails, or it goes on to write them. -/
theorem encodeValues_cases (h : machine.KeepsFiles) (output : String)
    (hconfig : ((machine.look before).config? configFile).isSome) :
    (∃ failure, CommandLine.encodeValues machine input output before = (.error failure, before) ∧
      ∀ groups, ¬ (machine.look before).FindsGroups configFile input groups) ∨
    ∃ groups, (machine.look before).FindsGroups configFile input groups ∧
      CommandLine.encodeValues machine input output before = (do
        CommandLine.writeFile machine output (Values.encode groups)
        return Report.record [("bytes", .number (Values.encode groups).length),
          ("values", .number groups.length)] : ExceptT Failure (StateM σ) Report) before := by
  unfold CommandLine.encodeValues
  cases hparsed : (machine.look before).parsed? SpeedGroup.parseList? input with
  | none =>
    have hnone (groups : List SpeedGroup) :
        ¬ (machine.look before).FindsGroups configFile input groups := by
      intro hfinds
      cases hparsed.symm.trans hfinds.parsed
    exact .inl ((exists_error_of_parsed? h hparsed ⟨"Invalid speed group JSON", []⟩
      fun bytes hbytes => by rw [hbytes]).imp fun failure hrun => ⟨hrun, hnone⟩)
  | some groups =>
    exact .inr ⟨groups, ⟨hconfig, hparsed⟩, bind_of_parsed? h hparsed fun bytes hsome => by
      rw [hsome]⟩

variable {environment : List (String × String)} {arguments : List String} {baseUrl : Option String}

/-- **Values in files.** Either there is nothing to be packed, and nothing is touched, or the groups
are packed and written, unless the file cannot be (`Packs`). Whenever a file holds them, packed by
whatever compressor (`IsPayload`), looking at it counts each group that occurs and no other
(`IsHistogram`), if they are no more than `maxValues`, and fails if they are more. -/
theorem packs_values (h : machine.KeepsFiles)
    (hparse : Invocation.parse environment arguments =
      .ok ⟨configFile, baseUrl, .encodeValues input output⟩) (before : σ) :
    machine.Packs output (fun bytes report => ∃ groups,
        (machine.look before).FindsGroups configFile input groups ∧
          bytes = Values.encode groups ∧ Values.IsPayload bytes groups ∧
          report = .record [("bytes", .number bytes.length), ("values", .number groups.length)])
      before (machine.perform environment arguments before) ∧
    ∀ groups payload, Values.IsPayload payload groups →
      (groups.length ≤ Values.maxValues → ∃ entries, SpeedGroup.IsHistogram entries groups ∧
        machine.EndsOn (.inspectValues output) output payload (.reported (.record
          [("bytes", .number payload.length), ("values", .number groups.length),
            ("speed_groups", .record (entries.map fun (group, count) =>
              (group.name, .number count)))]))) ∧
      (Values.maxValues < groups.length → ∃ failure,
        machine.EndsOn (.inspectValues output) output payload (.failed failure)) := by
  constructor
  · refine packs_perform (CommandLine.encodeValues machine input output) h hparse (fun _ => rfl)
      (fun _ _ ⟨_, hfinds, _⟩ => hfinds.config) fun hconfig => ?_
    rcases encodeValues_cases h output hconfig with
      ⟨failure, hrun, hnone⟩ | ⟨groups, hfinds, hrun⟩
    · exact .inl ⟨failure, hrun, fun _ _ ⟨groups, hfinds, _⟩ => hnone groups hfinds⟩
    · exact .inr ⟨_, _, ⟨groups, hfinds, rfl, Values.isPayload_encode groups, rfl⟩, hrun⟩
  · intro groups payload hpayload
    have hends : machine.EndsOn (.inspectValues output) output payload _ :=
      endsOn_inspect h (fun _ _ => rfl) Values.decode
        (fun e => ⟨"Invalid traffic values", e.causes⟩)
        (fun bytes groups => .record [("bytes", .number bytes.length),
          ("values", .number groups.length),
          ("speed_groups", SpeedGroup.histogramReport groups)])
        (fun _ _ hdecode => by rw [hdecode]) (fun _ _ hdecode => by rw [hdecode]) payload
    refine ⟨fun hfew => ?_, fun hmany => ?_⟩
    · rw [hpayload.decode_eq hfew] at hends
      exact ⟨_, SpeedGroup.isHistogram_histogram groups, hends⟩
    · obtain ⟨e, hdecode⟩ := hpayload.exists_decode_eq_error hmany
      rw [hdecode] at hends
      exact ⟨_, hends⟩

/-- Three speed groups of which two are the same. -/
theorem packs_values_three_groups :
    let text := "[\"G4\", \"TempBlock\", \"G4\"]"
    let files : String → Except FileFault Bytes := fun path =>
      if path = "groups.json" then .ok (Percent.bytesOf text) else .error .notFound
    let bytes := Values.encode [.g4, .tempBlock, .g4]
    ∃ after, ∃ entries : List (SpeedGroup × Nat),
      shelf.perform [] ["encode-values", "groups.json", "roads.traffic"] files =
        (.reported (.record [("bytes", .number bytes.length), ("values", .number 3)]), after) ∧
      shelf.perform [] ["inspect-values", "roads.traffic"] after =
        (.reported (.record [("bytes", .number bytes.length), ("values", .number 3),
          ("speed_groups", .record (entries.map fun (group, count) =>
            (group.name, .number count)))]), after) ∧
      (.g4, 2) ∈ entries ∧ (.tempBlock, 1) ∈ entries ∧ ∀ count, (.unknown, count) ∉ entries := by
  intro text files bytes
  have hparse : Invocation.parse [] ["encode-values", "groups.json", "roads.traffic"] =
      .ok ⟨none, none, .encodeValues "groups.json" "roads.traffic"⟩ := by decide +kernel
  have hlater : Invocation.parse [] ["inspect-values", "roads.traffic"] =
      .ok ⟨none, none, .inspectValues "roads.traffic"⟩ := by decide +kernel
  have hfinds : (shelf.look files).FindsGroups none "groups.json" [.g4, .tempBlock, .g4] :=
    ⟨rfl, by decide +kernel⟩
  obtain ⟨hpacks, hends⟩ := packs_values keepsFiles_shelf hparse files
  generalize hrun : shelf.perform [] ["encode-values", "groups.json", "roads.traffic"] files = run
    at hpacks
  cases hpacks with
  | refused hnone =>
    exact absurd ⟨_, hfinds, rfl, Values.isPayload_encode _, rfl⟩ (hnone _ _)
  | unwritten _ hwrite => cases hwrite
  | written hfound hwrite hafter =>
    obtain ⟨groups, hfound, rfl, hpayload, rfl⟩ := hfound
    cases hfinds.parsed.symm.trans hfound.parsed
    obtain ⟨entries, hentries, hends⟩ := (hends _ _ hpayload).1 (by decide)
    have hunknown (count : Nat) : (.unknown, count) ∉ entries := fun hmem =>
      absurd ((hentries.mem_iff _ _).mp hmem).1 (by decide)
    exact ⟨_, entries, rfl, hends _ _ _ _ _ hlater rfl hafter,
      (hentries.mem_iff _ _).mpr (by decide), (hentries.mem_iff _ _).mpr (by decide), hunknown⟩

end Machine

end RoadTraffic
