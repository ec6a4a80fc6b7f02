import Mathlib
import RoadTraffic.Proofs.Coloring
import RoadTraffic.Proofs.KeyRoundTrip
import RoadTraffic.Proofs.Sync.Steps
import RoadTraffic.Proofs.ValueCodec

/-!
# From packed keys and values to speed groups

* `Step.runAll_fetchKeys_sync`: `.fetchKeys` and `.sync`, answered with keys and values that a
  server packed, color each segment with its own value.
-/

namespace RoadTraffic

namespace Step

/-- **Round trip through a server.** Whatever `session` was before, once `keys` and the `values`
that belong to them were fetched, it has these keys, each with the value at its place (`keys[i]` has
`values[i]`), and nothing else has any. -/
theorem runAll_fetchKeys_sync {compress : Bytes → Bytes} (hzlib : Zlib.InflatesBack compress)
    {source : Source} (hremote : source.remote.isConfigured) {keys : List SegmentId}
    {bytes : Bytes} (hkeys : Keys.encode keys = .ok bytes) (hmax : keys.length ≤ Keys.maxKeys)
    {values : List SpeedGroup} (hlength : values.length = keys.length) {keysResponse : Response}
    (hkeysStatus : keysResponse.status = .ok) (hkeysBody : keysResponse.body = bytes)
    {valuesResponse : Response} (hvaluesStatus : valuesResponse.status = .ok)
    (hvaluesBody : valuesResponse.body = compress (Values.pack values)) (token : String)
    (session : Session) :
    ∃ token' after,
      runAll source token
          [.mk .fetchKeys (.response keysResponse) [], .mk .sync (.response valuesResponse) []]
          session =
        ([.mk .done token [], .mk (.synced true) token' []], after) ∧
      after.snapshot.keys = keys ∧
      after.snapshot.availability = .available ∧
      (∀ (i : Nat) (hi : i < keys.length),
        after.snapshot.coloring.group keys[i] = values[i]) ∧
      ∀ id, id ∉ keys → after.snapshot.coloring.group id = .unknown := by
  obtain ⟨keysRequest, hkeysRequest⟩ := Source.exists_keysRequest? hremote
  obtain ⟨valuesRequest, hvaluesRequest⟩ := Source.exists_valuesRequest? hremote token
  have hkeysDecode : Keys.decode keysResponse.body = .ok keys := by
    rw [hkeysBody, Keys.decode_of_encode hkeys hmax]
  have hvaluesDecode : Values.decode valuesResponse.body = .ok values := by
    have hmaxKeys : Keys.maxKeys = 0x1000000 := rfl
    have hmaxValues : Values.maxValues = 0x1000000 := rfl
    -- As many values as keys are no more than allowed: both limits are the same.
    rw [hvaluesBody, Values.decode, Values.decodeWithLimit_pack hzlib (by omega),
      if_pos (by omega)]
  have hnodup := (Keys.pairwise_lt_of_encode hkeys).nodup
  let fetched := (session.noted (.request keysRequest)).withKeys keys
  let asked := fetched.noted (.request valuesRequest)
  have hcolored : asked.colored values =
      (.ok (), asked.withColoring (.ofList (keys.zip values))) :=
    Session.colored_of_length hlength.symm
  refine ⟨(valuesResponse.header? revisionHeader).getD token,
    asked.withColoring (.ofList (keys.zip values)), ?_, rfl, rfl, ?_, ?_⟩
  · have hfetch : run source token (.mk .fetchKeys (.response keysResponse) []) session =
        (.mk .done token [], fetched) :=
      run_fetchKeys_of_decode hkeysRequest hkeysStatus hkeysDecode
    have hsync : run source token (.mk .sync (.response valuesResponse) []) fetched =
        (.mk (.synced true) ((valuesResponse.header? revisionHeader).getD token) [],
          asked.withColoring (.ofList (keys.zip values))) := by
      rw [run_sync_of_decode hvaluesRequest hvaluesStatus hvaluesDecode, hcolored]
      rfl
    rw [runAll_cons hfetch, runAll_cons hsync, runAll]
  · exact fun i hi => Coloring.group_getElem hnodup hlength.symm hi
  · exact fun id hid => Coloring.group_of_notMem hnodup hlength.symm hid

/-- A road with two directions and a one-way road, one segment each. -/
theorem runAll_fetchKeys_sync_two_roads :
    let source : Source := ⟨⟨"Monaco", 0⟩, 0, ⟨some "https://localhost/"⟩⟩
    let keys : List SegmentId := [⟨5, 0, .forward⟩, ⟨5, 0, .backward⟩, ⟨9, 0, .forward⟩]
    let values : List SpeedGroup := [.g2, .g3, .tempBlock]
    let keysResponse : Response := { status := .ok, body := [0, 2, 148, 73, 2] }
    let valuesResponse : Response := { status := .ok, body := Values.encode values }
    Keys.encode keys = .ok keysResponse.body ∧
    ∃ token after,
      runAll source ""
          [.mk .fetchKeys (.response keysResponse) [], .mk .sync (.response valuesResponse) []]
          {} =
        ([.mk .done "" [], .mk (.synced true) token []], after) ∧
      after.snapshot.keys = keys ∧
      after.snapshot.availability = .available ∧
      after.snapshot.coloring.group ⟨5, 0, .backward⟩ = .g3 ∧
      after.snapshot.coloring.group ⟨9, 0, .backward⟩ = .unknown := by
  intro source keys values keysResponse valuesResponse
  have hremote : source.remote.isConfigured := rfl
  have hkeys : Keys.encode keys = .ok keysResponse.body :=
    Keys.encode_eq_ok_iff.mpr ⟨[⟨5, 0, false⟩, ⟨9, 0, true⟩], [148, 73, 2],
      by simp [Keys.Ascending], rfl, by rw [Varint.encode]; rfl, 6, by decide, by decide⟩
  obtain ⟨token, after, hrun, hafterKeys, havailable, hgroups, hothers⟩ :=
    runAll_fetchKeys_sync Zlib.inflatesBack_deflate hremote hkeys (by decide)
      (show values.length = keys.length from rfl) (show keysResponse.status = .ok from rfl) rfl
      (show valuesResponse.status = .ok from rfl) rfl "" {}
  exact ⟨hkeys, token, after, hrun, hafterKeys, havailable, hgroups 1 (by decide),
    hothers _ (by decide)⟩

end Step

end RoadTraffic
