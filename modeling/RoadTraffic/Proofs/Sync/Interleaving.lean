import Mathlib
import RoadTraffic.Proofs.Coloring
import RoadTraffic.Proofs.KeyRoundTrip
import RoadTraffic.Proofs.Sync.History

/-!
# Interleaved operations

As long as no keys are set as they are, the keys of a session are always some that were unpacked,
and its coloring is that of the values that were accepted last, on the keys that they were accepted
for. This holds after every history of a new session, in whatever order the answers came in.

* `Operation.concluded_conclude`: an operation that `SetsNoKeys` takes a snapshot to one that is
  `Concluded` from it with its `acceptances`.
* `Interleaving.acceptancesAll concluded`: what a history has accepted, the last acceptance first.
* `Interleaving.Reached source waiting accepted session`: a history from `{}` leads to `session`.
* `Interleaving.History.consistent`: the coloring is `Coloring.ofParallel last.keys last.values` for
  the `last` acceptance.
* `Interleaving.Reached.runAll`: what `Step.runAll` brings about from `{}` is reached.
-/

namespace RoadTraffic

/-- Values that were accepted, and the keys at hand when they were. -/
structure Acceptance where
  keys : List SegmentId
  values : List SpeedGroup

/-- An operation that brings values yields this result if they were accepted. -/
def OperationResult.isAccepting : OperationResult → Bool
  | .done | .synced true => true
  | _ => false

namespace Operation

/-! ## Operations that set no keys -/

/-- The operation does not install keys as they are: it is no `.setKeys keys`. -/
def SetsNoKeys (operation : Operation) : Prop := ∀ keys, operation ≠ .setKeys keys

theorem setsNoKeys_of_request {source : Source} {token : String} {request : Request}
    {operation : Operation} (h : operation.request? source token = some request) :
    operation.SetsNoKeys := by
  rintro keys rfl
  cases h

/-! ## Accepted values -/

/-- The values that an operation brings: those that it is given, or those that it `received`. -/
def offered (received : Option (Request × Answer)) : Operation → Option (List SpeedGroup)
  | .updateValues values => some values
  | .sync =>
    match received with
    | some (_, .response response) =>
      if response.status = .ok then (Values.decode response.body).toOption else none
    | _ => none
  | _ => none

/-- The values that an operation brings to `keys`, if its `result` is that they were accepted. -/
def acceptances (received : Option (Request × Answer)) (result : OperationResult)
    (keys : List SegmentId) (operation : Operation) : List Acceptance :=
  match operation.offered received with
  | some values => if result.isAccepting then [⟨keys, values⟩] else []
  | none => []

theorem offered_sync {response : Response} {values : List SpeedGroup} {request : Request}
    (hstatus : response.status = .ok) (hvalues : Values.decode response.body = .ok values) :
    sync.offered (some (request, .response response)) = some values := by
  simp only [offered]
  rw [if_pos hstatus, hvalues]
  rfl

theorem offered_sync_of_status {response : Response} {request : Request}
    (hstatus : response.status ≠ .ok) :
    sync.offered (some (request, .response response)) = none := by
  simp only [offered]
  rw [if_neg hstatus]

/-! ## What a conclusion may come to -/

/-- What a reader may see once an operation has concluded that found `before`, and which values were
accepted. -/
inductive Concluded (before : Snapshot) : List Acceptance → Snapshot → Prop where
  /-- Keys may have been put in place. -/
  | loaded {after : Snapshot} (h : Step.KeysInstalled before after) : Concluded before [] after
  /-- The verdict may be another one. -/
  | judged (availability : Availability) : Concluded before [] { before with availability }
  /-- As many values as keys were brought. -/
  | colored {values : List SpeedGroup} (hlength : before.keys.length = values.length) :
      Concluded before [⟨before.keys, values⟩]
        { before with
          coloring := .ofList (before.keys.zip values)
          availability := .available
          published := before.published + 1 }

theorem concluded_of_syncOutcome {request : Request} {answer : Answer} {token token' : String}
    {before after : Snapshot} {current : Bool}
    (h : Step.SyncOutcome answer token before current token' after) :
    Concluded before
      (sync.acceptances (some (request, answer)) (.synced current) before.keys) after := by
  cases h with
  | accepted hanswer hstatus hvalues hlength =>
    rw [hanswer]
    unfold acceptances
    rw [offered_sync hstatus hvalues]
    exact .colored hlength
  | rejected hanswer hstatus hvalues =>
    rw [hanswer]
    unfold acceptances
    rw [offered_sync hstatus hvalues]
    exact .judged .noData
  | @unchanged response hanswer hstatus =>
    -- A response without values brings none, whatever it says of those at hand.
    have hoffered : response.status ≠ .ok := by rw [hstatus]; decide
    rw [hanswer]
    unfold acceptances
    rw [offered_sync_of_status hoffered]
    exact .judged .available
  | failed availability =>
    unfold acceptances
    cases sync.offered (some (request, answer)) <;> exact .judged availability

theorem keysInstalled_concludeFetch (source : Source) (received : Option (Request × Answer))
    (session : Session) :
    Step.KeysInstalled session.snapshot (concludeFetch source received session).2.snapshot := by
  cases received with
  | none => exact .inl rfl
  | some exchange => exact Step.keysInstalled_concludeKeys source exchange.1 _ session

/-- An operation that `SetsNoKeys` puts keys in place that were unpacked, passes a verdict, or
colors the keys at hand with values that it accepts. -/
theorem concluded_conclude (source : Source) (token : String)
    (received : Option (Request × Answer)) (session : Session) {operation : Operation}
    (h : operation.SetsNoKeys) :
    let ((result, _), after) := operation.conclude source token received session
    Concluded session.snapshot (operation.acceptances received result session.snapshot.keys)
      after.snapshot := by
  match operation with
  | .setKeys keys => exact absurd rfl (h keys)
  | .loadKeys (.ok (some bytes)) =>
    exact .loaded ((Step.keysInstalled_concludeSection source bytes session).warned source)
  | .loadKeys (.ok none) =>
    exact .loaded ((keysInstalled_concludeFetch source received session).warned source)
  | .loadKeys (.error fault) => exact .loaded (.inl rfl)
  | .fetchKeys => exact .loaded (keysInstalled_concludeFetch source received session)
  | .fetchValues =>
    cases received with
    | none => exact .loaded (.inl rfl)
    | some exchange => exact .judged _
  | .sync =>
    cases received with
    | none => exact .loaded (.inl rfl)
    | some exchange =>
      exact concluded_of_syncOutcome
        (Step.syncOutcome_concludeSync source exchange.1 token exchange.2 session)
  | .updateValues values =>
    by_cases hlength : session.snapshot.keys.length = values.length
    · dsimp only [conclude]
      rw [Session.colored_of_length hlength]
      exact .colored hlength
    · dsimp only [conclude]
      rw [Session.colored_of_length_ne hlength]
      exact .judged .noData
  | .speedGroup id => exact .loaded (.inl rfl)
  | .setToken taken => exact .loaded (.inl rfl)
  | .inspect => exact .loaded (.inl rfl)

end Operation

/-! ## Steps that set no keys -/

/-- The step does not install keys as they are, and neither do those that others run while it
waits. -/
inductive Step.SetsNoKeys : Step → Prop where
  | mk {operation : Operation} {answer : Answer} {meanwhile : List Step}
      (h : operation.SetsNoKeys) (hmeanwhile : ∀ step ∈ meanwhile, SetsNoKeys step) :
      SetsNoKeys (.mk operation answer meanwhile)

namespace Interleaving

variable {source : Source} {waiting : List (Waiting source)} {concluded : List (Conclusion source)}
  {accepted : List Acceptance} {session : Session} {token : String}

/-! ## Acceptances of a history -/

/-- The values that an operation accepted when it concluded, on the keys that it found
(`before.keys`). -/
def Conclusion.acceptances (conclusion : Conclusion source) : List Acceptance :=
  conclusion.operation.acceptances conclusion.received conclusion.result conclusion.before.keys

/-- The values that operations accepted, the last ones first. -/
def acceptancesAll (concluded : List (Conclusion source)) : List Acceptance :=
  concluded.reverse.flatMap Conclusion.acceptances

@[simp] theorem acceptancesAll_concat (concluded : List (Conclusion source))
    (conclusion : Conclusion source) :
    acceptancesAll (concluded ++ [conclusion]) =
      conclusion.acceptances ++ acceptancesAll concluded := by
  simp [acceptancesAll]

/-- The sessions that callers can bring about from a new one without setting keys, with the
operations that wait and the values that were `accepted`, the last ones first. -/
def Reached (source : Source) (waiting : List (Waiting source)) (accepted : List Acceptance)
    (session : Session) : Prop :=
  ∃ concluded, History source {} waiting concluded session ∧
    (∀ conclusion ∈ concluded, conclusion.operation.SetsNoKeys) ∧
    accepted = acceptancesAll concluded

/-! ## What a reader sees -/

/-- The keys were unpacked, and the coloring is `Coloring.ofParallel last.keys last.values` for the
last acceptance. -/
structure Consistent (accepted : List Acceptance) (snapshot : Snapshot) : Prop where
  keys : ∃ bytes, Keys.decode bytes = .ok snapshot.keys
  coloring : match accepted with
    | [] => snapshot.coloring = .empty
    | last :: _ => (∃ bytes, Keys.decode bytes = .ok last.keys) ∧
      Coloring.ofParallel last.keys last.values = .ok snapshot.coloring

theorem Consistent.new : Consistent [] {} where
  keys := ⟨[0, 0], rfl⟩
  coloring := rfl

theorem Consistent.conclude {before after : Snapshot} {more : List Acceptance}
    (h : Consistent accepted before) (hconcluded : Operation.Concluded before more after) :
    Consistent (more ++ accepted) after := by
  cases hconcluded with
  | loaded hinstalled =>
    obtain rfl | ⟨bytes, keys, hkeys, rfl⟩ := hinstalled
    · exact h
    · exact ⟨⟨bytes, hkeys⟩, h.coloring⟩
  | judged availability => exact ⟨h.keys, h.coloring⟩
  | @colored values hlength => exact ⟨h.keys, h.keys, if_pos hlength⟩

/-- A history keeps what a reader sees consistent: each conclusion does, and no other move changes
the snapshot. -/
theorem History.consistent (h : History source {} waiting concluded session)
    (hkeys : ∀ conclusion ∈ concluded, conclusion.operation.SetsNoKeys) :
    Consistent (acceptancesAll concluded) session.snapshot := by
  induction h with
  | start => exact .new
  | @done waiting concluded session after operation token token' result _ _ hconclude ih =>
    obtain ⟨hearlier, hlast⟩ := List.forall_mem_append.mp hkeys
    have hconcluded := operation.concluded_conclude source token none
      (operation.opened source session) (hlast _ List.mem_cons_self)
    rw [hconclude, Operation.snapshot_opened] at hconcluded
    rw [acceptancesAll_concat]
    exact (ih hearlier).conclude hconcluded
  | @asked waiting concluded session _ asking ih =>
    show Consistent (acceptancesAll concluded) (asking.operation.opened source session).snapshot
    rw [Operation.snapshot_opened]
    exact ih hkeys
  | @answered earlier later asking concluded session after token' result _ answer hconclude ih =>
    obtain ⟨hearlier, -⟩ := List.forall_mem_append.mp hkeys
    have hconcluded := asking.operation.concluded_conclude source asking.token
      (some (asking.request, answer)) session (Operation.setsNoKeys_of_request asking.made)
    rw [hconclude] at hconcluded
    rw [acceptancesAll_concat]
    exact (ih hearlier).conclude hconcluded

theorem Reached.consistent (h : Reached source waiting accepted session) :
    Consistent accepted session.snapshot := by
  obtain ⟨concluded, hhistory, hconcluded, rfl⟩ := h
  exact hhistory.consistent hconcluded

/-! ## Moves -/

namespace Reached

theorem new : Reached source [] [] {} := ⟨[], .start, by simp, rfl⟩

/-- One more `conclusion` adds what its operation accepted. -/
theorem concat {conclusion : Conclusion source}
    (h : History source {} waiting (concluded ++ [conclusion]) session)
    (hconcluded : ∀ conclusion ∈ concluded, conclusion.operation.SetsNoKeys)
    (hkeys : conclusion.operation.SetsNoKeys) :
    Reached source waiting (conclusion.acceptances ++ acceptancesAll concluded) session := by
  refine ⟨_, h, ?_, (acceptancesAll_concat concluded conclusion).symm⟩
  rw [List.forall_mem_append, List.forall_mem_singleton]
  exact ⟨hconcluded, hkeys⟩

/-- An operation that makes no request concludes at once. -/
theorem done {operation : Operation} {token' : String} {result : OperationResult}
    {after : Session} (h : Reached source waiting accepted session) (hkeys : operation.SetsNoKeys)
    (hrequest : operation.request? source token = none)
    (hconclude : operation.conclude source token none (operation.opened source session) =
      ((result, token'), after)) :
    Reached source waiting
      (operation.acceptances none result session.snapshot.keys ++ accepted) after := by
  obtain ⟨concluded, hhistory, hconcluded, rfl⟩ := h
  exact concat (hhistory.done hrequest hconclude) hconcluded hkeys

/-- An operation makes its request. -/
theorem asked (h : Reached source waiting accepted session) (asking : Waiting source) :
    Reached source (asking :: waiting) accepted
      ((asking.operation.opened source session).noted (.request asking.request)) := by
  obtain ⟨concluded, hhistory, hconcluded, rfl⟩ := h
  exact ⟨concluded, hhistory.asked asking, hconcluded, rfl⟩

/-- An answer comes in for one of the operations that wait, whenever it made its request. -/
theorem answered {earlier later : List (Waiting source)} {asking : Waiting source}
    {token' : String} {result : OperationResult} {after : Session}
    (h : Reached source (later ++ asking :: earlier) accepted session) (answer : Answer)
    (hconclude : asking.operation.conclude source asking.token
      (some (asking.request, answer)) session = ((result, token'), after)) :
    Reached source (later ++ earlier)
      (asking.operation.acceptances (some (asking.request, answer)) result
        session.snapshot.keys ++ accepted) after := by
  obtain ⟨concluded, hhistory, hconcluded, rfl⟩ := h
  -- Operations that set keys make no request, so none of those that wait does.
  have hkeys := Operation.setsNoKeys_of_request asking.made
  exact concat (hhistory.answered answer hconclude) hconcluded hkeys

end Reached

/-! ## Steps -/

theorem setsNoKeys_of_mem_conclusionsAll {steps : List Step}
    (hsteps : ∀ step ∈ steps, ∀ token session, ∀ conclusion ∈ step.conclusions source token session,
      conclusion.operation.SetsNoKeys) (token : String) (session : Session) :
    ∀ conclusion ∈ Step.conclusionsAll source token steps session,
      conclusion.operation.SetsNoKeys := by
  induction steps generalizing token session with
  | nil => simp [Step.conclusionsAll]
  | cons step steps ih =>
    obtain ⟨hstep, hsteps⟩ := List.forall_mem_cons.mp hsteps
    rw [Step.conclusionsAll, List.forall_mem_append]
    exact ⟨hstep token session, ih hsteps _ _⟩

theorem setsNoKeys_of_mem_conclusions {step : Step} (hstep : step.SetsNoKeys) (token : String)
    (session : Session) : ∀ conclusion ∈ step.conclusions source token session,
      conclusion.operation.SetsNoKeys := by
  induction hstep generalizing token session with
  | @mk operation answer meanwhile hkeys _ ih =>
    cases hrequest : operation.request? source token with
    | none => simpa [Step.conclusions_of_none hrequest] using hkeys
    | some request =>
      rw [Step.conclusions_of_request hrequest, List.forall_mem_append, List.forall_mem_singleton]
      exact ⟨setsNoKeys_of_mem_conclusionsAll ih "" _, hkeys⟩

/-- What steps bring about is reached: each operation waits while others run theirs, as in
`Step.conclusionsAll`. -/
theorem Reached.runAll {steps : List Step} (hsteps : ∀ step ∈ steps, step.SetsNoKeys)
    (token : String) :
    ∃ accepted, Reached source [] accepted (Step.runAll source token steps {}).2 :=
  ⟨_, _, Step.history_runAll source token steps {}, setsNoKeys_of_mem_conclusionsAll
    (fun step hstep => setsNoKeys_of_mem_conclusions (hsteps step hstep)) token {}, rfl⟩

/-! ## Keys and values that come in -/

section Sent

variable {bytes : Bytes} {keys : List SegmentId} {response : Response} {values : List SpeedGroup}

/-- A local key list that unpacks to `keys` is loaded. -/
theorem Reached.loaded (h : Reached source waiting accepted session)
    (hkeys : Keys.decode bytes = .ok keys) :
    ∃ after, Reached source waiting accepted after ∧ after.snapshot.keys = keys := by
  have hsets : (Operation.loadKeys (.ok (some bytes))).SetsNoKeys := nofun
  have hconclude : (Operation.loadKeys (.ok (some bytes))).conclude source "" none session =
      ((.done, ""), (session.logged [Source.record .info
        "Reading traffic keys from section" [source.editionField]]).withKeys keys) := by
    simp only [Operation.conclude, Source.concludeSection, hkeys]
    rfl
  exact ⟨_, h.done hsets rfl hconclude, rfl⟩

/-- The `values` that are sent for a round are accepted if they are as many as the `keys` at
hand. -/
theorem Reached.synced {later earlier : List (Waiting source)} {asking : Waiting source}
    (h : Reached source (later ++ asking :: earlier) accepted session)
    (hsync : asking.operation = .sync) (hstatus : response.status = .ok)
    (hvalues : Values.decode response.body = .ok values) (hkeys : session.snapshot.keys = keys)
    (hlength : keys.length = values.length) :
    ∃ after, Reached source (later ++ earlier) (⟨keys, values⟩ :: accepted) after := by
  obtain ⟨operation, token, request, made⟩ := asking
  obtain rfl : operation = .sync := hsync
  subst hkeys
  have hconclude : Operation.sync.conclude source token (some (request, .response response))
      session = ((.synced true, (response.header? revisionHeader).getD token),
        session.withColoring (.ofList (session.snapshot.keys.zip values))) := by
    simp only [Operation.conclude, Answer.reply, Source.concludeSync_of_decode hstatus hvalues,
      Session.colored_of_length hlength]
    rfl
  have hanswered := h.answered (.response response) hconclude
  rw [Operation.acceptances, Operation.offered_sync hstatus hvalues] at hanswered
  exact ⟨_, hanswered⟩

end Sent

/-! ## One round at a time -/

/-- **A reader sees one round at a time.** However operations that set no keys overlap (`Reached`),
the keys can be packed and are no more than `Keys.maxKeys`. The coloring is empty until values are
accepted; from then on it is that of the values accepted last and the keys that they were accepted
for, and holds each of these keys once, with the value at its place. Steps, overlapping as they may,
bring about nothing else. -/
theorem coloring_eq_ofParallel (source : Source) :
    (∀ waiting accepted session, Reached source waiting accepted session →
      (∃ bytes, Keys.encode session.snapshot.keys = .ok bytes) ∧
      session.snapshot.keys.length ≤ Keys.maxKeys ∧
      match accepted with
      | [] => session.snapshot.coloring = .empty
      | last :: _ =>
        Coloring.ofParallel last.keys last.values = .ok session.snapshot.coloring ∧
        last.keys.Nodup ∧ last.keys.length = last.values.length ∧
        session.snapshot.coloring.toList = last.keys.zip last.values) ∧
    ∀ token steps, (∀ step ∈ steps, step.SetsNoKeys) →
      ∃ accepted, Reached source [] accepted (Step.runAll source token steps {}).2 := by
  refine ⟨fun waiting accepted session h => ?_, fun token steps hsteps =>
    Reached.runAll hsteps token⟩
  obtain ⟨⟨bytes, hkeys⟩, hcoloring⟩ := h.consistent
  obtain ⟨hpacked, hmax⟩ := Keys.exists_encode_of_decode hkeys
  refine ⟨hpacked, hmax, ?_⟩
  cases accepted with
  | nil => exact hcoloring
  | cons last earlier =>
    obtain ⟨⟨bytes', hlast⟩, hparallel⟩ := hcoloring
    have hascending := Keys.pairwise_lt_of_decode hlast
    have hlength : last.keys.length = last.values.length := by
      by_contra hne
      rw [Coloring.ofParallel, if_neg hne] at hparallel
      cases hparallel
    refine ⟨hparallel, hascending.nodup, hlength, ?_⟩
    rw [Coloring.ofParallel, if_pos hlength, Except.ok.injEq] at hparallel
    rw [← hparallel, Coloring.toList_zip hascending hlength]

/-- Two rounds overlap, and other keys are loaded between their answers. -/
theorem coloring_eq_ofParallel_two_rounds :
    let source : Source := ⟨⟨"Monaco", 0⟩, 0, ⟨some "https://localhost/"⟩⟩
    let road : Acceptance := ⟨[⟨5, 0, .forward⟩], [.g0]⟩
    let roads : Acceptance :=
      ⟨[⟨5, 0, .forward⟩, ⟨5, 0, .backward⟩, ⟨9, 0, .forward⟩], [.g2, .g3, .tempBlock]⟩
    (∃ session, Reached source [] [roads, road] session ∧
      session.snapshot.coloring.toList = roads.keys.zip roads.values) ∧
    let overlap : Step :=
      .mk .sync (.fault "no response") [.mk (.updateValues []) (.fault "no response") []]
    ∃ accepted, Reached source [] accepted (Step.runAll source "" [overlap] {}).2 := by
  intro source road roads
  have hremote : source.remote.isConfigured := rfl
  have hstart : Reached source [] [] {} := .new
  obtain ⟨hreached, hsteps⟩ := coloring_eq_ofParallel source
  refine ⟨?_, hsteps "" _ ?_⟩
  · obtain ⟨request, hrequest⟩ := Source.exists_valuesRequest? hremote ""
    let round : Waiting source := ⟨.sync, "", request, hrequest⟩
    let sent (values : List SpeedGroup) : Response :=
      { status := .ok, body := Values.encode values }
    have hroad : Keys.decode [0, 1, 84, 1] = .ok road.keys := rfl
    have hroads : Keys.decode [0, 2, 148, 73, 2] = .ok roads.keys := rfl
    have hfirst : Values.decode (sent road.values).body = .ok road.values :=
      Values.decode_encode (by decide)
    have hsecond : Values.decode (sent roads.values).body = .ok roads.values :=
      Values.decode_encode (by decide)
    obtain ⟨_, hloaded, hkeys⟩ := hstart.loaded hroad
    have hasked : Reached source ([round] ++ round :: []) [] _ :=
      (hloaded.asked round).asked round
    obtain ⟨_, hcolored⟩ := hasked.synced rfl rfl hfirst hkeys rfl
    obtain ⟨changed, hchanged, hkeys'⟩ := hcolored.loaded hroads
    have hwaiting : Reached source ([] ++ round :: []) [road] changed := hchanged
    obtain ⟨session, hsession⟩ := hwaiting.synced rfl rfl hsecond hkeys' rfl
    exact ⟨session, hsession, (hreached _ _ _ hsession).2.2.2.2.2⟩
  · intro step hstep
    obtain rfl := List.mem_singleton.mp hstep
    refine .mk nofun fun other hother => ?_
    obtain rfl := List.mem_singleton.mp hother
    exact .mk nofun (by simp)

end Interleaving

end RoadTraffic
