import Mathlib
import RoadTraffic.Proofs.Sync.Revisions

/-!
# Histories of a session

Callers do not wait for one another. Any number of requests may be on their way while other
operations begin, and their answers come in in any order. However operations overlap, they conclude
one after the other, and nothing else changes what a reader sees. A history is what has concluded
since some session, whatever it was.

* `Interleaving.History source start waiting concluded session`: the operations that wait, those
  that have concluded, and the `session` that they brought about from `start`.
* `Interleaving.History.snapshots_eq`: what one conclusion leaves (`after`) is what the next one
  finds (`before`).
* `Step.history_runAll`: `runAll source token steps session` brings about the history
  `conclusionsAll source token steps session`.
-/

namespace RoadTraffic

/-- What the operation of a step came to. -/
def StepReport.result : StepReport → OperationResult
  | .mk result _ _ => result

namespace Interleaving

/-! ## Operations that wait or have concluded -/

/-- An operation that waits for the answer to its `request`, and the revision `token` of its
caller. -/
structure Waiting (source : Source) where
  operation : Operation
  token : String
  request : Request
  made : operation.request? source token = some request

/-- An operation that has concluded with `result`, and what it `received` if it made a request. A
reader saw `before` when it did so, and sees `after` from then on. -/
structure Conclusion (source : Source) where
  operation : Operation
  token : String
  received : Option (Request × Answer)
  made : received.map Prod.fst = operation.request? source token
  result : OperationResult
  before : Snapshot
  after : Snapshot

variable {source : Source}

/-- The operation once its `answer` has come in. -/
def Waiting.concluded (asking : Waiting source) (answer : Answer) (result : OperationResult)
    (before after : Snapshot) : Conclusion source where
  operation := asking.operation
  token := asking.token
  received := some (asking.request, answer)
  made := asking.made.symm
  result := result
  before := before
  after := after

/-! ## Histories -/

/-- The operations that wait and those that have concluded, in order, since the session was
`start`. Requests may be on their way while other operations begin, and answers come in in any
order. -/
inductive History (source : Source) (start : Session) :
    List (Waiting source) → List (Conclusion source) → Session → Prop where
  | start : History source start [] [] start
  /-- An operation makes no request and concludes at once. -/
  | done {waiting : List (Waiting source)} {concluded : List (Conclusion source)}
      {session after : Session} {operation : Operation} {token token' : String}
      {result : OperationResult} (h : History source start waiting concluded session)
      (hrequest : operation.request? source token = none)
      (hconclude : operation.conclude source token none (operation.opened source session) =
        ((result, token'), after)) :
      History source start waiting
        (concluded ++ [⟨operation, token, none, hrequest.symm, result, session.snapshot,
          after.snapshot⟩]) after
  /-- An operation makes its request. -/
  | asked {waiting : List (Waiting source)} {concluded : List (Conclusion source)}
      {session : Session} (h : History source start waiting concluded session)
      (asking : Waiting source) :
      History source start (asking :: waiting) concluded
        ((asking.operation.opened source session).noted (.request asking.request))
  /-- An answer comes in for one of the operations that wait, whenever it made its request. -/
  | answered {earlier later : List (Waiting source)} {asking : Waiting source}
      {concluded : List (Conclusion source)} {session after : Session} {token' : String}
      {result : OperationResult}
      (h : History source start (later ++ asking :: earlier) concluded session) (answer : Answer)
      (hconclude : asking.operation.conclude source asking.token
        (some (asking.request, answer)) session = ((result, token'), after)) :
      History source start (later ++ earlier)
        (concluded ++ [asking.concluded answer result session.snapshot after.snapshot]) after

variable {start session : Session} {waiting : List (Waiting source)}
  {concluded : List (Conclusion source)}

/-- What a reader sees changes when operations conclude, and at no other time: each `after` is the
next `before`, and the last one is `session.snapshot`. -/
theorem History.snapshots_eq (h : History source start waiting concluded session) :
    start.snapshot :: concluded.map (·.after) =
      concluded.map (·.before) ++ [session.snapshot] := by
  induction h with
  | start => rfl
  | done _ _ _ ih =>
    rw [List.map_append, ← List.cons_append, ih, List.map_append]
    rfl
  | asked _ asking ih =>
    show _ = _ ++ [(asking.operation.opened source _).snapshot]
    rwa [Operation.snapshot_opened]
  | answered _ _ _ ih =>
    rw [List.map_append, ← List.cons_append, ih, List.map_append]
    rfl

end Interleaving

/-! ## Steps -/

namespace Step

open Interleaving

mutual

/-- The operations that have concluded when a step has: those of others that ran `meanwhile`, and
then its own. -/
def conclusions (source : Source) (token : String) : Step → Session → List (Conclusion source)
  | .mk operation answer meanwhile, session =>
    let before := (found source token session (.mk operation answer meanwhile)).snapshot
    let result := (run source token (.mk operation answer meanwhile) session).1.result
    let after := (run source token (.mk operation answer meanwhile) session).2.snapshot
    match hrequest : operation.request? source token with
    | none => [⟨operation, token, none, hrequest.symm, result, before, after⟩]
    | some request =>
      conclusionsAll source "" meanwhile
          ((operation.opened source session).noted (.request request)) ++
        [Waiting.concluded ⟨operation, token, request, hrequest⟩ answer result before after]

/-- The operations that have concluded when all steps have. -/
def conclusionsAll (source : Source) (token : String) :
    List Step → Session → List (Conclusion source)
  | [], _ => []
  | step :: steps, session =>
    conclusions source token step session ++
      conclusionsAll source (run source token step session).1.token steps
        (run source token step session).2

end

variable {source : Source} {token : String} {operation : Operation} {answer : Answer}
  {meanwhile steps : List Step} {start session : Session} {request : Request}
  {waiting : List (Waiting source)} {concluded : List (Conclusion source)}

theorem conclusions_of_none (h : operation.request? source token = none) (session : Session) :
    conclusions source token (.mk operation answer meanwhile) session =
      [⟨operation, token, none, h.symm,
        (run source token (.mk operation answer meanwhile) session).1.result, session.snapshot,
        (run source token (.mk operation answer meanwhile) session).2.snapshot⟩] := by
  rw [conclusions]
  split
  · rw [found_of_none h, Operation.snapshot_opened]
  · next hrequest =>
    rw [h] at hrequest
    cases hrequest

theorem conclusions_of_request (h : operation.request? source token = some request)
    (session : Session) :
    conclusions source token (.mk operation answer meanwhile) session =
      conclusionsAll source "" meanwhile
          ((operation.opened source session).noted (.request request)) ++
        [Waiting.concluded ⟨operation, token, request, h⟩ answer
          (run source token (.mk operation answer meanwhile) session).1.result
          (wait source request meanwhile (operation.opened source session)).2.snapshot
          (run source token (.mk operation answer meanwhile) session).2.snapshot] := by
  rw [conclusions]
  split
  · next hrequest =>
    rw [h] at hrequest
    cases hrequest
  · next hrequest =>
    obtain rfl := Option.some.inj (h.symm.trans hrequest)
    rw [found_of_request h]

theorem history_runAll_of_forall {steps : List Step}
    (hsteps : ∀ step ∈ steps, ∀ token waiting concluded session,
      History source start waiting concluded session →
        History source start waiting (concluded ++ conclusions source token step session)
          (run source token step session).2)
    (token : String) (h : History source start waiting concluded session) :
    History source start waiting (concluded ++ conclusionsAll source token steps session)
      (runAll source token steps session).2 := by
  induction steps generalizing token concluded session with
  | nil => simpa [conclusionsAll, runAll] using h
  | cons step steps ih =>
    obtain ⟨hstep, hsteps⟩ := List.forall_mem_cons.mp hsteps
    have hrest := ih hsteps (run source token step session).1.token
      (hstep token waiting concluded session h)
    rw [conclusionsAll, runAll_cons_eq, ← List.append_assoc]
    exact hrest

/-- What a step brings about is a history, in which its operation waits while others run theirs:
`conclusions` are added to what has `concluded`. -/
theorem history_run (token : String) (step : Step)
    (h : History source start waiting concluded session) :
    History source start waiting (concluded ++ conclusions source token step session)
      (run source token step session).2 := by
  induction step using Step.induction generalizing waiting concluded session token with
  | mk operation answer meanwhile ih =>
    cases hrequest : operation.request? source token with
    | none =>
      obtain ⟨⟨⟨result, token'⟩, after⟩, hconclude⟩ : ∃ outcome,
          operation.conclude source token none (operation.opened source session) = outcome :=
        ⟨_, rfl⟩
      rw [conclusions_of_none hrequest, run_of_none hrequest hconclude]
      exact h.done hrequest hconclude
    | some request =>
      let asking : Waiting source := ⟨operation, token, request, hrequest⟩
      -- Others run while the operation waits: what they conclude comes before what it does.
      have hwait := history_runAll_of_forall (fun step hstep token _ _ _ h => ih step hstep token h)
        "" (h.asked asking)
      have hasking : History source start ([] ++ asking :: waiting) _ _ := hwait
      obtain ⟨⟨⟨result, token'⟩, after⟩, hconclude⟩ : ∃ outcome,
          operation.conclude source token (some (request, answer))
            (wait source request meanwhile (operation.opened source session)).2 = outcome :=
        ⟨_, rfl⟩
      rw [conclusions_of_request hrequest, run_of_request hrequest rfl hconclude,
        ← List.append_assoc]
      exact hasking.answered answer hconclude

theorem history_runAll (source : Source) (token : String) (steps : List Step)
    (session : Session) :
    History source session [] (conclusionsAll source token steps session)
      (runAll source token steps session).2 :=
  history_runAll_of_forall (fun step _ token _ _ _ h => history_run token step h) token .start

end Step

end RoadTraffic
