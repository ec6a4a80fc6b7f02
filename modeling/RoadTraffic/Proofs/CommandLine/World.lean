import Mathlib
import RoadTraffic.CommandLine.Run
import RoadTraffic.Proofs.Failing
import RoadTraffic.Proofs.Sync.Conclusions
import RoadTraffic.Sync.Script

/-!
# What a command finds around it

A world is what a command can tell of the machine it runs on if it only looks: what there is to be
read, and how servers answer. Anything may come in from a server, depending on all that it was
asked before.

* `World.machine`: the machine of a world, which keeps what goes out.
* `Machine.Shows machine world state`: what is read in `state` are the files of `world`.
* `World.run_send`: what goes out for a request (`Client.sent`), and the reply to it (`answerTo`).
* `World.exists_answerTo_eq`: a response that comes in whole is the answer.
* `Machine.exists_readConfig_eq`/`World.readSection_eq`: what is read of the configuration and of
  keys.
* `World.run_loadKeys`/`run_sync`/`run_synchronize`: bringing a session up to date.
-/

namespace RoadTraffic

/-- What goes out for a request: nothing if its address cannot be asked. -/
def Client.sent (request : Request) : List Outgoing := (outgoing request).toOption.toList

/-- Files, and servers. -/
structure World where
  /-- What comes of reading the file at a path. -/
  files : String → Except FileFault Bytes
  /-- All bytes that come in for a request in the given number of seconds, after earlier ones. -/
  answer : (seconds : Nat) → (earlier : List Outgoing) → Outgoing → Bytes

namespace World

/-- The machine of a world. It keeps what goes out, and its files cannot be written. -/
def machine (world : World) : Machine (StateM (List Outgoing)) where
  readFile path := pure (world.files path)
  writeFile _ _ := pure (.error (.other "Read-only file system (os error 30)"))
  exchange seconds outgoing := fun earlier =>
    (world.answer seconds earlier outgoing, earlier ++ [outgoing])

/-- What comes in for `request` after what went out `earlier`: a response, or the text of a
fault. -/
def answerTo (world : World) (seconds : Nat) (earlier : List Outgoing) (request : Request) :
    Answer :=
  match Client.outgoing request with
  | .error text => .fault text
  | .ok outgoing =>
    let incoming := Incoming.parse? (world.answer seconds earlier outgoing)
    match Client.reply request outgoing.url incoming with
    | .ok response => .response response
    | .error fault => .fault fault.text

/-- The configuration in the file that is given, if it can be read and makes sense. Without a file
nothing is configured, which is `some {}`. -/
def config? (world : World) : Option String → Option Config
  | none => some {}
  | some path =>
    match world.files path with
    | .ok bytes => Config.parse? bytes
    | .error _ => none

/-- What comes of reading the local key list of `edition`, if a folder is configured. -/
def reading (world : World) (config : Config) (edition : Edition) : SectionReading :=
  match config.keysFolder with
  | none => .ok none
  | some folder => KeysFolder.reading (world.files (KeysFolder.file ⟨folder⟩ edition))

/-- How a session in the world makes requests, each of which may take so many `seconds`. -/
def send (world : World) (seconds : Nat) (request : Request) :
    SessionT (StateM (List Outgoing)) Reply :=
  StateT.lift (Client.send (world.machine.exchange seconds) request)

end World

/-! ## Files -/

namespace Machine

variable {σ α : Type} {machine : Machine (StateM σ)} {world : World} {state : σ}

/-- Reading in `state` shows the files of `world` and leaves everything as it is. -/
def Shows (machine : Machine (StateM σ)) (world : World) (state : σ) : Prop :=
  ∀ path, machine.readFile path state = (world.files path, state)

theorem lift_eq (step : StateM σ α) (state : σ) :
    (liftM step : ExceptT Failure (StateM σ) α) state = (.ok (step state).1, (step state).2) := rfl

theorem readFile_eq (h : machine.Shows world state) (kind path : String) :
    CommandLine.readFile machine kind path state =
      match world.files path with
      | .ok bytes => (.ok bytes, state)
      | .error fault => (.error ⟨s!"Failed to read {kind} at {path}", [fault.message]⟩, state) := by
  refine (bind_of_ok (lift_eq _ state)).trans ?_
  rw [h path]
  cases world.files path <;> rfl

/-- Reading the configuration touches nothing and asks nobody, and there is one way in which it
fails: `world.config? path` is `none`. -/
theorem exists_readConfig_eq (h : machine.Shows world state) (path : Option String) :
    ∃ failure, CommandLine.readConfig machine path state =
      match world.config? path with
      | some config => (.ok config, state)
      | none => (.error failure, state) := by
  unfold World.config? CommandLine.readConfig
  cases path with
  | none => exact ⟨⟨"", []⟩, rfl⟩
  | some path =>
    dsimp only
    have hread := readFile_eq h "config" path
    cases hfile : world.files path with
    | error fault =>
      rw [hfile] at hread
      exact ⟨_, bind_of_error hread⟩
    | ok bytes =>
      rw [hfile] at hread
      refine ⟨⟨"Invalid JSON in traffic config", []⟩, (bind_of_ok hread).trans ?_⟩
      dsimp only
      cases Config.parse? bytes <;> rfl

section Run

variable {β : Type} {before after : σ} {invocation : Invocation}

theorem run_bind_of_run {first : StateM σ α} {second : α → StateM σ β} {a : α}
    (h : first.run before = (a, after)) :
    (first >>= second).run before = (second a).run after := by
  rw [StateT.run_bind, h]
  rfl

theorem runInvocation_of_error {failure : Failure}
    (h : CommandLine.readConfig machine invocation.config before = (.error failure, after)) :
    (CommandLine.runInvocation machine invocation).run before = ((.error failure, []), after) :=
  run_bind_of_run h

theorem runInvocation_of_ok {config : Config}
    (h : CommandLine.readConfig machine invocation.config before = (.ok config, after)) :
    (CommandLine.runInvocation machine invocation).run before =
      (CommandLine.runCommand machine config invocation.baseUrl invocation.command).run after :=
  run_bind_of_run h

end Run

end Machine

namespace World

variable (world : World) (seconds : Nat) (earlier : List Outgoing) (request : Request)
  (source : Source) (session : Session)

/-! ## Requests -/

/-- What comes after a command starts from what it leaves: its session, and what has gone out by
then. -/
theorem run_bind {α β : Type} (command : SessionT (StateM (List Outgoing)) α)
    (next : α → SessionT (StateM (List Outgoing)) β) :
    (command >>= next) session earlier =
      let ((found, session), asked) := command session earlier
      next found session asked := rfl

/-- A fault of a request names its address, which is `request.url`. -/
theorem url_of_reply_error {request : Request} {url : Url} {incoming : Option Incoming}
    {fault : TransportError} (h : Client.reply request url incoming = .error fault) :
    fault.url = request.url := by
  unfold Client.reply at h
  split at h
  · cases h
    rfl
  · split at h
    · cases h
    · cases h
      rfl

/-- A `send` adds to what went out (`Client.sent request`) and replies with what comes in
(`answerTo`). -/
theorem run_send :
    world.send seconds request session earlier =
      (((world.answerTo seconds earlier request).reply request, session),
        earlier ++ Client.sent request) := by
  unfold send Client.send answerTo Client.sent
  cases houtgoing : Client.outgoing request with
  | error text =>
    show ((_, session), earlier) = _
    rw [Except.toOption, Option.toList_none, List.append_nil]
    rfl
  | ok outgoing =>
    let incoming := Incoming.parse? (world.answer seconds earlier outgoing)
    show ((Client.reply request outgoing.url incoming, session), earlier ++ [outgoing]) = _
    dsimp only
    cases hreply : Client.reply request outgoing.url incoming with
    | ok response => rfl
    | error fault =>
      dsimp only [Answer.reply]
      rw [← url_of_reply_error hreply]
      rfl

theorem shows_machine : world.machine.Shows world earlier := fun _ => rfl

theorem readSection_eq (config : Config) (edition : Edition) :
    CommandLine.readSection world.machine config edition = pure (world.reading config edition) := by
  unfold CommandLine.readSection reading
  cases config.keysFolder <;> rfl

/-! ## Bringing a session up to date -/

/-- Keys are loaded from the local key list, or else from what comes in for `keysRequest?`. -/
theorem run_loadKeys (reading : SectionReading) :
    source.loadKeys (world.send seconds) reading session earlier =
      match reading with
      | .ok (some bytes) => (source.warned (source.concludeSection bytes session), earlier)
      | .error fault => (source.warned (.error (.localKeys fault), session), earlier)
      | .ok none =>
        match source.keysRequest? with
        | none => (source.warned (.error .noServer, source.webAnnounced session), earlier)
        | some request =>
          (source.warned (source.concludeKeys request
              ((world.answerTo seconds earlier request).reply request)
              (source.webAnnounced session)),
            earlier ++ Client.sent request) := by
  rw [Source.loadKeys_eq]
  match reading with
  | .ok (some bytes) | .error fault => rfl
  | .ok none =>
    refine (congrFun (Session.modifyGet_bind _ _ session) earlier).trans ?_
    dsimp only
    cases source.keysRequest? with
    | none => rfl
    | some request =>
      refine (run_bind earlier _ (world.send seconds request) _).trans ?_
      rw [run_send]
      rfl

/-- A round of synchronization concludes with what comes in for `valuesRequest?`. -/
theorem run_sync (token : String) :
    source.sync (world.send seconds) token session earlier =
      match source.valuesRequest? token with
      | none => (((false, token), session.logged [source.failedRound .noServer]), earlier)
      | some request =>
        (source.concludeSync request token
            ((world.answerTo seconds earlier request).reply request) session,
          earlier ++ Client.sent request) := by
  rw [Source.sync_eq]
  cases source.valuesRequest? token with
  | none => rfl
  | some request =>
    refine (run_bind earlier session (world.send seconds request) _).trans ?_
    rw [run_send]
    rfl

/-- Once the keys are loaded a round of synchronization follows, and what it leaves is reported. -/
theorem run_synchronize (config : Config) (token : String) :
    CommandLine.synchronize world.machine config source token session earlier =
      match source.loadKeys (world.send config.seconds) (world.reading config source.edition)
        (session.logged (CommandLine.settingRecords config source.remote)) earlier with
      | ((.error e, after), asked) =>
        ((.error ⟨"Failed to load traffic keys", e.causes⟩, after), asked)
      | ((.ok (), after), asked) =>
        let (((synced, token), after), asked) :=
          source.sync (world.send config.seconds) token after asked
        ((.ok (CommandLine.syncReport source.edition synced token after.snapshot), after), asked) :=
  by
  unfold CommandLine.synchronize
  rw [readSection_eq]
  refine (congrFun (Session.modifyGet_bind _ _ session) earlier).trans ?_
  refine (run_bind _ _ _ _).trans ?_
  refine (run_bind earlier (session.logged (CommandLine.settingRecords config source.remote))
    (source.loadKeys (world.send config.seconds) (world.reading config source.edition)) _).trans ?_
  generalize source.loadKeys (world.send config.seconds) (world.reading config source.edition)
    (session.logged (CommandLine.settingRecords config source.remote)) earlier = loaded
  obtain ⟨⟨_ | _, after⟩, asked⟩ := loaded
  · rfl
  · rfl

end World

end RoadTraffic
