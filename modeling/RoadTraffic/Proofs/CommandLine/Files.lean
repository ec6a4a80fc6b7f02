import Mathlib
import RoadTraffic.CommandLine.Rehearsal
import RoadTraffic.Proofs.CommandLine.World

/-!
# Commands that write a file

What a command writes another one reads. All that is asked of the machine in between is that files
can be read as often as one likes and that what was written, if that did not fail, is what is read.

* `FileTree.read_of_write`: `tree'.read path = .ok bytes` if `tree.write path bytes = .ok tree'`.
* `Machine.KeepsFiles`: what is asked of a machine. `Rehearsal.keepsFiles`: rehearsals do it.
* `Machine.Packs`: how a command ends that makes a file of another, by `Machine.packs_perform`.
* `Machine.EndsOn`: how a command ends that looks at a file, by `Machine.endsOn_inspect`.
-/

namespace RoadTraffic

/-! ## Trees of files -/

namespace FileTree

variable {tree : FileTree} {place place' : Place} {names : List String} {bytes : Bytes}

/-- A file in place of anything but a folder is in nobody's way: what is a folder stays one. -/
theorem entry?_insert (hfile : tree.entry? (.inside names) ≠ some .folder)
    (hplace : tree.entry? place = some .folder) :
    entry? ⟨tree.entries.insert names (.file bytes)⟩ place = some .folder := by
  match place with
  | .above | .inside [] => rfl
  | .inside (name :: folders) =>
    have hne : names ≠ name :: folders := by
      rintro rfl
      exact hfile hplace
    change (tree.entries.insert names (.file bytes))[name :: folders]? = some .folder
    rw [Std.ExtTreeMap.getElem?_insert, if_neg (by simpa using hne)]
    exact hplace

theorem entry?_of_step {name : String} (h : tree.step place name = .ok place') :
    tree.entry? place = some .folder := by
  unfold step at h
  split at h
  · cases h
  · cases h
  · assumption

theorem step_insert {name : String} (hfile : tree.entry? (.inside names) ≠ some .folder)
    (h : tree.step place name = .ok place') :
    step ⟨tree.entries.insert names (.file bytes)⟩ place name = .ok place' := by
  have hplace := entry?_of_step h
  unfold step at h ⊢
  rw [entry?_insert hfile hplace]
  rwa [hplace] at h

/-- Names lead to the same `place'` as before. -/
theorem walk_insert {path : List String} (hfile : tree.entry? (.inside names) ≠ some .folder)
    (h : tree.walk place path = .ok place') :
    walk ⟨tree.entries.insert names (.file bytes)⟩ place path = .ok place' := by
  induction path generalizing place with
  | nil => exact h
  | cons name path ih =>
    unfold walk at h ⊢
    split at h
    · cases h
    · next middle hstep =>
      rw [step_insert hfile hstep]
      exact ih h

theorem walk_append {path : List String} {name : String} (h : tree.walk place path = .ok place') :
    tree.walk place (path ++ [name]) = tree.step place' name := by
  induction path generalizing place with
  | nil =>
    cases h
    rw [List.nil_append]
    unfold walk walk
    split <;> simp [*]
  | cons first path ih =>
    rw [List.cons_append]
    unfold walk at h ⊢
    split at h
    · cases h
    · exact ih h

/-- A file that was written stands where the folder `place` and `name` say, and nothing else
changes. -/
theorem exists_of_writeAt {tree' : FileTree} {name : String}
    (h : tree.writeAt place name bytes = .ok tree') :
    ∃ names, tree.step place name = .ok (.inside names) ∧
      tree.entry? (.inside names) ≠ some .folder ∧
      tree' = ⟨tree.entries.insert names (.file bytes)⟩ := by
  unfold writeAt at h
  split at h
  · cases h
  · cases h
  · next names hstep =>
    split at h
    · cases h
    · next hfile =>
      cases h
      exact ⟨names, hstep, hfile, rfl⟩

/-- Only a path that ends with a name can be written to: `folders ++ [name]`. -/
theorem exists_of_write {tree' : FileTree} {path : String} (h : tree.write path bytes = .ok tree') :
    ∃ start folders name folder, parse path = .ok (start, folders ++ [name]) ∧
      tree.walk start folders = .ok folder ∧ tree.writeAt folder name bytes = .ok tree' := by
  unfold write at h
  split at h
  · cases h
  · next start names hparse =>
    dsimp only at h
    split at h
    · cases h
    · next name folders hnames =>
      split at h
      · cases h
      · next folder hwalk =>
        split at h
        · next htrailing =>
          have hreverse : names.reverse = name :: folders := by
            rw [← List.takeWhile_append_dropWhile (p := (· == "")) (l := names.reverse), hnames,
              List.isEmpty_iff.mp htrailing, List.nil_append]
          have hpath : names = folders.reverse ++ [name] := by
            rw [← List.reverse_reverse names, hreverse, List.reverse_cons]
          exact ⟨start, folders.reverse, name, folder, hpath ▸ hparse, hwalk, h⟩
        · split at h <;> cases h

/-- **What is written is read.** -/
theorem read_of_write {tree' : FileTree} {path : String} (h : tree.write path bytes = .ok tree') :
    tree'.read path = .ok bytes := by
  obtain ⟨start, folders, name, folder, hparse, hwalk, hwrite⟩ := exists_of_write h
  obtain ⟨names, hstep, hfile, rfl⟩ := exists_of_writeAt hwrite
  have hnames : names ≠ [] := by
    rintro rfl
    exact hfile rfl
  -- The file took nobody's way to the folder in which it is.
  have hplace : walk ⟨tree.entries.insert names (.file bytes)⟩ start (folders ++ [name]) =
      .ok (.inside names) :=
    (walk_append (walk_insert hfile hwalk)).trans (step_insert hfile hstep)
  have hentry : entry? ⟨tree.entries.insert names (.file bytes)⟩ (.inside names) =
      some (.file bytes) := by
    obtain ⟨last, others, rfl⟩ := List.exists_cons_of_ne_nil hnames
    exact Std.ExtTreeMap.getElem?_insert_self
  unfold read
  rw [hparse]
  dsimp only
  rw [hplace]
  dsimp only
  rw [hentry]

end FileTree

/-! ## Machines that keep files -/

/-- What the bytes of the file at `path` stand for, if they can be read and `parse?` makes something
of them. -/
def World.parsed? {α : Type} (world : World) (parse? : Bytes → Option α) (path : String) :
    Option α :=
  (world.files path).toOption.bind parse?

namespace Machine

variable {σ : Type} (machine : Machine (StateM σ))

/-- What a command can tell of a machine in `state` if it only looks. -/
def look (state : σ) : World where
  files path := (machine.readFile path state).1
  answer seconds _ outgoing := (machine.exchange seconds outgoing state).1

/-- Files can be read as often as one likes, and what is written is read. -/
structure KeepsFiles : Prop where
  /-- Reading leaves everything as it is. -/
  read (path : String) (state : σ) : (machine.readFile path state).2 = state
  /-- Bytes that were written are those of the file. A write that failed may have left anything. -/
  written {path : String} {bytes : Bytes} {before after : σ} :
    machine.writeFile path bytes before = (.ok (), after) →
      (machine.look after).files path = .ok bytes

end Machine

/-- Files by their paths. A file can be written anywhere, and no server answers. -/
def Machine.shelf : Machine (StateM (String → Except FileFault Bytes)) where
  readFile path files := (files path, files)
  writeFile path bytes files := (.ok (), Function.update files path (.ok bytes))
  exchange _ _ := pure []

theorem Machine.keepsFiles_shelf : shelf.KeepsFiles where
  read _ _ := rfl
  written h := by
    cases h
    exact Function.update_self _ _ _

namespace Rehearsal

theorem writeFile_eq (path : String) (bytes : Bytes) (before : Rehearsal) :
    machine.writeFile path bytes before =
      match before.files.write path bytes with
      | .error fault => (.error fault, before)
      | .ok files => (.ok (), { before with files }) := by
  change (match before.files.write path bytes with
    | .error fault => pure (.error fault)
    | .ok files => do
      set { before with files }
      return .ok () : StateM Rehearsal (Except FileFault Unit)) before = _
  cases before.files.write path bytes <;> rfl

/-- Rehearsals keep their files: a write changes the tree, and a read does not. -/
theorem keepsFiles : machine.KeepsFiles where
  read _ _ := rfl
  written {path bytes before after} h := by
    rw [writeFile_eq] at h
    split at h
    · cases h
    · next files htree =>
      cases h
      exact FileTree.read_of_write htree

end Rehearsal

/-- How a command ends. -/
def Outcome.ofResult : CommandLine.Result → Outcome
  | .ok report => .reported report
  | .error failure => .failed failure

namespace Machine

variable {σ α β : Type} {machine : Machine (StateM σ)} {before middle after : σ}
  {command : ExceptT Failure (StateM σ) α} {next : α → ExceptT Failure (StateM σ) β}

/-! ## Running commands -/

theorem KeepsFiles.shows (h : machine.KeepsFiles) (state : σ) :
    machine.Shows (machine.look state) state := fun path => Prod.ext rfl (h.read path state)

section Parsed

variable {kind path : String} {parse? : Bytes → Option α} {state : σ}
  {step : Bytes → ExceptT Failure (StateM σ) β}

/-- A command that makes something of a file fails if nothing can be made of it, be it that the file
cannot be read or that `parse?` finds nothing in it. -/
theorem exists_error_of_parsed? (h : machine.KeepsFiles)
    (hparsed : (machine.look state).parsed? parse? path = none) (refusal : Failure)
    (hstep : ∀ bytes, parse? bytes = none → step bytes = throw refusal) :
    ∃ failure, (CommandLine.readFile machine kind path >>= step) state =
      (.error failure, state) := by
  have hread := readFile_eq (h.shows state) kind path
  unfold World.parsed? at hparsed
  cases hfile : (machine.look state).files path with
  | error fault =>
    rw [hfile] at hread
    exact ⟨_, bind_of_error hread⟩
  | ok bytes =>
    rw [hfile] at hread hparsed
    refine ⟨refusal, (bind_of_ok hread).trans ?_⟩
    rw [hstep bytes hparsed]
    rfl

/-- A command that makes something of a file goes on with it, in the same `state`. -/
theorem bind_of_parsed? {a : α} {next : ExceptT Failure (StateM σ) β} (h : machine.KeepsFiles)
    (hparsed : (machine.look state).parsed? parse? path = some a)
    (hstep : ∀ bytes, parse? bytes = some a → step bytes = next) :
    (CommandLine.readFile machine kind path >>= step) state = next state := by
  have hread := readFile_eq (h.shows state) kind path
  unfold World.parsed? at hparsed
  cases hfile : (machine.look state).files path with
  | error fault =>
    rw [hfile] at hparsed
    cases hparsed
  | ok bytes =>
    rw [hfile] at hread hparsed
    rw [bind_of_ok hread, hstep bytes hparsed]

end Parsed

theorem writeFile_eq (machine : Machine (StateM σ)) (path : String) (bytes : Bytes) (state : σ) :
    CommandLine.writeFile machine path bytes state =
      match machine.writeFile path bytes state with
      | (.ok (), after) => (.ok (), after)
      | (.error fault, after) => (.error ⟨s!"Failed to write {path}", [fault.message]⟩, after) := by
  refine (bind_of_ok (lift_eq _ state)).trans ?_
  obtain ⟨_ | _, after⟩ := machine.writeFile path bytes state <;> rfl

/-- How what `arguments` ask for ends, and in which state it leaves the machine. -/
def perform (machine : Machine (StateM σ)) (environment : List (String × String))
    (arguments : List String) (state : σ) : Outcome × σ :=
  let ((outcome, _), after) := (CommandLine.run machine environment arguments).run state
  (outcome, after)

variable {environment : List (String × String)} {arguments : List String}
  {configFile baseUrl : Option String}

theorem perform_of_run {invocation : Invocation} {result : CommandLine.Result}
    {records : List LogRecord}
    (hparse : Invocation.parse environment arguments = .ok invocation)
    (h : (CommandLine.runInvocation machine invocation).run before = ((result, records), after)) :
    machine.perform environment arguments before = (.ofResult result, after) := by
  unfold perform CommandLine.run
  rw [hparse]
  dsimp only
  rw [run_bind_of_run h]
  cases result <;> rfl

/-- Without a configuration that can be read a command fails and touches nothing: the state is
`before`. -/
theorem exists_perform_of_no_config {command : Command} (h : machine.KeepsFiles)
    (hparse : Invocation.parse environment arguments = .ok ⟨configFile, baseUrl, command⟩)
    (hconfig : (machine.look before).config? configFile = none) :
    ∃ failure, machine.perform environment arguments before = (.failed failure, before) := by
  obtain ⟨failure, hread⟩ := exists_readConfig_eq (h.shows before) configFile
  rw [hconfig] at hread
  exact ⟨failure, perform_of_run hparse (runInvocation_of_error hread)⟩

/-- Once the configuration is read, a command on files ends as `action` does, which needs none. -/
theorem perform_eq {command : Command} (action : ExceptT Failure (StateM σ) Report)
    (h : machine.KeepsFiles)
    (hparse : Invocation.parse environment arguments = .ok ⟨configFile, baseUrl, command⟩)
    (hcommand : ∀ config, CommandLine.runCommand machine config baseUrl command =
      CommandLine.silently action)
    (hconfig : ((machine.look before).config? configFile).isSome) :
    machine.perform environment arguments before =
      (.ofResult (action before).1, (action before).2) := by
  obtain ⟨_, hread⟩ := exists_readConfig_eq (h.shows before) configFile
  obtain ⟨config, hconfig⟩ := Option.isSome_iff_exists.mp hconfig
  rw [hconfig] at hread
  have hrun : (CommandLine.runCommand machine config baseUrl command).run before =
      (((action before).1, []), (action before).2) := by
    rw [hcommand]
    rfl
  exact perform_of_run hparse ((runInvocation_of_ok hread).trans hrun)

/-! ## Making a file of another -/

/-- How a command ends that makes a file of another, and in which state it leaves the machine.
`Finds bytes report` says that these bytes are to be written and this is to be reported of them. -/
inductive Packs (machine : Machine (StateM σ)) (output : String) (Finds : Bytes → Report → Prop)
    (before : σ) : Outcome × σ → Prop where
  /-- Nothing is found that could be written, and nothing is touched. -/
  | refused {failure : Failure} (hnone : ∀ bytes report, ¬ Finds bytes report) :
      Packs machine output Finds before (.failed failure, before)
  /-- The file cannot be written. -/
  | unwritten {bytes : Bytes} {report : Report} {fault : FileFault} {after : σ}
      (hfound : Finds bytes report)
      (hwrite : machine.writeFile output bytes before = (.error fault, after)) :
      Packs machine output Finds before
        (.failed ⟨s!"Failed to write {output}", [fault.message]⟩, after)
  /-- The file is written, and can be read. -/
  | written {bytes : Bytes} {report : Report} {after : σ} (hfound : Finds bytes report)
      (hwrite : machine.writeFile output bytes before = (.ok (), after))
      (hafter : (machine.look after).files output = .ok bytes) :
      Packs machine output Finds before (.reported report, after)

variable {output : String} {Finds : Bytes → Report → Prop}

theorem packs_of_found (h : machine.KeepsFiles) {bytes : Bytes} {report : Report}
    {action : ExceptT Failure (StateM σ) Report} (hfound : Finds bytes report)
    (haction : action before = (do
      CommandLine.writeFile machine output bytes
      return report : ExceptT Failure (StateM σ) Report) before) :
    Packs machine output Finds before (.ofResult (action before).1, (action before).2) := by
  have hwrite := machine.writeFile_eq output bytes before
  rw [haction]
  cases hresult : machine.writeFile output bytes before with
  | mk result after =>
    rw [hresult] at hwrite
    cases result with
    | ok done =>
      rw [bind_of_ok hwrite]
      exact .written hfound hresult (h.written hresult)
    | error fault =>
      rw [bind_of_error hwrite]
      exact .unwritten hfound hresult

/-- A command that writes what it finds ends as `Packs` says, if `action` fails without touching
anything where nothing is found, and else goes on to write what is. -/
theorem packs_perform {command : Command} (action : ExceptT Failure (StateM σ) Report)
    (h : machine.KeepsFiles)
    (hparse : Invocation.parse environment arguments = .ok ⟨configFile, baseUrl, command⟩)
    (hcommand : ∀ config, CommandLine.runCommand machine config baseUrl command =
      CommandLine.silently action)
    (hconfig : ∀ bytes report, Finds bytes report →
      ((machine.look before).config? configFile).isSome)
    (haction : ((machine.look before).config? configFile).isSome →
      (∃ failure, action before = (.error failure, before) ∧
        ∀ bytes report, ¬ Finds bytes report) ∨
      ∃ bytes report, Finds bytes report ∧ action before = (do
        CommandLine.writeFile machine output bytes
        return report : ExceptT Failure (StateM σ) Report) before) :
    Packs machine output Finds before (machine.perform environment arguments before) := by
  cases hfile : (machine.look before).config? configFile with
  | none =>
    obtain ⟨failure, hperform⟩ := exists_perform_of_no_config h hparse hfile
    rw [hperform]
    refine .refused fun bytes report hfound => ?_
    -- What is found is found next to a configuration that can be read.
    have hsome := hconfig bytes report hfound
    rw [hfile] at hsome
    cases hsome
  | some config =>
    have hsome : ((machine.look before).config? configFile).isSome :=
      Option.isSome_iff_exists.mpr ⟨config, hfile⟩
    rw [perform_eq action h hparse hcommand hsome]
    rcases haction hsome with ⟨failure, haction, hnone⟩ | ⟨bytes, report, hfound, haction⟩
    · rw [haction]
      exact .refused hnone
    · exact packs_of_found h hfound haction

/-! ## Looking at a file -/

/-- Whenever the file at `path` holds `bytes`, the command ends with `outcome`, and it touches
nothing. The configuration, if one is named, must be there. -/
def EndsOn (machine : Machine (StateM σ)) (command : Command) (path : String) (bytes : Bytes)
    (outcome : Outcome) : Prop :=
  ∀ state environment arguments configFile baseUrl,
    Invocation.parse environment arguments = .ok ⟨configFile, baseUrl, command⟩ →
    ((machine.look state).config? configFile).isSome →
    (machine.look state).files path = .ok bytes →
    machine.perform environment arguments state = (outcome, state)

/-- A command that decodes a file fails with what is to be said of the fault (`refusal`), or reports
what is to be told of the bytes and of what they were decoded to. -/
theorem endsOn_inspect {ε : Type} (h : machine.KeepsFiles) {command : Command}
    {kind path : String} {inspect : Bytes → ExceptT Failure (StateM σ) Report}
    (hcommand : ∀ config baseUrl, CommandLine.runCommand machine config baseUrl command =
      CommandLine.silently (CommandLine.readFile machine kind path >>= inspect))
    (decode : Bytes → Except ε α) (refusal : ε → Failure) (report : Bytes → α → Report)
    (hrefused : ∀ bytes e, decode bytes = .error e → inspect bytes = throw (refusal e))
    (hdecoded : ∀ bytes a, decode bytes = .ok a → inspect bytes = return report bytes a)
    (bytes : Bytes) :
    machine.EndsOn command path bytes
      (match decode bytes with
        | .error e => .failed (refusal e)
        | .ok a => .reported (report bytes a)) := by
  intro state environment arguments configFile baseUrl hparse hconfig hfile
  have hread := readFile_eq (h.shows state) kind path
  rw [hfile] at hread
  rw [perform_eq _ h hparse (hcommand · baseUrl) hconfig, bind_of_ok hread]
  cases hdecode : decode bytes with
  | error e =>
    rw [hrefused bytes e hdecode]
    rfl
  | ok a =>
    rw [hdecoded bytes a hdecode]
    rfl

end Machine

end RoadTraffic
