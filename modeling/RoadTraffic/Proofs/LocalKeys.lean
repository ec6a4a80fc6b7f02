import Mathlib
import RoadTraffic.Files.Tree
import RoadTraffic.Section
import RoadTraffic.Proofs.Text.Slashes

/-!
# Where local key lists are read

The region of an edition goes into the path of its key list as it is. A region that is one name
leads to a file in the folder; one that starts at the root leaves the folder aside, and one that
climbs above its start leads out of the folder unless it comes back by the same names.

* `Path.resolve here path`: where `path` leads from the folder `here`, by its names alone.
* `Course.ofPath path`: how far a path climbs, and the names by which it comes down.
* `Course.suffix_reached_iff`: `start <:+ course.reached start`, a course ends below its start, if
  it comes back by the names that it climbed.
* `FileTree.entry?_of_read`: the file that is read is the one to which the path leads.
* `KeysFolder.file_below_iff`: when a key list is below its folder.
-/

namespace RoadTraffic

/-! ## Where paths lead -/

namespace Path

/-- The names from the root on, the last one first, after one `name` more. The root is above
itself. -/
def enter (names : List String) (name : String) : List String :=
  if name = "" ∨ name = "." then names
  else if name = ".." then names.tail
  else name :: names

/-- The names from the root on, the last one first, to which `path` leads in the folder `here`. -/
def resolve (here : List String) (path : String) : List String :=
  (path.splitOn "/").foldl enter (if path.startsWith "/" then [] else here)

/-- What follows the slash after `folder` is followed from there. -/
theorem resolve_append_slash (here : List String) (folder name : String) :
    resolve here (folder ++ "/" ++ name) =
      (name.splitOn "/").foldl enter (resolve here (folder ++ "/")) := by
  have hne : folder ++ "/" ≠ "" := by simp
  rw [resolve, resolve, startsWith_slash_append hne, splitOn_slash_append, splitOn_slash_concat,
    List.foldl_append, List.foldl_append]
  rfl

/-- A slash behind `folder` does not lead elsewhere. -/
theorem resolve_slash {folder : String} (h : folder ≠ "") (here : List String) :
    resolve here (folder ++ "/") = resolve here folder := by
  rw [resolve, resolve, startsWith_slash_append h, splitOn_slash_concat, List.foldl_append]
  rfl

/-- The empty path leads nowhere else. -/
theorem resolve_empty (here : List String) : resolve here "" = here := by
  rw [resolve, startsWith_slash, splitOn_slash]
  rfl

end Path

/-- What a path does to the folder where it is followed: it climbs so many folders, and then comes
down by `names`, the last one first. -/
structure Course where
  climbs : Nat
  names : List String
  deriving DecidableEq, Repr

namespace Course

/-- The course that goes on by one `name` more. -/
def enter (course : Course) (name : String) : Course :=
  if name = "" ∨ name = "." then course
  else if name = ".." then
    match course.names with
    | [] => { course with climbs := course.climbs + 1 }
    | _ :: names => { course with names }
  else { course with names := name :: course.names }

/-- The course of `path`, which is followed name by name from where it starts. -/
def ofPath (path : String) : Course := (path.splitOn "/").foldl enter ⟨0, []⟩

/-- Where `course` ends if it begins at `start`: `climbs` folders up, and then down by `names`. -/
def reached (course : Course) (start : List String) : List String :=
  course.names ++ start.drop course.climbs

theorem reached_enter (course : Course) (start : List String) (name : String) :
    (course.enter name).reached start = Path.enter (course.reached start) name := by
  obtain ⟨climbs, names⟩ := course
  unfold enter Path.enter
  split
  · rfl
  · split
    · cases names with
      | nil => simp [reached]
      | cons last names => rfl
    · rfl

theorem reached_foldl (path : List String) (course : Course) (start : List String) :
    (path.foldl enter course).reached start = path.foldl Path.enter (course.reached start) := by
  induction path generalizing course with
  | nil => rfl
  | cons name path ih => rw [List.foldl_cons, List.foldl_cons, ih, reached_enter]

theorem reached_ofPath (path : String) (start : List String) :
    (ofPath path).reached start = (path.splitOn "/").foldl Path.enter start :=
  reached_foldl _ ⟨0, []⟩ start

/-- A `course` ends below its start if it comes back by all the names that it climbed. -/
theorem suffix_reached_iff (course : Course) (start : List String) :
    start <:+ course.reached start ↔ start.take course.climbs <:+ course.names := by
  conv_lhs => lhs; rw [← List.take_append_drop course.climbs start]
  exact List.suffix_append_self_iff

end Course

namespace Path

theorem resolve_of_absolute {path : String} (h : path.startsWith "/" = true) (here : List String) :
    resolve here path = (Course.ofPath path).names := by
  rw [resolve, if_pos h, ← Course.reached_ofPath, Course.reached, List.drop_nil, List.append_nil]

end Path

/-! ## What is read -/

namespace FileTree

variable {tree : FileTree} {names : List String} {place : Place}

/-- From above the root one does not come back, by whatever `path`. -/
theorem eq_above_of_walk {path : List String} (h : tree.walk .above path = .ok place) :
    place = .above := by
  induction path with
  | nil =>
    cases h
    rfl
  | cons name path ih =>
    have hstep : tree.step .above name = .ok .above ∨
        ∃ fault, tree.step .above name = .error fault := by
      have hfolder : tree.entry? .above = some .folder := rfl
      unfold step
      simp only [hfolder]
      split
      · exact .inl rfl
      · split
        · exact .inl rfl
        · split <;> exact .inr ⟨_, rfl⟩
    unfold walk at h
    obtain hstep | ⟨fault, hstep⟩ := hstep <;> rw [hstep] at h
    · exact ih h
    · cases h

/-- One `name` leads where `Path.enter` says, unless it leads above the root. -/
theorem eq_enter_of_step {name : String} (h : tree.step (.inside names) name = .ok place) :
    place = .inside (Path.enter names name) ∨ place = .above := by
  have hdots : (name == "" || name == ".") = true ↔ name = "" ∨ name = "." := by simp
  have hup : (name == "..") = true ↔ name = ".." := beq_iff_eq
  unfold step at h
  unfold Path.enter
  split at h
  · cases h
  · cases h
  · simp only [hdots, hup] at h
    split_ifs at h ⊢
    · cases h
      exact .inl rfl
    · cases names <;> cases h
      · exact .inr rfl
      · exact .inl rfl
    · cases h
      exact .inl rfl

/-- Names that lead into the tree lead where `Path.enter` says, one after the other. -/
theorem eq_foldl_of_walk {path stop : List String}
    (h : tree.walk (.inside names) path = .ok (.inside stop)) :
    stop = path.foldl Path.enter names := by
  induction path generalizing names with
  | nil =>
    cases h
    rfl
  | cons name path ih =>
    unfold walk at h
    split at h
    · cases h
    · next hstep =>
      obtain rfl | rfl := eq_enter_of_step hstep
      · exact ih h
      · cases eq_above_of_walk h

/-- The file that `tree.read path` reads is the one to which `path` leads. -/
theorem entry?_of_read {path : String} {bytes : Bytes} (h : tree.read path = .ok bytes) :
    tree.entry? (.inside (Path.resolve [] path)) = some (.file bytes) := by
  unfold read at h
  split at h
  · cases h
  · next start path' hparse =>
    split at h
    · cases h
    · next place hwalk =>
      split at h <;> cases h
      next hfile =>
      unfold parse at hparse
      split_ifs at hparse with _ _ _ habsolute <;> cases hparse
      · -- Above the root there are only folders.
        rw [eq_above_of_walk hwalk] at hfile
        cases hfile
      · cases place with
        | above => cases hfile
        | inside stop =>
          rw [Path.resolve, if_neg habsolute, ← eq_foldl_of_walk hwalk]
          exact hfile

end FileTree

/-! ## The file of a region -/

namespace KeysFolder

variable {folder : KeysFolder} {edition : Edition}

/-- The path of a folder with the slash that belongs at its end. The empty path stands for the
folder at hand and has none. -/
def withSlash (path : String) : String :=
  if path.isEmpty || path.endsWith "/" then path else path ++ "/"

theorem file_eq_joinPath (folder : KeysFolder) (edition : Edition) :
    folder.file edition = joinPath folder.path (edition.region ++ ".traffic.keys") := by
  rw [file, String.append_assoc]
  rfl

/-- The suffix `.traffic.keys` does not start with a slash, so that it is for the region to start at
the root. -/
theorem startsWith_name (region : String) :
    (region ++ ".traffic.keys").startsWith "/" = region.startsWith "/" := by
  by_cases h : region = ""
  · subst h
    simp only [startsWith_slash]
    rfl
  · exact startsWith_slash_append h _

theorem file_of_absolute (h : edition.region.startsWith "/" = true) :
    folder.file edition = edition.region ++ ".traffic.keys" := by
  rw [file_eq_joinPath, joinPath, startsWith_name, if_pos h]

theorem file_of_relative (h : edition.region.startsWith "/" = false) :
    folder.file edition = withSlash folder.path ++ (edition.region ++ ".traffic.keys") := by
  rw [file_eq_joinPath, joinPath, startsWith_name, if_neg (by simp [h]), withSlash]
  split <;> rfl

/-- A region that does not start at the root is followed in the folder, as its `Course` says. -/
theorem resolve_file (h : edition.region.startsWith "/" = false) (here : List String) :
    Path.resolve here (folder.file edition) =
      (Course.ofPath (edition.region ++ ".traffic.keys")).reached
        (Path.resolve here folder.path) := by
  rw [file_of_relative h, Course.reached_ofPath, withSlash]
  by_cases hempty : folder.path = ""
  · rw [hempty, Path.resolve_empty, if_pos (by rfl), String.empty_append, Path.resolve,
      startsWith_name, h]
    rfl
  · have hisEmpty : folder.path.isEmpty = false := by simpa using hempty
    rw [hisEmpty, Bool.false_or]
    split
    · next hslash =>
      obtain ⟨before, hbefore⟩ := exists_eq_append_slash hslash
      rw [hbefore, Path.resolve_append_slash]
    · rw [Path.resolve_append_slash, Path.resolve_slash hempty]

theorem resolve_file_of_absolute (h : edition.region.startsWith "/" = true) (here : List String) :
    Path.resolve here (folder.file edition) =
      (Course.ofPath (edition.region ++ ".traffic.keys")).names := by
  rw [file_of_absolute h, Path.resolve_of_absolute (by rw [startsWith_name, h])]

/-- A region that is one name (`'/' ∉ edition.region.toList`) leads to a file of the folder. -/
theorem resolve_file_of_notMem (h : '/' ∉ edition.region.toList) (here : List String) :
    Path.resolve here (folder.file edition) =
      (edition.region ++ ".traffic.keys") :: Path.resolve here folder.path := by
  have hstart : edition.region.startsWith "/" = false := by
    rw [startsWith_slash, beq_eq_false_iff_ne]
    exact fun hhead => h (List.mem_of_mem_head? hhead)
  have hpieces : (edition.region ++ ".traffic.keys").splitOn "/" =
      [edition.region ++ ".traffic.keys"] :=
    splitOn_slash_of_notMem (by simp [h])
  -- The suffix is too long for a name that is not one.
  have hlong {dots : String} (hdots : dots.length < 13) :
      edition.region ++ ".traffic.keys" ≠ dots := by
    rintro rfl
    have hsuffix : ".traffic.keys".length = 13 := rfl
    rw [String.length_append, hsuffix] at hdots
    omega
  rw [resolve_file hstart, Course.reached_ofPath, hpieces, List.foldl_cons, List.foldl_nil,
    Path.enter, if_neg (not_or.mpr ⟨hlong (by decide), hlong (by decide)⟩),
    if_neg (hlong (by decide))]

/-! ## Below the folder -/

theorem resolve_folder_of_root (name : String) (h : '/' ∉ name.toList)
    (hname : Path.enter [] name = [name]) (here : List String) :
    Path.resolve here ("/" ++ name) = [name] := by
  have hroot : ("/" ++ name).startsWith "/" = true := by
    rw [startsWith_slash, String.toList_append]
    rfl
  have hsplit := splitOn_slash_append "" name
  rw [String.empty_append, splitOn_slash_of_notMem h, splitOn_slash_empty] at hsplit
  rw [Path.resolve, if_pos hroot, hsplit]
  exact hname

/-- A region leads out of no folder at all exactly if it neither starts at the root nor climbs. -/
theorem forall_below_iff (edition : Edition) (here : List String) :
    (∀ folder : KeysFolder,
      Path.resolve here folder.path <:+ Path.resolve here (folder.file edition)) ↔
    edition.region.startsWith "/" = false ∧
      (Course.ofPath (edition.region ++ ".traffic.keys")).climbs = 0 := by
  have ha := resolve_folder_of_root "a" (by decide) (by decide) here
  have hb := resolve_folder_of_root "b" (by decide) (by decide) here
  -- No names come down from the root through two of its folders.
  have hapart {names : List String} (h : ["a"] <:+ names) (h' : ["b"] <:+ names) : False := by
    have hsame := List.suffix_of_suffix_length_le h h' le_rfl
    exact absurd (hsame.eq_of_length rfl) (by decide)
  constructor
  · intro h
    have hbelow := And.intro (h ⟨"/" ++ "a"⟩) (h ⟨"/" ++ "b"⟩)
    rw [ha, hb] at hbelow
    cases hstart : edition.region.startsWith "/" with
    | true =>
      -- The same place would be below both folders.
      rw [resolve_file_of_absolute hstart, resolve_file_of_absolute hstart] at hbelow
      exact (hapart hbelow.1 hbelow.2).elim
    | false =>
      refine ⟨rfl, Nat.eq_zero_of_not_pos fun hclimbs => ?_⟩
      -- A course that climbs one folder leaves both, and would have to come back by both names.
      rw [resolve_file hstart, resolve_file hstart, ha, hb, Course.suffix_reached_iff,
        Course.suffix_reached_iff, List.take_of_length_le hclimbs,
        List.take_of_length_le hclimbs] at hbelow
      exact hapart hbelow.1 hbelow.2
  · rintro ⟨hstart, hclimbs⟩ folder
    rw [resolve_file hstart, Course.suffix_reached_iff, hclimbs]
    exact List.nil_suffix

/-- **Where key lists are read from.** The region goes into the path as it is. One that does not
start at the root is followed in the folder `home`: as far as it climbs, the file is below the
folder (`home <:+ place`) exactly if the region comes back by the names that it climbed. One that
starts at the root leaves the folder aside. One that is a single name leads to that file of the
folder. So a region leads out of no folder exactly if it neither starts at the root nor climbs. What
is read is the file to which the path leads, wherever that is. -/
theorem file_below_iff (folder : KeysFolder) (edition : Edition) (here : List String) :
    let name := edition.region ++ ".traffic.keys"
    let course := Course.ofPath name
    let home := Path.resolve here folder.path
    let place := Path.resolve here (folder.file edition)
    (edition.region.startsWith "/" = false →
      folder.file edition = withSlash folder.path ++ name ∧
      place = course.names ++ home.drop course.climbs ∧
      (home <:+ place ↔ home.take course.climbs <:+ course.names)) ∧
    (edition.region.startsWith "/" = true →
      folder.file edition = name ∧ place = course.names) ∧
    ('/' ∉ edition.region.toList → place = name :: home) ∧
    ((∀ folder : KeysFolder,
        Path.resolve here folder.path <:+ Path.resolve here (folder.file edition)) ↔
      edition.region.startsWith "/" = false ∧ course.climbs = 0) ∧
    ∀ (tree : FileTree) (bytes : Bytes), tree.read (folder.file edition) = .ok bytes →
      tree.entry? (.inside (Path.resolve [] (folder.file edition))) = some (.file bytes) := by
  intro name course home place
  refine ⟨fun hstart => ?_, fun hstart => ?_, fun hname => ?_, ?_, fun tree bytes hread => ?_⟩
  · have hplace : place = course.reached home := resolve_file hstart here
    exact ⟨file_of_relative hstart, hplace, hplace ▸ course.suffix_reached_iff home⟩
  · exact ⟨file_of_absolute hstart, resolve_file_of_absolute hstart here⟩
  · exact resolve_file_of_notMem hname here
  · exact forall_below_iff edition here
  · exact FileTree.entry?_of_read hread

/-- A region that climbs and comes back, one that starts at the root, and one that is a name, whose
file is read. -/
theorem file_below_iff_coming_back :
    let tree : FileTree := ⟨.ofList [(["keys"], FileEntry.folder),
      (["Monaco.traffic.keys", "keys"], FileEntry.file [0, 0])]⟩
    (Path.resolve ["srv"] "keys" <:+ Path.resolve ["srv"] (file ⟨"keys"⟩ ⟨"../keys/Monaco", 0⟩)) ∧
    file ⟨"keys"⟩ ⟨"/etc/Monaco", 0⟩ = "/etc/Monaco.traffic.keys" ∧
    Path.resolve [] (file ⟨"keys"⟩ ⟨"Monaco", 0⟩) = ["Monaco.traffic.keys", "keys"] ∧
    tree.read (file ⟨"keys"⟩ ⟨"Monaco", 0⟩) = .ok [0, 0] ∧
    tree.entry? (.inside ["Monaco.traffic.keys", "keys"]) = some (.file [0, 0]) := by
  intro tree
  have hhome (here : List String) : Path.resolve here "keys" = "keys" :: here := by
    rw [Path.resolve, startsWith_slash, splitOn_slash]
    rfl
  have hcourse : Course.ofPath "../keys/Monaco.traffic.keys" =
      ⟨1, ["Monaco.traffic.keys", "keys"]⟩ := by
    rw [Course.ofPath, splitOn_slash]
    rfl
  have hread : tree.read (file ⟨"keys"⟩ ⟨"Monaco", 0⟩) = .ok [0, 0] := by
    rw [file_of_relative (by rw [startsWith_slash]; rfl), withSlash, endsWith_slash, FileTree.read,
      FileTree.parse, startsWith_slash, splitOn_slash, if_neg (by simp)]
    rfl
  obtain ⟨hback, -⟩ := file_below_iff ⟨"keys"⟩ ⟨"../keys/Monaco", 0⟩ ["srv"]
  obtain ⟨-, habsolute, -⟩ := file_below_iff ⟨"keys"⟩ ⟨"/etc/Monaco", 0⟩ []
  obtain ⟨-, -, hname, -, hentry⟩ := file_below_iff ⟨"keys"⟩ ⟨"Monaco", 0⟩ []
  have hplace : Path.resolve [] (file ⟨"keys"⟩ ⟨"Monaco", 0⟩) = ["Monaco.traffic.keys", "keys"] :=
    (hname (by decide)).trans (congrArg _ (hhome []))
  refine ⟨(hback (by rw [startsWith_slash]; rfl)).2.2.mpr ?_,
    (habsolute (by rw [startsWith_slash]; rfl)).1, hplace, hread, hplace ▸ hentry tree _ hread⟩
  change (Path.resolve ["srv"] "keys").take (Course.ofPath "../keys/Monaco.traffic.keys").climbs <:+
    (Course.ofPath "../keys/Monaco.traffic.keys").names
  rw [hhome, hcourse]
  decide

/-- Two dots lead a region out of the folder, and so does a slash in front of it, and what `reading`
makes of it is a file that is not in the folder. In `keysUrl?` the same region stays in its
segment. -/
theorem file_outside :
    let tree : FileTree := ⟨.ofList [(["keys"], FileEntry.folder),
      (["Monaco.traffic.keys"], FileEntry.file [0, 0])]⟩
    (file ⟨"keys"⟩ ⟨"../Monaco", 0⟩ = "keys/../Monaco.traffic.keys" ∧
      ¬ Path.resolve [] "keys" <:+ Path.resolve [] "keys/../Monaco.traffic.keys") ∧
    (file ⟨"keys"⟩ ⟨"/Monaco", 0⟩ = "/Monaco.traffic.keys" ∧
      ¬ Path.resolve [] "keys" <:+ Path.resolve [] "/Monaco.traffic.keys") ∧
    reading (tree.read (file ⟨"keys"⟩ ⟨"../Monaco", 0⟩)) = .ok (some [0, 0]) ∧
    (Remote.ofBase "http://localhost/").keysUrl? ⟨"../Monaco", 0⟩ =
      some "http://localhost/..%2FMonaco.traffic.keys" := by
  intro tree
  have hhome : Path.resolve [] "keys" = ["keys"] := by
    rw [Path.resolve, startsWith_slash, splitOn_slash]
    rfl
  have hfile : file ⟨"keys"⟩ ⟨"../Monaco", 0⟩ = "keys/../Monaco.traffic.keys" := by
    rw [file_of_relative (by rw [startsWith_slash]; rfl), withSlash, endsWith_slash]
    rfl
  have hroot : file ⟨"keys"⟩ ⟨"/Monaco", 0⟩ = "/Monaco.traffic.keys" :=
    file_of_absolute (by rw [startsWith_slash]; rfl)
  rw [hfile, hroot, hhome]
  refine ⟨⟨rfl, ?_⟩, ⟨rfl, ?_⟩, ?_, ?_⟩
  · rw [Path.resolve, startsWith_slash, splitOn_slash]
    decide
  · rw [Path.resolve, startsWith_slash, splitOn_slash]
    decide
  · rw [FileTree.read, FileTree.parse, startsWith_slash, splitOn_slash, if_neg (by simp)]
    rfl
  · rw [Remote.ofBase, endsWith_slash]
    decide

end KeysFolder

end RoadTraffic
