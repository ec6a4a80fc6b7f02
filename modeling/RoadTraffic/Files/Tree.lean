import Std.Data.ExtTreeMap
import RoadTraffic.Bits.Basic
import RoadTraffic.Files.Fault

/-!
# Trees of files

A tree of folders and files that paths lead into, with the rules and faults of a file system: a
path is walked name by name, `.` stays, `..` goes up, and only a folder can be walked into. Nothing
is known of what lies outside the tree but the folders above it.

* `FileTree.read`, `FileTree.write`: a whole file.
-/

namespace RoadTraffic

/-- What stands under a name. -/
inductive FileEntry where
  | folder
  | file (bytes : Bytes)
  deriving DecidableEq, Repr

/-- Where a path leads. -/
inductive Place where
  /-- The names from the root of the tree on, the last one first. -/
  | inside (names : List String)
  /-- A folder above the root. -/
  | above
  deriving DecidableEq, Repr

/-- Folders and files, by their names from the root of the tree on, the last one first. The root
itself is not among them. -/
structure FileTree where
  entries : Std.ExtTreeMap (List String) FileEntry

namespace FileTree

/-- The tree that is empty. -/
def empty : FileTree := ⟨∅⟩

/-- The longest name and the longest path, in bytes. -/
def maxLengths : Nat × Nat := (255, 4095)

/-- What stands at a `place`, if anything does. -/
def entry? (tree : FileTree) : Place → Option FileEntry
  | .above => some .folder
  | .inside [] => some .folder
  | .inside names => tree.entries[names]?

/-- The place one `name` further. Only a folder can be walked into. -/
def step (tree : FileTree) (place : Place) (name : String) : Except FileFault Place :=
  match tree.entry? place with
  | none => .error .notFound
  | some (.file _) => .error .notDirectory
  | some .folder =>
    if name == "" || name == "." then .ok place
    else if name == ".." then
      match place with
      | .inside (_ :: names) => .ok (.inside names)
      | _ => .ok .above
    else if name.utf8ByteSize > maxLengths.1 then .error .nameTooLong
    else
      match place with
      | .inside names => .ok (.inside (name :: names))
      | .above => .error .notFound

/-- The place to which names lead from `place` on. -/
def walk (tree : FileTree) (place : Place) : List String → Except FileFault Place
  | [] => .ok place
  | name :: names =>
    match tree.step place name with
    | .error fault => .error fault
    | .ok place => tree.walk place names

/-- The names of a `path`, if it may be one at all, and the place where it starts. -/
def parse (path : String) : Except FileFault (Place × List String) :=
  if path.contains '\x00' then .error .nulCharacter
  else if path.isEmpty then .error .notFound
  else if path.utf8ByteSize > maxLengths.2 then .error .nameTooLong
  else .ok (if path.startsWith "/" then .above else .inside [], path.splitOn "/")

/-- The bytes of the file to which `path` leads. -/
def read (tree : FileTree) (path : String) : Except FileFault Bytes :=
  match parse path with
  | .error fault => .error fault
  | .ok (start, names) =>
    match tree.walk start names with
    | .error fault => .error fault
    | .ok place =>
      match tree.entry? place with
      | none => .error .notFound
      | some .folder => .error .isDirectory
      | some (.file bytes) => .ok bytes

/-- The tree with `bytes` under the last of the names, in a `folder` that is there. -/
def writeAt (tree : FileTree) (folder : Place) (name : String) (bytes : Bytes) :
    Except FileFault FileTree :=
  match tree.step folder name with
  | .error fault => .error fault
  | .ok .above => .error .isDirectory
  | .ok (.inside names) =>
    match tree.entry? (.inside names) with
    | some .folder => .error .isDirectory
    | _ => .ok ⟨tree.entries.insert names (.file bytes)⟩

/-- The tree with a file of `bytes` in place of the one to which `path` may lead. -/
def write (tree : FileTree) (path : String) (bytes : Bytes) : Except FileFault FileTree :=
  match parse path with
  | .error fault => .error fault
  | .ok (start, names) =>
    let trailing := names.reverse.takeWhile (· == "")
    match names.reverse.dropWhile (· == "") with
    | [] => .error .isDirectory
    | name :: folders =>
      match tree.walk start folders.reverse with
      | .error fault => .error fault
      | .ok folder =>
        if trailing.isEmpty then tree.writeAt folder name bytes
        else
          match tree.entry? folder with
          | some .folder => .error .isDirectory
          | some (.file _) => .error .notDirectory
          | none => .error .notFound

/-! ## Making a tree -/

/-- The tree with a folder and all folders above it, by its names, the last one first. -/
def addFolder (tree : FileTree) : List String → FileTree
  | [] => tree
  | name :: names =>
    let tree := tree.addFolder names
    ⟨tree.entries.insertIfNew (name :: names) .folder⟩

/-- The names of a `path`, the last one first, without those that stay where they are. -/
def namesOf (path : String) : List String :=
  ((path.splitOn "/").filter fun name => name != "" && name != ".").reverse

/-- The tree of the given `files` and `folders`, with all folders above them. -/
def ofLists (files : List (String × Bytes)) (folders : List String) : FileTree :=
  let tree := folders.foldl (fun tree path => tree.addFolder (namesOf path)) empty
  files.foldl (fun tree (path, bytes) =>
    match namesOf path with
    | [] => tree
    | name :: names => ⟨(tree.addFolder names).entries.insert (name :: names) (.file bytes)⟩) tree

end FileTree

end RoadTraffic
