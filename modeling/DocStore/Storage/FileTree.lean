import DocStore.KeyMap
import DocStore.Storage.DataPath
import DocStore.Text.Utf8

/-!
# Directory trees

The files and directories below a root, and the operations that loading and saving perform on them. A
save is a plan of operations, so that whatever executes it, a tree or a disk, does the same.

## Contents
- `FileFault`: why an operation fails, with its wording.
- `Node`, `FileTree`: the contents of a tree and the length of the paths into it.
- `FileTree.resolve`: what a path leads to.
- `FileTree.read`, `FileTree.write`, `FileTree.rename`: the operations on files.
- `FileOp`, `savePlan`, `FileTree.perform`: saving.
- `FileTree.listing`: the contents in order.
-/

namespace DocStore

open Text (Bytes)

/-! ## Faults -/

/-- Why an operation on a file fails. -/
inductive FileFault
  | notFound
  | notDirectory
  | isDirectory
  | nameTooLong
  | nulByte
  | other (text : String)
  deriving DecidableEq

/-- The wording of a fault. -/
def FileFault.message : FileFault → String
  | .notFound => "No such file or directory (os error 2)"
  | .notDirectory => "Not a directory (os error 20)"
  | .isDirectory => "Is a directory (os error 21)"
  | .nameTooLong => "File name too long (os error 36)"
  | .nulByte => "file name contained an unexpected NUL byte"
  | .other text => text

/-! ## Trees -/

/-- What stands at a place of a tree. -/
inductive Node
  | file (content : Bytes)
  | directory
  deriving DecidableEq

/-- A place: the names on the way to it. A way that leaves the root starts with `..` or `/`. -/
abbrev Place := List String

/-- The contents of a tree, by the texts of the places, and the most bytes that a path into it may
    have. -/
structure FileTree where
  nodes : KeyMap Node
  reach : Nat
  deriving DecidableEq

namespace FileTree

/-- The most bytes that the text of a path may have. -/
def maxPathLength : Nat := 4095

/-- The tree without contents. -/
def empty : FileTree :=
  ⟨KeyMap.empty, maxPathLength⟩

/-- The text of a place. -/
def placeText (place : Place) : String :=
  String.intercalate "/" place

/-- What stands at a place. The root and the places above it are directories. -/
def node? (tree : FileTree) (place : Place) : Option Node :=
  if place.all (· == "..") || place == ["/"] then some .directory
  else tree.nodes.find? (placeText place)

/-- The tree with something else at a place. -/
def put (tree : FileTree) (place : Place) (node : Node) : FileTree :=
  { tree with nodes := tree.nodes.insert (placeText place) node }

/-- The tree with nothing at a place. -/
def clear (tree : FileTree) (place : Place) : FileTree :=
  { tree with nodes := tree.nodes.erase (placeText place) }

/-- The place above a place. -/
def above (place : Place) : Place :=
  if place == ["/"] then place
  else if place.all (· == "..") then ".." :: place
  else place.dropLast

/-! ## Paths -/

/-- What a path leads to: a directory that is known to exist, or a name in one. -/
inductive Goal
  | directory
  | entry (place : Place) (asDirectory : Bool)
  deriving DecidableEq

/-- The most bytes that a name may have. -/
def maxNameLength : Nat := 255

/-- Follows the names of a path from an existing directory. -/
def follow (tree : FileTree) (place : Place) (asDirectory : Bool) :
    List String → Except FileFault Goal
  | [] => .ok .directory
  | name :: rest =>
    if name = ".." then tree.follow (above place) asDirectory rest
    else if maxNameLength < name.utf8ByteSize then .error .nameTooLong
    else
      let next := place ++ [name]
      if rest.isEmpty then .ok (.entry next asDirectory)
      else
        match tree.node? next with
        | none => .error .notFound
        | some (.file _) => .error .notDirectory
        | some .directory => tree.follow next asDirectory rest

/-- What a path leads to, from the root of the tree. Its text is judged before any step is taken. -/
def resolve (tree : FileTree) (path : DataPath) : Except FileFault Goal :=
  if path.text.toList.contains '\x00' then .error .nulByte
  else if tree.reach < path.byteLength then .error .nameTooLong
  else if path.blank then .error .notFound
  else tree.follow (if path.absolute then ["/"] else []) path.asDirectory path.parts

/-! ## Operations -/

/-- The content of the file that a path leads to. -/
def read (tree : FileTree) (path : DataPath) : Except FileFault Bytes := do
  match ← tree.resolve path with
  | .directory => throw .isDirectory
  | .entry place asDirectory =>
    match tree.node? place with
    | none => throw .notFound
    | some .directory => throw .isDirectory
    | some (.file content) => if asDirectory then throw .notDirectory else return content

/-- The tree in which the file that a path leads to has a new content. -/
def write (tree : FileTree) (path : DataPath) (content : Bytes) : Except FileFault FileTree := do
  match ← tree.resolve path with
  | .directory => throw .isDirectory
  | .entry place asDirectory =>
    if asDirectory || tree.node? place == some .directory then throw .isDirectory
    else return tree.put place (.file content)

/-- The tree in which a file has moved to another path and replaced the file there. -/
def rename (tree : FileTree) (source target : DataPath) : Except FileFault FileTree := do
  let content ← tree.read source
  match ← tree.resolve source, ← tree.resolve target with
  | .entry start _, .entry goal asDirectory =>
    if tree.node? goal == some .directory then throw .isDirectory
    else if asDirectory then throw .notDirectory
    else return (tree.clear start).put goal (.file content)
  | _, _ => throw .isDirectory

/-- The tree with the directories on a way, where nothing else stands there. -/
def makeDirectories (tree : FileTree) (path : DataPath) : FileTree :=
  (path.parts.foldl
    (fun (state : FileTree × Place) name =>
      let next := state.2 ++ [name]
      match state.1.node? next with
      | none => (state.1.put next .directory, next)
      | some _ => (state.1, next))
    (tree, [])).1

/-! ## Saving -/

/-- A step of a save. -/
inductive FileOp
  | write (path : DataPath) (content : Bytes)
  | rename (source target : DataPath)
  deriving DecidableEq

/-- The steps that save a content: it is written beside the data file, which it then replaces. -/
def savePlan (path : DataPath) (content : Bytes) : List FileOp :=
  [.write path.temporary content, .rename path.temporary path]

/-- The tree after a step. -/
def step (tree : FileTree) : FileOp → Except FileFault FileTree
  | .write path content => tree.write path content
  | .rename source target => tree.rename source target

/-- The tree after some steps, up to the first one that fails, and its fault. -/
def perform (tree : FileTree) : List FileOp → Option FileFault × FileTree
  | [] => (none, tree)
  | op :: rest =>
    match tree.step op with
    | .ok tree => tree.perform rest
    | .error fault => (some fault, tree)

/-! ## Listing -/

/-- The files with their contents and the directories, in the order of their texts; the text of a
    directory ends in a slash. What lies outside the root is left out. -/
def listing (tree : FileTree) : List (String × Option Bytes) :=
  let inside := tree.nodes.entries.filter fun entry =>
    !(entry.1.startsWith "../" || entry.1.startsWith "/")
  (KeyMap.ofList (inside.map fun entry =>
    match entry.2 with
    | .file content => (entry.1, some content)
    | .directory => (entry.1 ++ "/", none))).entries

end FileTree

end DocStore
