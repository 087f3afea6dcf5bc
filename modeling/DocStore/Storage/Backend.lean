import DocStore.Storage.FileTree
import DocStore.Storage.Snapshot

/-!
# Backends

Where a session keeps its database: in memory, in a file, or nowhere.

## Contents
- `StorageError`: why a database cannot be loaded or saved, with its wording.
- `Backend`: loading and saving.
- `Memory`, `Unsaved`, `Failing`, `Disk`, `Outbox`: the backends.
-/

namespace DocStore

open Text (Bytes)

/-! ## Errors -/

/-- Why a database cannot be loaded or saved. -/
inductive StorageError
  | io (fault : FileFault)
  | serialization (report : Json.Report)
  deriving DecidableEq

/-- The wording of what is behind an error. -/
def StorageError.cause : StorageError → String
  | .io fault => fault.message
  | .serialization report => report.message

/-- The wording of an error. -/
def StorageError.message : StorageError → String
  | .io fault => "I/O error: " ++ fault.message
  | .serialization report => "serialization error: " ++ report.message

/-! ## Loading and saving -/

/-- A place that may hold a database. Loading from it may change it, and a save that fails may leave
    something behind. -/
class Backend (β : Type) where
  load : β → Except StorageError Database × β
  save : β → Database → Option StorageError × β

/-- The database of an optional content; without one it is empty. -/
def loadContent (content : Option Bytes) : Except StorageError Database :=
  match content with
  | none => .ok Database.empty
  | some bytes =>
    match Database.decode bytes with
    | .ok db => .ok db
    | .error report => .error (.serialization report)

/-- The database of a file that has been read; one that does not exist is empty. -/
def loadFile (read : Except FileFault Bytes) : Except StorageError Database :=
  match read with
  | .ok bytes => loadContent (some bytes)
  | .error .notFound => loadContent none
  | .error fault => .error (.io fault)

/-! ## In memory -/

/-- A content in memory, and how often it was saved. -/
structure Memory where
  content : Option Bytes
  saves : Nat
  deriving DecidableEq

/-- The memory that was never saved to. -/
def Memory.fresh (content : Option Bytes) : Memory :=
  ⟨content, 0⟩

instance : Backend Memory where
  load memory := (loadContent memory.content, memory)
  save memory db := (none, ⟨some db.encode, memory.saves + 1⟩)

/-! ## Nowhere -/

/-- The backend that keeps nothing. -/
structure Unsaved where
  deriving DecidableEq

instance : Backend Unsaved where
  load backend := (.ok Database.empty, backend)
  save backend _ := (none, backend)

/-- The backend that fails to save and counts the attempts. -/
structure Failing where
  attempts : Nat
  deriving DecidableEq

instance : Backend Failing where
  load backend := (.ok Database.empty, backend)
  save backend _ := (some (.io (.other "unavailable")), ⟨backend.attempts + 1⟩)

/-! ## In a file -/

/-- A data file in a directory tree. -/
structure Disk where
  path : DataPath
  tree : FileTree
  deriving DecidableEq

instance : Backend Disk where
  load disk := (loadFile (disk.tree.read disk.path), disk)
  save disk db :=
    let (fault, tree) := disk.tree.perform (FileTree.savePlan disk.path db.encode)
    (fault.map .io, { disk with tree := tree })

/-- A data file whose steps somebody else executes: what was read from it, and the steps of the saves
    since then. -/
structure Outbox where
  path : DataPath
  content : Except FileFault Bytes
  steps : List (List FileTree.FileOp)

instance : Backend Outbox where
  load outbox := (loadFile outbox.content, outbox)
  save outbox db :=
    (none, { outbox with steps := outbox.steps ++ [FileTree.savePlan outbox.path db.encode] })

end DocStore
