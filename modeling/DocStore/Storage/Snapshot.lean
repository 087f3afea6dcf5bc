import DocStore.Database
import DocStore.Json.Decoder

/-!
# Snapshots

A database as a JSON text, and back. Everything is written in full; when a snapshot is read, missing
tables are empty and unknown fields are passed over, but every record must be complete.

## Contents
- `Record.tree`, `Database.snapshotTree`: what is written.
- `Database.snapshot`: the text, `Database.encode`: its bytes.
- `readRecord`, `readSnapshot`: the readers.
- `Database.decode`: the database of a text.
-/

namespace DocStore

open Text (Bytes)

/-! ## Writing -/

/-- A set of texts as an array. -/
def KeySet.tree (set : KeySet) : Tree :=
  .array (set.keys.map Tree.string)

/-- A time as a number, or `null`. -/
def Millis.tree? (time : Option Millis) : Tree :=
  match time with
  | none => .null
  | some time => .number (Number.ofInt64 time)

/-- A map as an object. -/
def KeyMap.treeWith {α : Type} (item : α → Tree) (m : KeyMap α) : Tree :=
  .object (m.entries.map fun entry => (entry.1, item entry.2))

/-- A record as an object of its parts. -/
def Record.tree (record : Record) : Tree :=
  .object
    [("payload", (Json.object record.payload).tree), ("ttl_ms", Millis.tree? record.ttl),
      ("expires_at", Millis.tree? record.expiresAt), ("field_names", record.fieldNames.tree),
      ("field_values", record.fieldValues.tree)]

namespace Database

/-- A database as an object of its two tables. -/
def snapshotTree (db : Database) : Tree :=
  .object
    [("documents", db.documents.treeWith Record.tree),
      ("indices", db.indices.treeWith fun bucket => (Json.object bucket).tree)]

/-- The text of a database. -/
def snapshot (db : Database) : List Char :=
  db.snapshotTree.pretty

/-- The bytes of the text of a database. -/
def encode (db : Database) : Bytes :=
  Text.Utf8.encode db.snapshot

end Database

/-! ## Reading -/

namespace Snapshot

open Json Json.Reader

/-- Reads an object whose members are values. -/
def readPayload (rounds depth : Nat) (s : Bytes) : Result Payload :=
  mapping rounds depth (fun depth => value rounds depth) s

/-- Reads an array of strings as a set. -/
def readSet (rounds depth : Nat) (s : Bytes) : Result KeySet :=
  (sequence rounds depth text s).map fun (texts, s) => (KeySet.ofTexts texts, s)

/-- The parts of a record that have been read so far. -/
structure RecordDraft where
  payload : Option Payload
  ttl : Option (Option Millis)
  expiresAt : Option (Option Millis)
  fieldNames : Option KeySet
  fieldValues : Option KeySet

/-- The draft before the first part. -/
def RecordDraft.blank : RecordDraft :=
  ⟨none, none, none, none, none⟩

/-- Reads a field of a record. -/
def recordField (rounds depth : Nat) (draft : RecordDraft) (key : String) (s : Bytes) :
    Result RecordDraft :=
  if key = "payload" then
    (field key draft.payload (readPayload rounds depth) s).map
      fun (part, s) => ({ draft with payload := part }, s)
  else if key = "ttl_ms" then
    (field key draft.ttl (optional int64) s).map fun (part, s) => ({ draft with ttl := part }, s)
  else if key = "expires_at" then
    (field key draft.expiresAt (optional int64) s).map
      fun (part, s) => ({ draft with expiresAt := part }, s)
  else if key = "field_names" then
    (field key draft.fieldNames (readSet rounds depth) s).map
      fun (part, s) => ({ draft with fieldNames := part }, s)
  else if key = "field_values" then
    (field key draft.fieldValues (readSet rounds depth) s).map
      fun (part, s) => ({ draft with fieldValues := part }, s)
  else (unknownField rounds s).map (draft, ·)

/-- The record of a draft; the times may be missing. -/
def RecordDraft.finish (draft : RecordDraft) : Except Cause Record :=
  match draft.payload, draft.fieldNames, draft.fieldValues with
  | none, _, _ => .error (.missingField "payload")
  | _, none, _ => .error (.missingField "field_names")
  | _, _, none => .error (.missingField "field_values")
  | some payload, some names, some values =>
    .ok ⟨payload, draft.ttl.getD none, draft.expiresAt.getD none, names, values⟩

/-- Reads a record written as an object, after its opening brace. -/
def recordFields (rounds depth : Nat) (s : Bytes) : Result Record :=
  match members (recordField rounds depth) rounds true .blank s with
  | .error fault => .error fault
  | .ok (draft, s) =>
    match draft.finish with
    | .error cause => .error (afterObject cause s)
    | .ok record => .ok (record, s)

/-- Reads the part of a record at a position of an array. -/
def recordPart {α : Type} (position : Nat) (item : Bytes → Result α) (s : Bytes) : Result α :=
  match part (position == 0) item s with
  | .error fault => .error fault
  | .ok (none, s) => .error (afterArray (.invalidLength position (.struct "Record") 5) s)
  | .ok (some value, s) => .ok (value, s)

/-- Reads a record written as an array, after its opening bracket. -/
def recordParts (rounds depth : Nat) (s : Bytes) : Except Fault (Record × Bytes) := do
  let (payload, s) ← recordPart 0 (readPayload rounds depth) s
  let (ttl, s) ← recordPart 1 (optional int64) s
  let (expiresAt, s) ← recordPart 2 (optional int64) s
  let (fieldNames, s) ← recordPart 3 (readSet rounds depth) s
  let (fieldValues, s) ← recordPart 4 (readSet rounds depth) s
  return (⟨payload, ttl, expiresAt, fieldNames, fieldValues⟩, s)

/-- Reads a record. -/
def readRecord (rounds depth : Nat) (s : Bytes) : Result Record :=
  opened "Record" depth (recordParts rounds) (recordFields rounds) s

/-- Reads the table of documents. -/
def readDocuments (rounds depth : Nat) (s : Bytes) : Result Documents :=
  mapping rounds depth (readRecord rounds) s

/-- Reads the table of index buckets. -/
def readIndices (rounds depth : Nat) (s : Bytes) : Result Indices :=
  mapping rounds depth (readPayload rounds) s

/-- The tables that have been read so far. -/
structure Draft where
  documents : Option Documents
  indices : Option Indices

/-- The database of a draft, in which a missing table is empty. -/
def Draft.finish (draft : Draft) : Database :=
  ⟨draft.documents.getD KeyMap.empty, draft.indices.getD KeyMap.empty⟩

/-- Reads a field of a snapshot. -/
def snapshotField (rounds depth : Nat) (draft : Draft) (key : String) (s : Bytes) : Result Draft :=
  if key = "documents" then
    (field key draft.documents (readDocuments rounds depth) s).map
      fun (part, s) => ({ draft with documents := part }, s)
  else if key = "indices" then
    (field key draft.indices (readIndices rounds depth) s).map
      fun (part, s) => ({ draft with indices := part }, s)
  else (unknownField rounds s).map (draft, ·)

/-- Reads a snapshot written as an object, after its opening brace. -/
def snapshotFields (rounds depth : Nat) (s : Bytes) : Result Database :=
  (members (snapshotField rounds depth) rounds true ⟨none, none⟩ s).map
    fun (draft, s) => (draft.finish, s)

/-- Reads a snapshot written as an array, after its opening bracket. -/
def snapshotParts (rounds depth : Nat) (s : Bytes) : Except Fault (Database × Bytes) := do
  let (documents, s) ← part true (readDocuments rounds depth) s
  let (indices, s) ← part documents.isNone (readIndices rounds depth) s
  return ((Draft.mk documents indices).finish, s)

/-- Reads a snapshot. -/
def readSnapshot (rounds depth : Nat) (s : Bytes) : Result Database :=
  opened "Snapshot" depth (snapshotParts rounds) (snapshotFields rounds) s

end Snapshot

/-- The database of a text. -/
def Database.decode (input : Bytes) : Except Json.Report Database :=
  Json.Reader.parseWith
    (fun rounds => Snapshot.readSnapshot rounds Json.Reader.maxDepth) input

end DocStore
