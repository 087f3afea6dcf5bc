import DocStore.Record

/-!
# Databases

A database is a map of documents and a table of index buckets. Equality buckets bear the key of a
document, range buckets the name of a query.

## Contents
- `Database`: the type, with `Database.empty`.
- `insert`, `remove`, `setIndexEntry`, `replaceBucket`: the changes.
- `rangeScan`: the documents with a field in an interval.
- `rangeBucketName`: the name of the bucket of a range query.
-/

namespace DocStore

/-- The documents by their keys. -/
abbrev Documents := KeyMap Record

/-- An index bucket: values by field names, or payloads by document keys. -/
abbrev Bucket := KeyMap Json

/-- The index buckets by their names. -/
abbrev Indices := KeyMap Bucket

/-- The documents and the index buckets. -/
structure Database where
  documents : Documents
  indices : Indices
  deriving DecidableEq

namespace Database

/-- The database without documents and buckets. -/
def empty : Database :=
  ⟨KeyMap.empty, KeyMap.empty⟩

/-! ## Documents -/

/-- The record of a key. -/
def find? (db : Database) (key : String) : Option Record :=
  db.documents.find? key

/-- Stores a record, in place of one that the key may have had. -/
def insert (db : Database) (key : String) (record : Record) : Database :=
  { db with documents := db.documents.insert key record }

/-- Removes the record of a key together with the bucket of that name. Without a record nothing
    changes. -/
def remove (db : Database) (key : String) : Database :=
  if db.documents.contains key then
    ⟨db.documents.erase key, db.indices.erase key⟩
  else db

/-! ## Buckets -/

/-- The bucket of a name. -/
def bucket? (db : Database) (name : String) : Option Bucket :=
  db.indices.find? name

/-- Sets one entry of a bucket, which is made if there is none. -/
def setIndexEntry (db : Database) (name field : String) (value : Json) : Database :=
  let bucket := (db.bucket? name).getD KeyMap.empty
  { db with indices := db.indices.insert name (bucket.insert field value) }

/-- Puts a bucket in the place of one that may have had its name. -/
def replaceBucket (db : Database) (name : String) (bucket : Bucket) : Database :=
  { db with indices := db.indices.insert name bucket }

/-! ## Range queries -/

/-- Whether the number of a value lies between two bounds. -/
def inRange (low high : Binary64) (value : Json) : Bool :=
  match value.numeric? with
  | some n => low.le n && n.le high
  | none => false

/-- The payloads of the documents whose field lies between two bounds. Expired documents count. -/
def rangeScan (db : Database) (field : String) (low high : Binary64) : KeyMap Payload :=
  db.documents.filterMap fun record =>
    match record.field? field with
    | some value => if inRange low high value then some record.payload else none
    | none => none

/-- What the names of range buckets start with. -/
def rangeMark : String := "RANGE:"

/-- The name of the bucket of a range query. -/
def rangeBucketName (field : String) (low high : Binary64) : String :=
  rangeMark ++ field ++ ":" ++ String.ofList (Decimal.formatNumber low) ++ "-" ++
    String.ofList (Decimal.formatNumber high)

end Database

end DocStore
