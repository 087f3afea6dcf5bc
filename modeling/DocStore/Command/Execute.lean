import DocStore.Command.Line
import DocStore.Command.Reply
import DocStore.Database
import DocStore.Json.Decoder

/-!
# Executing commands

Each command is a function of the database, and a command that fails leaves no new database behind.

## Contents
- `Texts`: the fixed replies.
- `Database.set`, `get`, `del`, `index`, `range`: the commands.
- `Database.run`: a command with its arguments.
- `Database.execute`: a line.
-/

namespace DocStore

/-- The text of a successful command and the database after it, or its error. -/
abbrev Outcome := Except CommandError (String × Database)

/-! ## Fixed replies -/

namespace Texts

/-- The reply to a stored document. -/
def stored : String := "OK"

/-- The reply to a new index entry. -/
def indexed : String := "Index created."

/-- What is shown instead of an expired document. -/
def expiredNotice : String := "This key has expired. Use DEL to remove it."

/-- What is shown instead of an empty range. -/
def noResults : String := "No results."

end Texts

namespace Database

/-! ## Document commands -/

/-- Stores a document under a key. Fractions of a millisecond of its lifetime are dropped. -/
def set (db : Database) (now : Millis) (args : List String) : Outcome :=
  match args with
  | [] => .error (.missingArgument "key")
  | key :: rest =>
    match PayloadSpan.find? rest with
    | none => .error .noObject
    | some span =>
      match Json.parseObject (Text.Utf8.encode span.json.toList) with
      | .error report => .error (.invalidJson report)
      | .ok payload =>
        let record := Record.create payload (span.ttl.map Binary64.truncate) now
        .ok (Texts.stored, db.insert key record)

/-- Shows the document of a key, unless it has expired. -/
def get (db : Database) (now : Millis) (args : List String) : Outcome :=
  match args with
  | [] => .error (.missingArgument "key")
  | key :: _ =>
    match db.find? key with
    | none => .error (.keyNotFound key)
    | some record =>
      if record.isExpired now then .ok (Texts.expiredNotice, db) else .ok (record.pretty, db)

/-- Removes the document of a key and its bucket. -/
def del (db : Database) (args : List String) : Outcome :=
  match args with
  | [] => .error (.missingArgument "key")
  | key :: _ =>
    match db.find? key with
    | none => .error (.keyNotFound key)
    | some _ => .ok ("Deleted key: " ++ key, db.remove key)

/-! ## Index commands -/

/-- Checks that a field of a record has a value: the field must be one of the record's names, the value
    one of its values, and the payload must hold that value in that field. -/
def checkEntry (record : Record) (field value : String) : Except CommandError Unit :=
  if !record.fieldNames.contains field then .error (.invalidField field record.fieldNames)
  else if !record.fieldValues.contains value then .error (.invalidValue value record.fieldValues)
  else
    let actual := ((record.field? field).map Json.canonical).getD ""
    if actual ≠ value then .error (.valueMismatch field value actual) else .ok ()

/-- Notes the value of a field of a document in the bucket of the document. -/
def index (db : Database) (args : List String) : Outcome :=
  match args with
  | [] => .error (.missingArgument "base key")
  | base :: rest =>
    match db.find? base with
    | none => .error (.baseKeyNotFound base)
    | some record =>
      match rest with
      | [] => .error (.missingArgument "field")
      | [_] => .error (.missingArgument "value")
      | field :: value :: _ =>
        match checkEntry record field value with
        | .error error => .error error
        | .ok () => .ok (Texts.indexed, db.setIndexEntry base field (Json.string value))

/-- The text of a bucket of matches. -/
def matchesText (bucket : Bucket) : String :=
  if bucket.isEmpty then Texts.noResults else (Json.object bucket).pretty

/-- Shows the documents whose field lies between two bounds, and keeps them in a bucket. -/
def range (db : Database) (args : List String) : Outcome :=
  match args with
  | [] => .error (.missingArgument "field")
  | field :: rest =>
    let low := (rest[0]?).getD ""
    let high := (rest[1]?).getD ""
    match Decimal.parseNumber low.toList, Decimal.parseNumber high.toList with
    | some start, some stop =>
      let bucket := (db.rangeScan field start stop).map Json.object
      .ok (matchesText bucket, db.replaceBucket (rangeBucketName field start stop) bucket)
    | _, _ => .error (.nonNumericRange low high)

/-! ## Lines -/

/-- Executes a command. -/
def run (db : Database) (now : Millis) (command : Command) (args : List String) : Outcome :=
  match command with
  | .set => db.set now args
  | .get => db.get now args
  | .del => db.del args
  | .index => db.index args
  | .range => db.range args

/-- Executes a line that is not blank: the reply and the database after it. -/
def executeLine (db : Database) (now : Millis) (line : CommandLine) : Reply × Database :=
  match Command.lookup line.verb with
  | none => (⟨none, .error (.unknownCommand line.verb)⟩, db)
  | some command =>
    match db.run now command line.args with
    | .error error => (⟨some command, .error error⟩, db)
    | .ok (text, after) => (⟨some command, .ok text⟩, after)

/-- Executes a line. A blank one has no reply and changes nothing. -/
def execute (db : Database) (now : Millis) (line : String) : Option Reply × Database :=
  match CommandLine.parse line with
  | none => (none, db)
  | some line =>
    let (reply, after) := db.executeLine now line
    (some reply, after)

end Database

end DocStore
