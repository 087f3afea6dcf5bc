import DocStore.Clock
import DocStore.Json.Canonical
import DocStore.Json.Printer

/-!
# Records

A record is a stored document: its payload, its lifetime, and the names and values of its fields as
they were when it was stored.

## Contents
- `Record`: the type; `Record.create` makes one from a payload.
- `Record.status`, `Record.isExpired`: its lifetime at a given time.
- `Status.text`: how a lifetime is shown.
-/

namespace DocStore

/-- A stored document. The names and values of the fields are those of the payload it was made from;
    a record that was loaded keeps the ones it was saved with. -/
structure Record where
  payload : Payload
  ttl : Option Millis
  expiresAt : Option Millis
  fieldNames : KeySet
  fieldValues : KeySet
  deriving DecidableEq

/-! ## Lifetime -/

/-- The lifetime of a record at some time. -/
inductive Status
  | persistent
  | remaining (duration : Millis)
  | expired
  deriving DecidableEq

/-- How a lifetime is shown: whole seconds, rounded up. -/
def Status.text : Status → String
  | .persistent => "-"
  | .remaining duration => toString ((Millis.add duration 999).toInt.tdiv 1000) ++ "s"
  | .expired => "Expired"

/-- The lifetime up to a given end. The end itself still belongs to it. -/
def Status.until (expiresAt : Option Millis) (now : Millis) : Status :=
  match expiresAt with
  | none => .persistent
  | some last => if now > last then .expired else .remaining (Millis.sub last now)

namespace Record

/-- The lifetime of a record at a given time. -/
def status (record : Record) (now : Millis) : Status :=
  Status.until record.expiresAt now

/-- Whether a record has expired at a given time. -/
def isExpired (record : Record) (now : Millis) : Bool :=
  record.status now == .expired

/-! ## Contents -/

/-- The record of a payload that is stored at a given time. -/
def create (payload : Payload) (ttl : Option Millis) (now : Millis) : Record :=
  { payload := payload
    ttl := ttl
    expiresAt := ttl.map (Millis.add now ·)
    fieldNames := payload.map fun _ => ()
    fieldValues := KeySet.ofTexts (payload.values.map Json.canonical) }

/-- The value of a field. -/
def field? (record : Record) (name : String) : Option Json :=
  record.payload.find? name

/-- The payload as it is shown. -/
def pretty (record : Record) : String :=
  (Json.object record.payload).pretty

end Record

end DocStore
