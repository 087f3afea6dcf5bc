import DocStore.Command.Execute
import DocStore.Storage.Backend

/-!
# Sessions

A session is a database with the backend that keeps it. Every reply that may have changed the database
is followed by a save, and a save that fails changes nothing for the session.

## Contents
- `Session`: the type.
- `Session.start`: a session on what the backend holds.
- `Session.execute`: a line.
-/

namespace DocStore

/-- A database and the backend that keeps it. -/
structure Session (β : Type) where
  database : Database
  backend : β

namespace Session

variable {β : Type} [Backend β]

/-- The session on what a backend holds. -/
def start (backend : β) : Except StorageError (Session β) :=
  match Backend.load backend with
  | (.ok db, loaded) => .ok ⟨db, loaded⟩
  | (.error error, _) => .error error

/-- Saves the database. -/
def save (session : Session β) : Session β :=
  { session with backend := (Backend.save session.backend session.database).2 }

/-- Executes a line at a given time. -/
def execute (session : Session β) (now : Millis) (line : String) : Option Reply × Session β :=
  match session.database.execute now line with
  | (none, db) => (none, { session with database := db })
  | (some reply, db) =>
    let after := { session with database := db }
    (some reply, if reply.mutated then after.save else after)

end Session

end DocStore
