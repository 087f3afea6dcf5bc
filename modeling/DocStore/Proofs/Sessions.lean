import DocStore.Proofs.Execution
import DocStore.Session

/-!
# Runs of a session

A run executes lines at times that may be anything. What is answered depends on the documents and not
on the buckets, so databases with the same documents cannot be told apart.

## Contents
- `Session.run`, `Session.replies`: what a session makes of a script.
- `Session.run_inv`: what every line keeps, a run keeps.
- `Database.execute_congr`: **a line cannot tell databases with the same documents apart**.
- `Session.replies_congr`: neither can a script.
-/

namespace DocStore

/-! ## Databases with the same documents -/

namespace Database

/-- What of an outcome does not depend on the buckets: the text or error, and the documents. -/
def seen (outcome : Outcome) : Except CommandError (String × Documents) :=
  outcome.map fun answer => (answer.1, answer.2.documents)

theorem remove_documents (db : Database) (key : String) :
    (db.remove key).documents =
      if db.documents.contains key then db.documents.erase key else db.documents := by
  unfold remove
  split
  · rfl
  · rfl

variable {a b : Database}

/-- A command sees the documents only. -/
theorem run_congr (h : a.documents = b.documents) (now : Millis) (command : Command)
    (args : List String) : seen (a.run now command args) = seen (b.run now command args) := by
  obtain ⟨documents, before⟩ := a
  obtain ⟨_, other⟩ := b
  obtain rfl : documents = _ := h
  -- without arguments every command fails, and with a key they look it up in the same documents
  cases args with
  | nil => cases command <;> rfl
  | cons key rest =>
      cases command with
      | set =>
          simp only [run, set]
          cases PayloadSpan.find? rest with
          | none => rfl
          | some span =>
              dsimp only
              cases Json.parseObject (Text.Utf8.encode span.json.toList) with
              | error report => rfl
              | ok payload => rfl
      | get =>
          simp only [run, get, find?]
          cases documents.find? key with
          | none => rfl
          | some record =>
              dsimp only
              split
              · rfl
              · rfl
      | del =>
          simp only [run, del, find?]
          cases documents.find? key with
          | none => rfl
          | some record =>
              show Except.ok (_, (remove _ key).documents) = Except.ok (_, (remove _ key).documents)
              rw [remove_documents, remove_documents]
      | index =>
          simp only [run, index, find?]
          cases documents.find? key with
          | none => rfl
          | some record =>
              rcases rest with _ | ⟨field, _ | ⟨value, _⟩⟩
              · rfl
              · rfl
              · dsimp only
                cases checkEntry record field value with
                | error error => rfl
                | ok _ => rfl
      | range =>
          simp only [run, range]
          split
          · rfl
          · rfl

/-- **A line cannot tell databases with the same documents apart**, and leaves the same documents
    behind in both. -/
theorem execute_congr (h : a.documents = b.documents) (now : Millis) (line : String) :
    (a.execute now line).1 = (b.execute now line).1 ∧
      (a.execute now line).2.documents = (b.execute now line).2.documents := by
  unfold execute
  cases CommandLine.parse line with
  | none => exact ⟨rfl, h⟩
  | some parsed =>
      simp only [executeLine]
      cases Command.lookup parsed.verb with
      | none => exact ⟨rfl, h⟩
      | some command =>
          dsimp only
          -- both runs fail alike, or both succeed with the same text and the same documents
          have hseen := run_congr h now command parsed.args
          cases ha : a.run now command parsed.args with
          | error error =>
              cases hb : b.run now command parsed.args with
              | error other =>
                  rw [ha, hb] at hseen
                  cases hseen
                  exact ⟨rfl, h⟩
              | ok answer =>
                  rw [ha, hb] at hseen
                  cases hseen
          | ok answer =>
              cases hb : b.run now command parsed.args with
              | error error =>
                  rw [ha, hb] at hseen
                  cases hseen
              | ok other =>
                  obtain ⟨text, after⟩ := answer
                  obtain ⟨text', after'⟩ := other
                  rw [ha, hb] at hseen
                  have hpair : (text, after.documents) = (text', after'.documents) :=
                    Except.ok.inj hseen
                  obtain ⟨rfl, hdocuments⟩ := Prod.mk.inj hpair
                  exact ⟨rfl, hdocuments⟩

end Database

/-! ## Runs -/

namespace Session

variable {β : Type} [Backend β]

/-- The session after the lines of a script. -/
def run (session : Session β) : Script → Session β
  | [] => session
  | (now, line) :: rest => (session.execute now line).2.run rest

/-- The replies to the lines of a script. -/
def replies (session : Session β) : Script → List (Option Reply)
  | [] => []
  | (now, line) :: rest =>
    (session.execute now line).1 :: (session.execute now line).2.replies rest

/-- What every line keeps, a run keeps. -/
theorem run_inv {I : Session β → Prop}
    (hstep : ∀ session now line, I session → I (session.execute now line).2) (script : Script) :
    ∀ session, I session → I (session.run script) := by
  induction script with
  | nil => exact fun session h => h
  | cons entry rest ih =>
      obtain ⟨now, line⟩ := entry
      intro session h
      exact ih _ (hstep session now line h)

theorem execute_reply (session : Session β) (now : Millis) (line : String) :
    (session.execute now line).1 = (session.database.execute now line).1 := by
  rw [execute]
  split
  · rename_i hexec
    rw [hexec]
  · rename_i hexec
    rw [hexec]

theorem execute_database (session : Session β) (now : Millis) (line : String) :
    (session.execute now line).2.database = (session.database.execute now line).2 := by
  rw [execute]
  split
  · rename_i hexec
    rw [hexec]
  · rename_i reply db hexec
    rw [hexec]
    show (if reply.mutated then save _ else _ : Session β).database = db
    split
    · rfl
    · rfl

/-- Sessions on databases with the same documents give the same replies, whatever keeps them. -/
theorem replies_congr {γ : Type} [Backend γ] (script : Script) :
    ∀ (a : Session β) (b : Session γ), a.database.documents = b.database.documents →
      a.replies script = b.replies script := by
  induction script with
  | nil => exact fun a b _ => rfl
  | cons entry rest ih =>
      obtain ⟨now, line⟩ := entry
      intro a b h
      obtain ⟨hreply, hdocuments⟩ := Database.execute_congr h now line
      rw [← execute_database, ← execute_database] at hdocuments
      rw [replies, replies, execute_reply, execute_reply, hreply, ih _ _ hdocuments]

end Session

end DocStore
