import DocStore.Proofs.Effects
import DocStore.Proofs.Reopening

/-!
# What a session saves

A session is the database that it has loaded, with a backend beside it that is told of every write. The
backend has no say in what is answered, whether or not it manages to save, and it is told exactly as
often as a write succeeds. Hence a memory is never behind the database.

## Contents
- `Event.writes`, `Database.written`: the writes of a run that succeeded, and what they leave behind.
- `Backend.saveAll`: the saves of a run.
- `Database.after_eq_last`: **between two writes nothing changes**.
- `Session.run_saves`: **what a session saves**.
-/

namespace DocStore

/-! ## Writes -/

namespace Event

/-- Whether an event is a SET, a DEL, an INDEX or a RANGE that succeeded. -/
def writes (event : Event) : Bool :=
  match event.reply with
  | some ⟨some .set, .ok _⟩ => true
  | some ⟨some .del, .ok _⟩ => true
  | some ⟨some .index, .ok _⟩ => true
  | some ⟨some .range, .ok _⟩ => true
  | _ => false

/-- The writes that succeeded are the events whose reply reports a change. -/
theorem writes_iff (event : Event) :
    event.writes = true ↔ ∃ reply ∈ event.reply, reply.mutated = true := by
  simp only [Reply.mutated_iff]
  constructor
  · intro h
    unfold writes at h
    split at h
    · next hreply => exact ⟨_, hreply, _, _, Command.noConfusion, rfl⟩
    · next hreply => exact ⟨_, hreply, _, _, Command.noConfusion, rfl⟩
    · next hreply => exact ⟨_, hreply, _, _, Command.noConfusion, rfl⟩
    · next hreply => exact ⟨_, hreply, _, _, Command.noConfusion, rfl⟩
    · cases h
  · rintro ⟨_, hreply, command, text, hwrite, rfl⟩
    unfold writes
    rw [show event.reply = _ from hreply]
    cases command with
    | get => exact absurd rfl hwrite
    | _ => rfl

end Event

namespace Database

/-- The databases that the writes of a run leave behind, in order. -/
def written (db : Database) : Script → List Database
  | [] => []
  | (now, line) :: rest =>
    let next := (db.execute now line).2
    if (db.event now line).writes then next :: next.written rest else next.written rest

/-- There are as many of them as writes. -/
theorem length_written (script : Script) :
    ∀ db : Database, (db.written script).length = (db.history script).countP Event.writes := by
  induction script with
  | nil => exact fun _ => rfl
  | cons entry rest ih =>
      obtain ⟨now, line⟩ := entry
      intro db
      rw [written, history, List.countP_cons]
      split
      · exact congrArg (· + 1) (ih _)
      · exact ih _

/-- A line that is no write leaves the database alone. -/
theorem execute_of_not_writes {db : Database} {now : Millis} {line : String}
    (h : ¬ (db.event now line).writes = true) : (db.execute now line).2 = db := by
  apply (db.execute_step now line).eq_of_quiet
  intro reply hreply
  by_contra hmutated
  exact h ((Event.writes_iff _).mpr ⟨reply, hreply, Bool.eq_true_of_not_eq_false hmutated⟩)

/-- **Between two writes nothing changes**: a run ends with what its last write has left behind, or with
    what it started from. -/
theorem after_eq_last (script : Script) :
    ∀ db : Database, db.after script = (db.written script).getLast?.getD db := by
  induction script with
  | nil => exact fun _ => rfl
  | cons entry rest ih =>
      obtain ⟨now, line⟩ := entry
      intro db
      rw [after, written, ih]
      split
      · rw [List.getLast?_cons]
        rfl
      · rename_i hquiet
        rw [execute_of_not_writes hquiet]

end Database

/-! ## Saves -/

/-- A backend after so many saves, whether or not they succeed. -/
def Backend.saveAll {β : Type} [Backend β] (backend : β) (databases : List Database) : β :=
  databases.foldl (fun backend db => (Backend.save backend db).2) backend

/-- A memory counts the saves and holds the text of the last one. -/
theorem Memory.saveAll_eq (databases : List Database) :
    ∀ memory : Memory, Backend.saveAll memory databases =
      ⟨(databases.getLast?.map Database.encode).or memory.content,
        memory.saves + databases.length⟩ := by
  induction databases with
  | nil => exact fun _ => rfl
  | cons db rest ih =>
      intro memory
      show Backend.saveAll (⟨some db.encode, memory.saves + 1⟩ : Memory) rest = _
      rw [ih, List.getLast?_cons]
      cases rest.getLast? with
      | none => simp [Nat.add_comm, Nat.add_left_comm]
      | some last => simp [Nat.add_comm, Nat.add_left_comm]

namespace Session

section Runs

variable {β : Type} [Backend β]

/-- What a session starts with. -/
theorem load_of_start {backend : β} {session : Session β} (h : start backend = .ok session) :
    Backend.load backend = (.ok session.database, session.backend) := by
  rw [start] at h
  split at h
  · rename_i hload
    cases h
    exact hload
  · cases h

/-- A line is followed by one save if it is a write that succeeded, and by none otherwise. -/
theorem execute_backend (session : Session β) (now : Millis) (line : String) :
    (session.execute now line).2.backend =
      if (session.database.event now line).writes then
        (Backend.save session.backend (session.database.execute now line).2).2
      else session.backend := by
  have hwrites := Event.writes_iff (session.database.event now line)
  unfold Database.event at hwrites ⊢
  rw [execute]
  split
  · rename_i hexec
    rw [hexec] at hwrites ⊢
    rw [if_neg]
    rw [hwrites]
    rintro ⟨reply, hreply, -⟩
    cases hreply
  · rename_i reply db hexec
    rw [hexec] at hwrites ⊢
    have hmutated : (Event.mk now line (some reply)).writes = true ↔ reply.mutated = true := by
      rw [hwrites]
      constructor
      · rintro ⟨_, hreply, h⟩
        obtain rfl := Option.mem_some_iff.mp hreply
        exact h
      · exact fun h => ⟨reply, rfl, h⟩
    simp only [hmutated]
    show (if reply.mutated then save _ else _ : Session β).backend = _
    split
    · rfl
    · rfl

/-- The replies of a session are those of its database. -/
theorem replies_eq_history (script : Script) :
    ∀ session : Session β,
      session.replies script = (session.database.history script).map Event.reply := by
  induction script with
  | nil => exact fun _ => rfl
  | cons entry rest ih =>
      obtain ⟨now, line⟩ := entry
      intro session
      rw [replies, ih, execute_reply, execute_database]
      rfl

theorem run_database (script : Script) :
    ∀ session : Session β, (session.run script).database = session.database.after script := by
  induction script with
  | nil => exact fun _ => rfl
  | cons entry rest ih =>
      obtain ⟨now, line⟩ := entry
      intro session
      rw [run, ih, execute_database]
      rfl

/-- The backend of a session is told of every write, and of nothing else. -/
theorem run_backend (script : Script) :
    ∀ session : Session β, (session.run script).backend =
      Backend.saveAll session.backend (session.database.written script) := by
  induction script with
  | nil => exact fun _ => rfl
  | cons entry rest ih =>
      obtain ⟨now, line⟩ := entry
      intro session
      rw [run, ih, execute_backend, execute_database, Database.written]
      split
      · rfl
      · rfl

end Runs

/-- What a memory holds after a run. -/
theorem run_memory (session : Session Memory) (script : Script) :
    (session.run script).backend.saves =
        session.backend.saves + (session.database.history script).countP Event.writes ∧
      (session.run script).backend.content =
        if ∃ event ∈ session.database.history script, event.writes = true then
          some (session.run script).database.encode
        else session.backend.content := by
  have hlength := Database.length_written script session.database
  rw [run_backend, run_database, Memory.saveAll_eq, Database.after_eq_last, hlength]
  refine ⟨rfl, ?_⟩
  show (((session.database.written script).getLast?.map Database.encode).or _) = _
  -- there is a last write exactly when there is a write
  cases hlast : (session.database.written script).getLast? with
  | none =>
      rw [List.getLast?_eq_none_iff.mp hlast] at hlength
      rw [if_neg]
      · rfl
      · exact fun ⟨event, hevent, h⟩ => List.countP_eq_zero.mp hlength.symm event hevent h
  | some last =>
      have hpos := List.length_pos_of_mem (List.mem_of_getLast? hlast)
      rw [if_pos]
      · rfl
      · exact List.countP_pos_iff.mp (hlength ▸ hpos)

/-- **What a session saves.** Take a session on any backend that has loaded a database.
    - Whatever becomes of its saves, its replies and its database are those of the script on that
      database alone.
    - Each write that succeeds is followed by one save of the database as it is then, and the backend is
      told of nothing else.
    - If the backend is a memory, it counts the writes that succeeded. Once there was one, it holds the
      text of the database, and before that it holds what it held at the start. -/
theorem run_saves (script : Script) :
    (∀ (β : Type) [Backend β] (backend : β) (session : Session β), start backend = .ok session →
      ∃ db loaded, Backend.load backend = (.ok db, loaded) ∧
        session.replies script = (db.history script).map Event.reply ∧
        (session.run script).database = db.after script ∧
        (session.run script).backend = Backend.saveAll loaded (db.written script)) ∧
    (∀ (memory : Memory) (session : Session Memory), start memory = .ok session →
      ∃ db, Backend.load memory = (.ok db, memory) ∧
        (session.run script).backend.saves =
          memory.saves + (db.history script).countP Event.writes ∧
        (session.run script).backend.content =
          if ∃ event ∈ db.history script, event.writes = true then
            some (db.after script).encode
          else memory.content) := by
  constructor
  · intro β _ backend session hstart
    exact ⟨_, _, load_of_start hstart, replies_eq_history script session, run_database script session,
      run_backend script session⟩
  · intro memory session hstart
    have hload := load_of_start hstart
    -- loading leaves a memory as it is
    obtain rfl : memory = session.backend := congrArg Prod.snd hload
    refine ⟨session.database, hload, ?_⟩
    rw [← run_database]
    exact run_memory session script

/-- A document that is stored and looked up is saved once. -/
theorem run_saves_once :
    start (Memory.fresh none) = .ok fresh ∧
      (fresh.run [(0, "SET k \x7b\"a\":1\x7d"), (1, "GET k")]).backend.saves = 1 := by
  refine ⟨start_fresh, ?_⟩
  obtain ⟨db, hload, hsaves, -⟩ :=
    (run_saves [(0, "SET k \x7b\"a\":1\x7d"), (1, "GET k")]).2 _ _ start_fresh
  obtain rfl : Database.empty = db := Except.ok.inj (congrArg Prod.fst hload)
  rw [hsaves]
  decide +kernel

end Session

end DocStore
