import DocStore.Proofs.Sessions
import DocStore.Proofs.StoredValues

/-!
# Sessions that are reopened

A run of a session on a memory leaves the text of its database behind, so a second session on the same
memory starts with what that text is read as. Whether it can start, and whether it starts with the same
database, depends on the values that the first one holds.

## Contents
- `Session.fresh`, `Session.UpToDate`: the first session, and a memory that holds the text of the
  database; `run_upToDate`: after every run.
- `Session.start_upToDate`: **what a second session starts with**.
- `Session.restarts_iff`: **when a session can be reopened**.
- `Session.restart_same_iff`: **when a reopened session cannot be told from the first one**.
-/

namespace DocStore

open Json.Reader (eq_ok_of_toOption eq_of_toOption_ite isOk_iff_of_toOption_ite)
open Text.Utf8 (encode)

/-- The text of an object that holds so many arrays, one inside the other. -/
def nestedText (arrays : Nat) : List Char :=
  "\x7b\"a\":".toList ++ List.replicate arrays '[' ++ List.replicate arrays ']' ++ ['\x7d']

namespace Session

/-! ## Memories -/

/-- The session on a memory that was never saved to. -/
def fresh : Session Memory :=
  ⟨Database.empty, Memory.fresh none⟩

theorem start_fresh : start (Memory.fresh none) = .ok fresh := rfl

/-- Whether a memory holds the text of the database, or nothing if the database was never saved. -/
def UpToDate (session : Session Memory) : Prop :=
  session.backend.content = none ∧ session.database = Database.empty ∨
    session.backend.content = some session.database.encode

/-- A line that is not followed by a save has left the database alone. -/
theorem execute_upToDate (session : Session Memory) (now : Millis) (line : String)
    (h : UpToDate session) : UpToDate (session.execute now line).2 := by
  have hstep := session.database.execute_step now line
  unfold execute
  split
  · rename_i db hexec
    rw [hexec] at hstep
    have hquiet : ∀ r ∈ (none : Option Reply), r.mutated = false := by
      intro r hr
      cases hr
    obtain rfl := hstep.eq_of_quiet hquiet
    exact h
  · rename_i reply db hexec
    rw [hexec] at hstep
    show UpToDate (if reply.mutated then save _ else _)
    split
    · exact Or.inr rfl
    · -- without a save the reply reports no change, so there was none
      rename_i hsaved
      have hquiet : ∀ r ∈ some reply, r.mutated = false := by
        intro r hr
        obtain rfl := Option.mem_some_iff.mp hr
        exact Bool.eq_false_of_not_eq_true hsaved
      obtain rfl := hstep.eq_of_quiet hquiet
      exact h

/-- A run from the beginning leaves an up-to-date memory behind. -/
theorem run_upToDate (script : Script) : UpToDate (fresh.run script) :=
  run_inv execute_upToDate script fresh (Or.inl ⟨rfl, rfl⟩)

theorem run_depth_le (script : Script) :
    ∀ v ∈ (fresh.run script).database.values, v.depth ≤ 127 := by
  refine run_inv (I := fun session => ∀ v ∈ session.database.values, v.depth ≤ 127) ?_ script fresh ?_
  · intro session now line h
    rw [execute_database]
    exact Database.execute_depth_le now line h
  · intro v hv
    exact absurd hv List.not_mem_nil

/-- What is loaded from an up-to-date memory. -/
theorem load_upToDate {session : Session Memory} (h : UpToDate session) :
    (loadContent session.backend.content).toOption =
      if ∀ v ∈ session.database.values, v.depth ≤ 124 then some session.database.reread else none := by
  rcases h with ⟨hnone, hempty⟩ | hsome
  · rw [hnone, hempty]
    rfl
  · rw [hsome, ← Database.decode_encode, loadContent]
    cases Database.decode session.database.encode with
    | error report => rfl
    | ok db => rfl

/-- **What a second session starts with**: the database with its values read again, unless a value nests
    too deep. -/
theorem start_upToDate {session : Session Memory} (h : UpToDate session) :
    (start session.backend).toOption =
      if ∀ v ∈ session.database.values, v.depth ≤ 124 then
        some ⟨session.database.reread, session.backend⟩ else none := by
  have hloaded : (start session.backend).toOption =
      (loadContent session.backend.content).toOption.map fun db => ⟨db, session.backend⟩ := by
    have hsame : Backend.load session.backend =
        (loadContent session.backend.content, session.backend) := rfl
    rw [start, hsame]
    cases loadContent session.backend.content with
    | error error => rfl
    | ok db => rfl
  rw [hloaded, load_upToDate h]
  split
  · rfl
  · rfl

/-! ## Whether a session can be reopened -/

/-- **Reopening.** What a run stores nests at most 127 levels, and a second session can be started on the
    memory of a run exactly when nothing that it holds nests deeper than 124 levels. -/
theorem restarts_iff (script : Script) :
    (∀ v ∈ (fresh.run script).database.values, v.depth ≤ 127) ∧
      ((∃ reopened, start (fresh.run script).backend = .ok reopened) ↔
        ∀ v ∈ (fresh.run script).database.values, v.depth ≤ 124) :=
  ⟨run_depth_le script, isOk_iff_of_toOption_ite (start_upToDate (run_upToDate script))⟩

/-! ### An object that is stored and cannot be loaded -/

/-- A line that stores an object which holds so many arrays, one inside the other. -/
def nestedLine (arrays : Nat) : String :=
  String.ofList ("SET k ".toList ++ nestedText arrays)

/-- The line is accepted. -/
theorem execute_nested : ∃ payload, (Json.object payload).depth = 125 ∧
    Database.empty.execute 0 (nestedLine 124) = (some ⟨some .set, .ok Texts.stored⟩,
      Database.empty.insert "k" (Record.create payload none 0)) := by
  have hdepth : (Json.parseObject (encode (nestedText 124))).toOption.map
      (fun payload => (Json.object payload).depth) = some 125 := by decide +kernel
  obtain ⟨payload, hparsed, hdepth⟩ := Option.map_eq_some_iff.mp hdepth
  refine ⟨payload, hdepth, ?_⟩
  have hwords : Text.words ("SET k ".toList ++ nestedText 124) =
      ["SET".toList, "k".toList, nestedText 124] := by decide +kernel
  exact Database.execute_set hwords (by decide) (by decide +kernel) (by decide +kernel)
    (eq_ok_of_toOption hparsed)

/-- An object that nests 125 levels is stored, and after that no second session can be started. -/
theorem nested_not_restarted :
    (fresh.execute 0 (nestedLine 124)).1 = some ⟨some .set, .ok Texts.stored⟩ ∧
      ¬ ∃ reopened, start (fresh.run [(0, nestedLine 124)]).backend = .ok reopened := by
  obtain ⟨payload, hdepth, hexec⟩ := execute_nested
  constructor
  · rw [execute_reply, show fresh.database = Database.empty from rfl, hexec]
  · rw [isOk_iff_of_toOption_ite (start_upToDate (run_upToDate _))]
    intro hload
    -- the payload is still among the values, one level deeper than a reader of snapshots goes
    have hheld : Json.object payload ∈ (fresh.run [(0, nestedLine 124)]).database.values := by
      rw [run, run, execute_database, show fresh.database = Database.empty from rfl, hexec]
      exact List.mem_cons_self
    have hlow := hload _ hheld
    rw [hdepth] at hlow
    exact absurd hlow (by decide)

/-! ## Whether anything has changed -/

theorem documents_reread {db : Database}
    (h : ∀ entry ∈ db.documents.entries, (Json.object entry.2.payload).ReadsBack) :
    db.reread.documents = db.documents := by
  show db.documents.map Record.reread = db.documents
  rw [KeyMap.map_eq_self_iff]
  intro entry hentry
  exact (Record.reread_eq_self_iff entry.2).mpr (h entry hentry)

/-- **A reopened session** has the database with its values read again, and nothing else changes. So it
    has the same database and answers every further script like the session that was never closed,
    exactly when no value has a number that its text changes. For the answers it is enough that no
    payload has one. -/
theorem restart_same_iff (script : Script) {reopened : Session Memory}
    (hstart : start (fresh.run script).backend = .ok reopened) :
    reopened.database = (fresh.run script).database.reread ∧
    ((reopened.database = (fresh.run script).database ∧
        ∀ more, reopened.replies more = (fresh.run script).replies more) ↔
      ∀ v ∈ (fresh.run script).database.values, v.ReadsBack) ∧
    ((∀ entry ∈ (fresh.run script).database.documents.entries,
        (Json.object entry.2.payload).ReadsBack) →
      ∀ more, reopened.replies more = (fresh.run script).replies more) := by
  have hdatabase : reopened.database = (fresh.run script).database.reread := by
    rw [(eq_of_toOption_ite (start_upToDate (run_upToDate script)) hstart).2]
  refine ⟨hdatabase, ⟨?_, ?_⟩, ?_⟩
  · rintro ⟨hsame, -⟩
    rw [hdatabase] at hsame
    exact (Database.reread_eq_self_iff _).mp hsame
  · intro hback
    have hsame := hdatabase.trans ((Database.reread_eq_self_iff _).mpr hback)
    exact ⟨hsame, fun more => replies_congr more _ _ (congrArg Database.documents hsame)⟩
  · intro hback more
    refine replies_congr more _ _ ?_
    rw [hdatabase, documents_reread hback]

/-- An integer survives. -/
theorem restart_same_integer :
    ∃ reopened, start (fresh.run [(0, "SET k \x7b\"a\":1\x7d")]).backend = .ok reopened ∧
      reopened.database = (fresh.run [(0, "SET k \x7b\"a\":1\x7d")]).database ∧
      ∀ more, reopened.replies more = (fresh.run [(0, "SET k \x7b\"a\":1\x7d")]).replies more := by
  obtain ⟨reopened, hstart⟩ :=
    (isOk_iff_of_toOption_ite (start_upToDate (run_upToDate [(0, "SET k \x7b\"a\":1\x7d")]))).mpr
      (by decide +kernel)
  have hback := (Database.reread_eq_self_iff
    (fresh.run [(0, "SET k \x7b\"a\":1\x7d")]).database).mp (by decide +kernel)
  exact ⟨reopened, hstart, (restart_same_iff _ hstart).2.1.mpr hback⟩

/-! ### A number that its text changes -/

/-- The number `1.2e-30` is stored as a neighbour of the number it stands for, and the text of that
    neighbour is read as another one: a second session has another payload, and it refuses the value
    that the first one accepts. -/
theorem float_changed_by_restart :
    ∃ reopened, start (fresh.run [(0, "SET k \x7b\"x\":1.2e-30\x7d")]).backend = .ok reopened ∧
      reopened.database ≠ (fresh.run [(0, "SET k \x7b\"x\":1.2e-30\x7d")]).database ∧
      ((fresh.run [(0, "SET k \x7b\"x\":1.2e-30\x7d")]).replies
          [(0, "INDEX k x 1.2000000000000001e-30")]).map (·.map Reply.text) =
        [some "Index created."] ∧
      (reopened.replies [(0, "INDEX k x 1.2000000000000001e-30")]).map (·.map Reply.text) =
        [some "Error: Value mismatch: field 'x' is '1.2e-30', not '1.2000000000000001e-30'"] := by
  have hstart := start_upToDate (run_upToDate [(0, "SET k \x7b\"x\":1.2e-30\x7d")])
  rw [if_pos (by decide +kernel)] at hstart
  refine ⟨_, eq_ok_of_toOption hstart, ?_, ?_, ?_⟩
  · decide +kernel
  · decide +kernel
  · decide +kernel

end Session

end DocStore
