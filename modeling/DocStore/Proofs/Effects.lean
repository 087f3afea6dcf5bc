import DocStore.Proofs.History

/-!
# The effect of a line

A line changes at most one document and at most one bucket, and both are named by its arguments. A line
that is blank, a read, or a command that fails changes nothing at all. This holds in every database,
whether or not its buckets have anything to do with its documents.

## Contents
- `KeyMap.AgreesExcept`: maps that differ at one key at most.
- `Names.unique`: a line names one command.
- `Event.Ran`, `Event.Scans`: a command that succeeded, with its arguments.
- `Database.step_of_ran`: the step of a command that may change the database and succeeded.
- `Database.insert_effect`, `Database.replaceBucket_effect`: where a document or a bucket is put, and what
  is left alone.
- `Database.effect_set`, `effect_del`, `effect_index`, `effect_range`: what each of them changes.
- `Database.execute_effect`: **the effect of a line**.
-/

namespace DocStore

/-! ## Maps that differ at one key -/

namespace KeyMap

variable {α : Type} {m : KeyMap α} {key : String}

/-- Whether two maps have the same at every key but one. -/
def AgreesExcept (key : String) (a b : KeyMap α) : Prop :=
  ∀ other, other ≠ key → a.find? other = b.find? other

theorem agreesExcept_insert (m : KeyMap α) (key : String) (value : α) :
    (m.insert key value).AgreesExcept key m := by
  intro other hother
  rw [find?_insert, if_neg hother]

theorem agreesExcept_erase (m : KeyMap α) (key : String) : (m.erase key).AgreesExcept key m := by
  intro other hother
  rw [find?_erase, if_neg hother]

theorem find?_insert_self (m : KeyMap α) (key : String) (value : α) :
    (m.insert key value).find? key = some value := by
  rw [find?_insert, if_pos rfl]

theorem find?_erase_self (m : KeyMap α) (key : String) : (m.erase key).find? key = none := by
  rw [find?_erase, if_pos rfl]

/-- A map in which something is found is not empty. -/
theorem isEmpty_of_find? {value : α} (h : m.find? key = some value) : m.isEmpty = false := by
  have hmem := (m.mem_entries_iff key value).mpr h
  unfold isEmpty
  cases hentries : m.entries with
  | nil =>
      rw [hentries] at hmem
      exact absurd hmem List.not_mem_nil
  | cons head rest => rfl

end KeyMap

/-! ## Commands that succeeded -/

/-- A line names one command with one list of arguments. -/
theorem Names.unique {line : String} {command other : Command} {args others : List String}
    (h : Names line command args) (h' : Names line other others) :
    command = other ∧ args = others := by
  obtain ⟨parsed, hparse, hlookup, rfl⟩ := h
  obtain ⟨parsed', hparse', hlookup', rfl⟩ := h'
  obtain rfl := Option.some.inj (hparse.symm.trans hparse')
  exact ⟨Option.some.inj (hlookup.symm.trans hlookup'), rfl⟩

namespace Reply

/-- A reply reports a change exactly when it is the success of a command other than a GET. -/
theorem mutated_iff (reply : Reply) :
    reply.mutated = true ↔
      ∃ command text, command ≠ .get ∧ reply = ⟨some command, .ok text⟩ := by
  obtain ⟨command, result⟩ := reply
  cases result with
  | error error => simp [mutated, isOk]
  | ok text =>
      cases command with
      | none => simp [mutated]
      | some command => cases command <;> simp [mutated, isOk, Command.isWrite]

end Reply

namespace Event

/-- Whether an event is a command with these arguments that succeeded. -/
def Ran (event : Event) (command : Command) (args : List String) : Prop :=
  (∃ reply ∈ event.reply, reply.isOk = true) ∧ Names event.line command args

/-- Whether an event is a RANGE over a field between two numbers that succeeded. -/
def Scans (event : Event) (field : String) (low high : Binary64) : Prop :=
  ∃ rest, event.Ran .range (field :: rest) ∧
    Decimal.parseNumber ((rest[0]?).getD "").toList = some low ∧
    Decimal.parseNumber ((rest[1]?).getD "").toList = some high

end Event

namespace Database

variable {db : Database} {now : Millis} {line : String}

/-- The reply to a command names the command. -/
theorem command_of_names {command : Command} {args : List String} (h : Names line command args) :
    ∃ result, (db.execute now line).1 = some ⟨some command, result⟩ := by
  rw [execute_of_names h]
  cases db.run now command args with
  | error error => exact ⟨_, rfl⟩
  | ok answer => exact ⟨_, rfl⟩

/-- The step of a command that succeeded: its reply reports so. -/
theorem step_of_ran {command : Command} {args : List String}
    (h : (db.event now line).Ran command args) :
    ∃ text, Step db now line (some ⟨some command, .ok text⟩) (db.execute now line).2 := by
  obtain ⟨⟨reply, hreply, hok⟩, hnames⟩ := h
  have hline : Names line command args := hnames
  obtain ⟨result, hresult⟩ : ∃ result, (db.execute now line).1 = some ⟨some command, result⟩ :=
    command_of_names hline
  have hanswer : (db.execute now line).1 = some reply := hreply
  have hstep := db.execute_step now line
  -- the one reply is a success of the command that the line names
  obtain rfl : reply = ⟨some command, result⟩ := Option.some.inj (hanswer.symm.trans hresult)
  cases result with
  | error error => cases hok
  | ok text =>
      rw [hresult] at hstep
      exact ⟨text, hstep⟩

/-! ## What each command changes -/

/-- A document that was stored is found under its key, and nothing else has changed. -/
theorem insert_effect (db : Database) (key : String) (record : Record) :
    (db.insert key record).indices = db.indices ∧
      (db.insert key record).documents.AgreesExcept key db.documents ∧
      (db.insert key record).find? key = some record :=
  ⟨rfl, KeyMap.agreesExcept_insert _ _ _, KeyMap.find?_insert_self _ _ _⟩

/-- A bucket that was put in place is found under its name, and nothing else has changed. -/
theorem replaceBucket_effect (db : Database) (name : String) (bucket : Bucket) :
    (db.replaceBucket name bucket).documents = db.documents ∧
      (db.replaceBucket name bucket).indices.AgreesExcept name db.indices ∧
      (db.replaceBucket name bucket).bucket? name = some bucket :=
  ⟨rfl, KeyMap.agreesExcept_insert _ _ _, KeyMap.find?_insert_self _ _ _⟩

/-- A SET that succeeded changes the document of its key. -/
theorem effect_set {key : String} {rest : List String}
    (h : (db.event now line).Ran .set (key :: rest)) :
    (db.execute now line).2.indices = db.indices ∧
      (db.execute now line).2.documents.AgreesExcept key db.documents ∧
      ∃ payload ttl, (db.event now line).Stores key payload ttl ∧
        (db.execute now line).2.find? key =
          some (Record.create payload (ttl.map Binary64.truncate) now) := by
  obtain ⟨text, hstep⟩ := step_of_ran h
  have hsucceeds : (db.event now line).Succeeds .set key := ⟨h.1, rest, h.2⟩
  obtain ⟨payload, ttl, hstores⟩ := stores_of_succeeds hsucceeds
  have hfound := find?_of_stored hstores
  generalize (db.execute now line).2 = next at hstep hfound
  cases hstep with
  | keep quiet => exact absurd (quiet _ rfl) Bool.noConfusion
  | @store stored _ _ _ names _ _ =>
      obtain ⟨-, hargs⟩ := names.unique h.2
      obtain ⟨rfl, -⟩ := List.cons.inj hargs
      obtain ⟨hindices, hframe, -⟩ := insert_effect db stored (Record.create _ _ now)
      exact ⟨hindices, hframe, payload, ttl, hstores, hfound⟩

theorem remove_of_found {key : String} {record : Record} (h : db.find? key = some record) :
    db.remove key = ⟨db.documents.erase key, db.indices.erase key⟩ := by
  have hcontains : db.documents.contains key = true := by
    unfold KeyMap.contains
    rw [show db.documents.find? key = some record from h]
    rfl
  rw [remove, if_pos hcontains]

/-- A DEL that succeeded removes the document of its key and the bucket of that name. -/
theorem effect_del {key : String} {rest : List String}
    (h : (db.event now line).Ran .del (key :: rest)) :
    (∃ record, db.find? key = some record) ∧
      (db.execute now line).2.find? key = none ∧
      (db.execute now line).2.documents.AgreesExcept key db.documents ∧
      (db.execute now line).2.bucket? key = none ∧
      (db.execute now line).2.indices.AgreesExcept key db.indices := by
  obtain ⟨text, hstep⟩ := step_of_ran h
  generalize (db.execute now line).2 = next at hstep
  cases hstep with
  | keep quiet => exact absurd (quiet _ rfl) Bool.noConfusion
  | @drop dropped _ record names found =>
      obtain ⟨-, hargs⟩ := names.unique h.2
      obtain ⟨rfl, -⟩ := List.cons.inj hargs
      rw [remove_of_found found]
      refine ⟨⟨record, found⟩, KeyMap.find?_erase_self _ _, KeyMap.agreesExcept_erase _ _, ?_, ?_⟩
      · exact KeyMap.find?_erase_self _ _
      · exact KeyMap.agreesExcept_erase _ _

/-- An INDEX that succeeded changes one entry of the bucket of its base. A bucket that is not there
    counts as empty. -/
theorem effect_index {base field value : String} {rest : List String}
    (h : (db.event now line).Ran .index (base :: field :: value :: rest)) :
    (db.execute now line).2.documents = db.documents ∧
      (db.execute now line).2.indices.AgreesExcept base db.indices ∧
      ∃ bucket, (db.execute now line).2.bucket? base = some bucket ∧
        bucket.find? field = some (Json.string value) ∧
        bucket.AgreesExcept field ((db.bucket? base).getD KeyMap.empty) := by
  obtain ⟨text, hstep⟩ := step_of_ran h
  generalize (db.execute now line).2 = next at hstep
  cases hstep with
  | keep quiet => exact absurd (quiet _ rfl) Bool.noConfusion
  | note names _ _ =>
      obtain ⟨-, hargs⟩ := names.unique h.2
      simp only [List.cons.injEq] at hargs
      obtain ⟨rfl, rfl, rfl, -⟩ := hargs
      refine ⟨rfl, KeyMap.agreesExcept_insert _ _ _, _, KeyMap.find?_insert_self _ _ _, ?_, ?_⟩
      · exact KeyMap.find?_insert_self _ _ _
      · exact KeyMap.agreesExcept_insert _ _ _

/-- A RANGE that succeeded puts its matches in the place of the bucket of its name. -/
theorem effect_range {field : String} {low high : Binary64}
    (h : (db.event now line).Scans field low high) :
    (db.execute now line).2.documents = db.documents ∧
      (db.execute now line).2.indices.AgreesExcept (rangeBucketName field low high) db.indices ∧
      (db.execute now line).2.bucket? (rangeBucketName field low high) =
        some ((db.rangeScan field low high).map Json.object) := by
  obtain ⟨rest, hran, hlow, hhigh⟩ := h
  obtain ⟨text, hstep⟩ := step_of_ran hran
  generalize (db.execute now line).2 = next at hstep
  cases hstep with
  | keep quiet => exact absurd (quiet _ rfl) Bool.noConfusion
  | scan names lower upper =>
      obtain ⟨-, hargs⟩ := names.unique hran.2
      obtain ⟨rfl, rfl⟩ := List.cons.inj hargs
      obtain rfl := Option.some.inj (lower.symm.trans hlow)
      obtain rfl := Option.some.inj (upper.symm.trans hhigh)
      exact replaceBucket_effect db _ _

/-! ## The effect of a line -/

/-- A reply that reports a change belongs to one of four commands, with all the arguments that it
    needs. -/
theorem ran_of_mutated {reply : Reply} (h : (db.execute now line).1 = some reply)
    (hmutated : reply.mutated = true) :
    (∃ key rest, (db.event now line).Ran .set (key :: rest)) ∨
      (∃ key rest, (db.event now line).Ran .del (key :: rest)) ∨
      (∃ base field value rest, (db.event now line).Ran .index (base :: field :: value :: rest)) ∨
      ∃ field low high, (db.event now line).Scans field low high := by
  have hok : reply.isOk = true := (Bool.and_eq_true _ _ ▸ hmutated).1
  have hreply : ∃ r ∈ (db.event now line).reply, r.isOk = true := ⟨reply, h, hok⟩
  have hstep := db.execute_step now line
  rw [h] at hstep
  generalize (db.execute now line).2 = next at hstep
  cases hstep with
  | keep quiet => exact absurd hmutated (by rw [quiet _ rfl]; exact Bool.noConfusion)
  | store names _ _ => exact Or.inl ⟨_, _, hreply, names⟩
  | drop names _ => exact Or.inr (Or.inl ⟨_, _, hreply, names⟩)
  | note names _ _ => exact Or.inr (Or.inr (Or.inl ⟨_, _, _, _, hreply, names⟩))
  | scan names lower upper =>
      exact Or.inr (Or.inr (Or.inr ⟨_, _, _, _, ⟨hreply, names⟩, lower, upper⟩))

/-- **The effect of a line**, in any database and at any time.
    - A blank line, a command that fails and a GET leave the database as it is.
    - A SET of a key changes the document of the key, which becomes the one on the line.
    - A DEL of a key removes its document, and the bucket of that name if there is one.
    - An INDEX changes one entry of one bucket, which becomes the string on the line.
    - A RANGE changes one bucket, which becomes the matches.
    Each of the last four leaves all other documents, buckets and entries as they are, and no other
    reply reports a change. -/
theorem execute_effect (db : Database) (now : Millis) (line : String) :
    ((∀ reply ∈ (db.execute now line).1, reply.isOk = true → reply.command = some .get) →
      (db.execute now line).2 = db) ∧
    (∀ key rest, (db.event now line).Ran .set (key :: rest) →
      (db.execute now line).2.indices = db.indices ∧
      (db.execute now line).2.documents.AgreesExcept key db.documents ∧
      ∃ payload ttl, (db.event now line).Stores key payload ttl ∧
        (db.execute now line).2.find? key =
          some (Record.create payload (ttl.map Binary64.truncate) now)) ∧
    (∀ key rest, (db.event now line).Ran .del (key :: rest) →
      (∃ record, db.find? key = some record) ∧
      (db.execute now line).2.find? key = none ∧
      (db.execute now line).2.documents.AgreesExcept key db.documents ∧
      (db.execute now line).2.bucket? key = none ∧
      (db.execute now line).2.indices.AgreesExcept key db.indices) ∧
    (∀ base field value rest, (db.event now line).Ran .index (base :: field :: value :: rest) →
      (db.execute now line).2.documents = db.documents ∧
      (db.execute now line).2.indices.AgreesExcept base db.indices ∧
      ∃ bucket, (db.execute now line).2.bucket? base = some bucket ∧
        bucket.find? field = some (Json.string value) ∧
        bucket.AgreesExcept field ((db.bucket? base).getD KeyMap.empty)) ∧
    (∀ field low high, (db.event now line).Scans field low high →
      (db.execute now line).2.documents = db.documents ∧
      (db.execute now line).2.indices.AgreesExcept (rangeBucketName field low high) db.indices ∧
      (db.execute now line).2.bucket? (rangeBucketName field low high) =
        some ((db.rangeScan field low high).map Json.object)) ∧
    (∀ reply ∈ (db.execute now line).1, reply.mutated = true →
      (∃ key rest, (db.event now line).Ran .set (key :: rest)) ∨
      (∃ key rest, (db.event now line).Ran .del (key :: rest)) ∨
      (∃ base field value rest, (db.event now line).Ran .index (base :: field :: value :: rest)) ∨
      ∃ field low high, (db.event now line).Scans field low high) ∧
    ((db.execute now line).2 ≠ db → ∃ reply ∈ (db.execute now line).1, reply.mutated = true) := by
  have hquiet : (∀ reply ∈ (db.execute now line).1, reply.mutated = false) →
      (db.execute now line).2 = db := (db.execute_step now line).eq_of_quiet
  refine ⟨?_, fun _ _ => effect_set, fun _ _ => effect_del, fun _ _ _ _ => effect_index,
    fun _ _ _ => effect_range, fun _ => ran_of_mutated, ?_⟩
  · intro hreads
    apply hquiet
    intro reply hreply
    by_contra hmutated
    obtain ⟨command, text, hwrite, rfl⟩ :=
      (Reply.mutated_iff reply).mp (Bool.eq_true_of_not_eq_false hmutated)
    exact hwrite (Option.some.inj (hreads _ hreply rfl))
  · intro hchanged
    by_contra hnone
    apply hchanged
    apply hquiet
    intro reply hreply
    by_contra hmutated
    exact hnone ⟨reply, hreply, Bool.eq_true_of_not_eq_false hmutated⟩

end Database

end DocStore
