import DocStore.Proofs.Execution
import DocStore.Proofs.Lifetimes

/-!
# The store as its history

What a key holds after a run can be told from the lines of the run and their replies: the last document
that was stored under the key, unless it has been deleted since. Nothing else counts, and no time that
passes.

## Contents
- `Event`: a line that was executed; `Event.Succeeds`, `Event.Stores`, `Event.Spares`: what it does to a
  key.
- `Database.history`, `Database.after`: the events of a run and the database after it;
  `Database.after_append`, `Database.history_cut`: a run in two parts.
- `Database.Step.find?_of_spares`: **what spares a key leaves its record alone**.
- `exists_last`, `Database.last_event`: the last event of a kind.
- `Gone`, `LastStored`: what a history says of a key.
- `Database.get_answers_history`: **a GET after a run** is answered from its history.
-/

namespace DocStore

open Text.Utf8 (encode)

/-- A line that was executed: its time, its text and its reply. -/
structure Event where
  now : Millis
  line : String
  reply : Option Reply

namespace Event

/-- Whether an event is a command on a key that succeeded. -/
def Succeeds (event : Event) (command : Command) (key : String) : Prop :=
  (∃ reply ∈ event.reply, reply.isOk = true) ∧ ∃ rest, Names event.line command (key :: rest)

/-- Whether an event is a SET of a key that succeeded, with this payload and this lifetime. -/
def Stores (event : Event) (key : String) (payload : Payload) (ttl : Option Binary64) : Prop :=
  event.Succeeds .set key ∧ ∃ rest span, Names event.line .set (key :: rest) ∧
    PayloadSpan.find? rest = some span ∧
    Json.parseObject (encode span.json.toList) = .ok payload ∧ span.ttl = ttl

/-- Whether an event is neither a SET nor a DEL of a key that succeeded. -/
def Spares (event : Event) (key : String) : Prop :=
  ¬ event.Succeeds .set key ∧ ¬ event.Succeeds .del key

/-- The lifetime that was stored is a number. -/
theorem Stores.isNaN {event : Event} {key : String} {payload : Payload} {ttl : Option Binary64}
    (h : event.Stores key payload ttl) : ∀ x ∈ ttl, x.isNaN = false := by
  obtain ⟨-, rest, span, -, hspan, -, rfl⟩ := h
  exact PayloadSpan.isNaN_of_find? hspan

end Event

/-! ## Lines -/

namespace Database

variable {db : Database} {now : Millis} {line key : String}

/-- The event of a line that is executed at a time. -/
def event (db : Database) (now : Millis) (line : String) : Event :=
  ⟨now, line, (db.execute now line).1⟩

/-- A SET that succeeds has a document. -/
theorem stores_of_succeeds (h : (db.event now line).Succeeds .set key) :
    ∃ payload ttl, (db.event now line).Stores key payload ttl := by
  obtain ⟨⟨reply, hreply, hok⟩, rest, hnames⟩ := h
  have hline : Names line .set (key :: rest) := hnames
  have hanswer : reply ∈ (db.execute now line).1 := hreply
  rw [execute_of_names hline] at hanswer
  simp only [run, set] at hanswer
  cases hspan : PayloadSpan.find? rest with
  | none =>
      rw [hspan] at hanswer
      obtain rfl := Option.mem_some_iff.mp hanswer
      cases hok
  | some span =>
      rw [hspan] at hanswer
      cases hparsed : Json.parseObject (encode span.json.toList) with
      | error report =>
          simp only [hparsed] at hanswer
          obtain rfl := Option.mem_some_iff.mp hanswer
          cases hok
      | ok payload =>
          exact ⟨payload, span.ttl, ⟨⟨reply, hreply, hok⟩, rest, hnames⟩, rest, span, hnames, hspan,
            hparsed, rfl⟩

theorem find?_of_stored {payload : Payload} {ttl : Option Binary64}
    (h : (db.event now line).Stores key payload ttl) :
    (db.execute now line).2.find? key =
      some (Record.create payload (ttl.map Binary64.truncate) now) := by
  obtain ⟨-, rest, span, hnames, hspan, hparsed, rfl⟩ := h
  have hline : Names line .set (key :: rest) := hnames
  rw [execute_of_names hline]
  simp only [run, set, hspan, hparsed]
  show (db.documents.insert key _).find? key = _
  rw [KeyMap.find?_insert, if_pos rfl]

theorem find?_remove (db : Database) (key other : String) :
    (db.remove key).find? other = if other = key then none else db.find? other := by
  unfold remove
  split
  · exact KeyMap.find?_erase _ _ _
  · rename_i habsent
    split
    · rename_i hsame
      rw [hsame]
      exact Option.not_isSome_iff_eq_none.mp habsent
    · rfl

theorem find?_of_deleted (h : (db.event now line).Succeeds .del key) :
    (db.execute now line).2.find? key = none := by
  obtain ⟨-, rest, hnames⟩ := h
  have hline : Names line .del (key :: rest) := hnames
  rw [execute_of_names hline]
  simp only [run, del]
  cases hfound : db.find? key with
  | none => exact hfound
  | some record =>
      show (db.remove key).find? key = none
      rw [find?_remove, if_pos rfl]

/-- **What spares a key leaves its record alone**: a read, a command that failed, a blank line, a note in
    an index, a range, and whatever is done to another key. -/
theorem Step.find?_of_spares {reply : Option Reply} {next : Database} (h : Step db now line reply next)
    (hspares : Event.Spares ⟨now, line, reply⟩ key) : next.find? key = db.find? key := by
  obtain ⟨hset, hdel⟩ := hspares
  cases h with
  | keep _ => rfl
  | @store stored rest span payload hnames hspan hparsed =>
      show (db.documents.insert stored _).find? key = _
      rw [KeyMap.find?_insert]
      split
      · rename_i hsame
        subst hsame
        exact absurd ⟨⟨_, rfl, rfl⟩, rest, hnames⟩ hset
      · rfl
  | @drop dropped rest record hnames hfound =>
      rw [find?_remove]
      split
      · rename_i hsame
        subst hsame
        exact absurd ⟨⟨_, rfl, rfl⟩, rest, hnames⟩ hdel
      · rfl
  | note _ _ _ => rfl
  | scan _ _ _ => rfl

/-! ## Runs -/

/-- The database after the lines of a script. -/
def after (db : Database) : Script → Database
  | [] => db
  | (now, line) :: rest => (db.execute now line).2.after rest

/-- The events of a script. -/
def history (db : Database) : Script → List Event
  | [] => []
  | (now, line) :: rest => db.event now line :: (db.execute now line).2.history rest

/-- A run can be cut anywhere. -/
theorem after_append (first second : Script) :
    ∀ db : Database, db.after (first ++ second) = (db.after first).after second := by
  induction first with
  | nil => exact fun _ => rfl
  | cons entry rest ih =>
      obtain ⟨now, line⟩ := entry
      exact fun db => ih (db.execute now line).2

theorem after_concat (db : Database) (script : Script) (now : Millis) (line : String) :
    db.after (script ++ [(now, line)]) = ((db.after script).execute now line).2 := by
  rw [after_append]
  rfl

theorem history_concat (script : Script) (now : Millis) (line : String) :
    ∀ db : Database, db.history (script ++ [(now, line)]) =
      db.history script ++ [(db.after script).event now line] := by
  induction script with
  | nil => exact fun _ => rfl
  | cons entry rest ih =>
      obtain ⟨time, text⟩ := entry
      exact fun db => congrArg (db.event time text :: ·) (ih (db.execute time text).2)

/-- A run that spares a key leaves its record alone. -/
theorem find?_after_of_spares {script : Script}
    (h : ∀ event ∈ db.history script, event.Spares key) :
    (db.after script).find? key = db.find? key := by
  induction script generalizing db with
  | nil => rfl
  | cons entry rest ih =>
      obtain ⟨now, line⟩ := entry
      obtain ⟨hfirst, hrest⟩ := List.forall_mem_cons.mp h
      rw [after, ih hrest]
      exact (execute_step db now line).find?_of_spares hfirst

/-- A key without a record has none after a run that stores nothing under it. -/
theorem find?_after_of_absent {script : Script} (hnone : db.find? key = none)
    (h : ∀ event ∈ db.history script, ¬ event.Succeeds .set key) :
    (db.after script).find? key = none := by
  induction script generalizing db with
  | nil => exact hnone
  | cons entry rest ih =>
      obtain ⟨now, line⟩ := entry
      obtain ⟨hfirst, hrest⟩ := List.forall_mem_cons.mp h
      -- the line deletes the key or spares it, and the key has no record either way
      refine ih ?_ hrest
      by_cases hdel : (db.event now line).Succeeds .del key
      · exact find?_of_deleted hdel
      · rw [(execute_step db now line).find?_of_spares ⟨hfirst, hdel⟩]
        exact hnone

/-- Every SET that succeeds in a run has a document. -/
theorem stores_of_mem_history {script : Script} {event : Event} (h : event ∈ db.history script)
    (hset : event.Succeeds .set key) : ∃ payload ttl, event.Stores key payload ttl := by
  induction script generalizing db with
  | nil => exact absurd h List.not_mem_nil
  | cons entry rest ih =>
      obtain ⟨now, line⟩ := entry
      rcases List.mem_cons.mp h with rfl | h
      · exact stores_of_succeeds hset
      · exact ih h

/-- Where an event stands in the history of a script, the script can be cut. -/
theorem history_cut {script : Script} {before later : List Event} {event : Event}
    (h : db.history script = before ++ event :: later) :
    ∃ (first : Script) (now : Millis) (line : String) (rest : Script),
      script = first ++ (now, line) :: rest ∧ event = (db.after first).event now line ∧
        later = ((db.after first).execute now line).2.history rest := by
  induction before generalizing db script with
  | nil =>
      cases script with
      | nil => cases h
      | cons entry rest =>
          obtain ⟨now, line⟩ := entry
          obtain ⟨hevent, hlater⟩ := List.cons.inj h
          exact ⟨[], now, line, rest, rfl, hevent.symm, hlater.symm⟩
  | cons earlier before ih =>
      cases script with
      | nil => cases h
      | cons entry rest =>
          obtain ⟨now, line⟩ := entry
          obtain ⟨first, time, text, last, rfl, hcut⟩ := ih (List.cons.inj h).2
          exact ⟨(now, line) :: first, time, text, last, rfl, hcut⟩

/-- The database after a run that was cut at a line. -/
theorem after_cut (db : Database) (first : Script) (now : Millis) (line : String) (rest : Script) :
    db.after (first ++ (now, line) :: rest) = ((db.after first).execute now line).2.after rest := by
  rw [after_append]
  rfl

end Database

/-! ## What a history says of a key -/

/-- Of the events with a property there is a last one. -/
theorem exists_last {p : Event → Prop} {events : List Event} (h : ∃ event ∈ events, p event) :
    ∃ before event later, events = before ++ event :: later ∧ p event ∧ ∀ other ∈ later, ¬ p other := by
  induction events with
  | nil =>
      obtain ⟨event, hevent, -⟩ := h
      exact absurd hevent List.not_mem_nil
  | cons first rest ih =>
      -- the last one is among the later events, if there is any
      by_cases hlater : ∃ event ∈ rest, p event
      · obtain ⟨before, event, later, rfl, hlast⟩ := ih hlater
        exact ⟨first :: before, event, later, rfl, hlast⟩
      · obtain ⟨event, hevent, hp⟩ := h
        rcases List.mem_cons.mp hevent with rfl | hevent
        · exact ⟨[], event, rest, rfl, hp, fun other hother hp => hlater ⟨other, hother, hp⟩⟩
        · exact absurd ⟨event, hevent, hp⟩ hlater

/-- Whether nothing is left under a key: no SET of it ever succeeded, or a DEL of it succeeded and no SET
    did since. -/
def Gone (key : String) (events : List Event) : Prop :=
  (∀ event ∈ events, ¬ event.Succeeds .set key) ∨
    ∃ before event later, events = before ++ event :: later ∧ event.Succeeds .del key ∧
      ∀ other ∈ later, ¬ other.Succeeds .set key

/-- Whether the last SET of a key that succeeded was at this time, with this payload and this lifetime,
    and no DEL of the key succeeded since. -/
def LastStored (key : String) (events : List Event) (stored : Millis) (payload : Payload)
    (ttl : Option Binary64) : Prop :=
  ∃ before event later, events = before ++ event :: later ∧ event.now = stored ∧
    event.Stores key payload ttl ∧ ∀ other ∈ later, other.Spares key

/-- A history says one or the other. By induction on the events: what follows the first one decides,
    unless no SET of the key succeeded there. -/
theorem gone_or_lastStored {key : String} {events : List Event}
    (h : ∀ event ∈ events, event.Succeeds .set key → ∃ payload ttl, event.Stores key payload ttl) :
    Gone key events ∨ ∃ stored payload ttl, LastStored key events stored payload ttl := by
  induction events with
  | nil => exact Or.inl (Or.inl fun event hevent => absurd hevent List.not_mem_nil)
  | cons first rest ih =>
      obtain ⟨hfirst, hrest⟩ := List.forall_mem_cons.mp h
      rcases ih hrest with (hnever | ⟨before, event, later, rfl, hdel, hlater⟩) |
        ⟨stored, payload, ttl, before, event, later, rfl, hnow, hstores, hlater⟩
      · by_cases hset : first.Succeeds .set key
        · -- the first event is the last SET: it counts unless a DEL comes after it
          by_cases hdeleted : ∃ event ∈ rest, event.Succeeds .del key
          · obtain ⟨event, hevent, hdel⟩ := hdeleted
            obtain ⟨before, later, rfl⟩ := List.append_of_mem hevent
            refine Or.inl (Or.inr ⟨first :: before, event, later, rfl, hdel, ?_⟩)
            intro other hother
            exact hnever other (List.mem_append_right _ (List.mem_cons_of_mem _ hother))
          · obtain ⟨payload, ttl, hstores⟩ := hfirst hset
            refine Or.inr ⟨first.now, payload, ttl, [], first, rest, rfl, rfl, hstores, ?_⟩
            intro other hother
            exact ⟨hnever other hother, fun hdel => hdeleted ⟨other, hother, hdel⟩⟩
        · exact Or.inl (Or.inl (List.forall_mem_cons.mpr ⟨hset, hnever⟩))
      · exact Or.inl (Or.inr ⟨first :: before, event, later, rfl, hdel, hlater⟩)
      · exact Or.inr ⟨stored, payload, ttl, first :: before, event, later, rfl, hnow, hstores, hlater⟩

namespace Database

variable {db : Database} {now : Millis} {line key : String} {script : Script}

/-- A run with an event of some kind can be cut at the last one. -/
theorem last_event {p : Event → Prop} (script : Script) (db : Database)
    (h : ∃ event ∈ db.history script, p event) :
    ∃ before now line later, script = before ++ (now, line) :: later ∧
      p ((db.after before).event now line) ∧
      ∀ event ∈ ((db.after before).execute now line).2.history later, ¬ p event := by
  obtain ⟨before, event, later, hcut, hp, hlater⟩ := exists_last h
  obtain ⟨first, now, line, rest, rfl, rfl, rfl⟩ := history_cut hcut
  exact ⟨first, now, line, rest, rfl, hp, hlater⟩

theorem find?_of_gone (h : Gone key (empty.history script)) :
    (empty.after script).find? key = none := by
  rcases h with hnever | ⟨before, event, later, hcut, hdel, hlater⟩
  · exact find?_after_of_absent rfl hnever
  · obtain ⟨first, now, line, rest, rfl, rfl, rfl⟩ := history_cut hcut
    rw [after_cut]
    exact find?_after_of_absent (find?_of_deleted hdel) hlater

theorem find?_of_lastStored {stored : Millis} {payload : Payload} {ttl : Option Binary64}
    (h : LastStored key (db.history script) stored payload ttl) :
    (db.after script).find? key =
      some (Record.create payload (ttl.map Binary64.truncate) stored) := by
  obtain ⟨before, event, later, hcut, rfl, hstores, hlater⟩ := h
  obtain ⟨first, now, line, rest, rfl, rfl, rfl⟩ := history_cut hcut
  rw [after_cut, find?_after_of_spares hlater]
  exact find?_of_stored hstores

/-! ## Answers -/

/-- A line that asks for a key. -/
theorem names_get {key : String} (hne : key ≠ "") (hblank : ∀ c ∈ key.toList, Text.isBlank c = false) :
    Names ("GET " ++ key) .get [key] := by
  have hwords : Text.words ("GET".toList ++ ' ' :: key.toList) = ["GET".toList, key.toList] := by
    have hverb : ∀ c ∈ "GET".toList, Text.isBlank c = false := by simp [Text.isBlank]
    rw [Text.words_append_blank (by decide) hverb (by decide), Text.words_word _ hblank]
    intro hnil
    exact hne (String.toList_eq_nil_iff.mp hnil)
  have hline : String.ofList ("GET".toList ++ ' ' :: key.toList) = "GET " ++ key := by
    rw [← String.toList_inj, String.toList_ofList, String.toList_append]
    rfl
  have hnames : Names _ .get _ := names_of_words hwords (by decide)
  rw [hline] at hnames
  simpa using hnames

theorem execute_get {rest : List String} (h : Names line .get (key :: rest)) :
    (db.execute now line).1 = some ⟨some .get, match db.find? key with
      | none => .error (.keyNotFound key)
      | some record => .ok (if record.isExpired now then Texts.expiredNotice else record.pretty)⟩ := by
  rw [execute_of_names h]
  simp only [run, get]
  cases db.find? key with
  | none => rfl
  | some record =>
      by_cases hexpired : record.isExpired now = true
      · simp only [hexpired, if_true]
      · simp only [hexpired]
        rfl

/-- **A GET after a run** is answered from the history of the run. If nothing is left under the key, it
    is not found. Otherwise the last document that was stored under it is shown, or the notice if that
    document had a lifetime whose end has passed. What is neither a SET nor a DEL of the key that
    succeeded leaves the record of the key as it was, in every database and at any time. -/
theorem get_answers_history (script : Script) {key : String} (hne : key ≠ "")
    (hblank : ∀ c ∈ key.toList, Text.isBlank c = false) (now : Millis) :
    (Gone key (empty.history script) →
      ((empty.after script).execute now ("GET " ++ key)).1 =
        some ⟨some .get, .error (.keyNotFound key)⟩) ∧
    (∀ stored payload ttl, LastStored key (empty.history script) stored payload ttl →
      ((∃ x ∈ ttl, Millis.clamp (stored.toInt + x.lifetime) < now.toInt) →
        ((empty.after script).execute now ("GET " ++ key)).1 =
          some ⟨some .get, .ok Texts.expiredNotice⟩) ∧
      ((¬ ∃ x ∈ ttl, Millis.clamp (stored.toInt + x.lifetime) < now.toInt) →
        ((empty.after script).execute now ("GET " ++ key)).1 =
          some ⟨some .get, .ok (Json.object payload).pretty⟩)) ∧
    (Gone key (empty.history script) ∨
      ∃ stored payload ttl, LastStored key (empty.history script) stored payload ttl) ∧
    (∀ (db : Database) (time : Millis) (line : String), (db.event time line).Spares key →
      (db.execute time line).2.find? key = db.find? key) := by
  have hget := names_get hne hblank
  refine ⟨?_, ?_, gone_or_lastStored fun event hevent => stores_of_mem_history hevent, ?_⟩
  · intro hgone
    rw [execute_get hget, find?_of_gone hgone]
  · intro stored payload ttl hlast
    have hfound := find?_of_lastStored hlast
    obtain ⟨-, event, -, -, -, hstores, -⟩ := hlast
    have hexpired := Record.create_isExpired_iff payload stored now hstores.isNaN
    rw [execute_get hget, hfound, ← hexpired]
    constructor
    · intro hended
      dsimp only
      rw [if_pos hended]
    · intro hlasts
      dsimp only
      rw [if_neg hlasts]
      rfl
  · intro db time line hspares
    exact (execute_step db time line).find?_of_spares hspares

/-- A document with a lifetime of `5.9` that was stored at `1000` has expired at `1006`. -/
theorem get_answers_expired :
    "k" ≠ "" ∧ (∀ c ∈ "k".toList, Text.isBlank c = false) ∧
      ((empty.after [(1000, "SET k \x7b\"a\":1\x7d 5.9")]).execute 1006 ("GET " ++ "k")).1 =
        some ⟨some .get, .ok Texts.expiredNotice⟩ := by
  have hne : "k" ≠ "" := by decide
  have hblank : ∀ c ∈ "k".toList, Text.isBlank c = false := by simp [Text.isBlank]
  refine ⟨hne, hblank, ?_⟩
  have hnames : Names "SET k \x7b\"a\":1\x7d 5.9" .set ["k", "\x7b\"a\":1\x7d", "5.9"] :=
    ⟨⟨"SET", ["k", "\x7b\"a\":1\x7d", "5.9"]⟩, by decide +kernel, by decide, rfl⟩
  have hspan : PayloadSpan.find? ["\x7b\"a\":1\x7d", "5.9"] =
      some ⟨"\x7b\"a\":1\x7d", some ⟨false, 0x401799999999999a, by decide⟩⟩ := by decide +kernel
  have hsome : (Json.parseObject (encode "\x7b\"a\":1\x7d".toList)).toOption.isSome = true := by
    decide +kernel
  obtain ⟨payload, hparsed⟩ : ∃ payload,
      Json.parseObject (encode "\x7b\"a\":1\x7d".toList) = .ok payload := by
    cases hparsed : Json.parseObject (encode "\x7b\"a\":1\x7d".toList) with
    | error report =>
        rw [hparsed] at hsome
        cases hsome
    | ok payload => exact ⟨payload, rfl⟩
  have hok : ((empty.event 1000 "SET k \x7b\"a\":1\x7d 5.9").reply.any Reply.isOk) = true := by
    decide +kernel
  obtain ⟨reply, hreply, hok⟩ := (Option.any_eq_true _ _).mp hok
  have hlast : LastStored "k" (empty.history [(1000, "SET k \x7b\"a\":1\x7d 5.9")]) 1000 payload
      (some ⟨false, 0x401799999999999a, by decide⟩) := by
    refine ⟨[], _, [], rfl, rfl, ⟨⟨⟨reply, hreply, hok⟩, _, hnames⟩, ?_⟩, ?_⟩
    · exact ⟨_, _, hnames, hspan, hparsed, rfl⟩
    · intro other hother
      exact absurd hother List.not_mem_nil
  refine ((get_answers_history _ hne hblank 1006).2.1 _ _ _ hlast).1 ⟨_, rfl, ?_⟩
  rw [← Binary64.toInt_truncate rfl]
  decide +kernel

end Database

end DocStore
