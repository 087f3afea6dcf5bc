import DocStore.Proofs.Json.LongerSkips
import DocStore.Proofs.Storage.Snapshots
import DocStore.Session

/-!
# Torn snapshots

A snapshot is closed by its last byte. Whatever text is read as a snapshot stays one, for the same database,
only as long as nothing but white space is added, and the text of a database ends with its closing brace. So
no part of that text that breaks off before its end is read as a snapshot, wherever it breaks off.

## Contents
- `readRecord_settles`, `readSnapshot_settles`: records and **snapshots of longer texts**.
- `Database.decode_append`: what may be added to a snapshot.
- `Database.eq_encode_of_decode`: what is read of a text that breaks off is the whole of it.
- `Database.torn_snapshot`: **a torn snapshot is refused**, and so is a session on it.
-/

namespace DocStore

open Text (Bytes)
open Json.Reader

/-! ## Readers -/

namespace Snapshot

variable {α : Type}

/-- Two steps give a value if the first one does and the second one does after it. -/
theorem bind_eq_ok_iff {ε β : Type} {first : Except ε α} {next : α → Except ε β} {value : β} :
    first >>= next = .ok value ↔ ∃ x, first = .ok x ∧ next x = .ok value := by
  cases first with
  | error e => exact ⟨fun h => (nomatch h), fun ⟨_, h, _⟩ => (nomatch h)⟩
  | ok x => exact ⟨fun h => ⟨x, rfl, h⟩, fun ⟨_, hx, h⟩ => Except.ok.inj hx ▸ h⟩

variable {rounds later : Nat} (hrounds : rounds ≤ later)

include hrounds

theorem readPayload_settles (depth : Nat) :
    Settles (readPayload rounds depth) (readPayload later depth) :=
  mapping_settles (fun depth => value_continues hrounds depth) hrounds depth

theorem readSet_settles (depth : Nat) : Settles (readSet rounds depth) (readSet later depth) :=
  fun _ _ _ h more => map_append h fun _ hread =>
    sequence_settles text_settles.continues hrounds depth _ _ _ hread more

/-! ### Records -/

theorem recordField_continues (depth : Nat) (draft : RecordDraft) (key : String) :
    Continues (recordField rounds depth draft key) (recordField later depth draft key) := by
  intro s next rest h hrest more
  have hpayload := (readPayload_settles hrounds depth).continues
  have hset := (readSet_settles hrounds depth).continues
  unfold recordField at h ⊢
  by_cases hkey : key = "payload"
  · rw [if_pos hkey] at h ⊢
    exact map_field_append (fun part => { draft with payload := part }) hpayload h hrest more
  rw [if_neg hkey] at h ⊢
  by_cases hkey : key = "ttl_ms"
  · rw [if_pos hkey] at h ⊢
    exact map_field_append (fun part => { draft with ttl := part }) optional_int64_continues h hrest more
  rw [if_neg hkey] at h ⊢
  by_cases hkey : key = "expires_at"
  · rw [if_pos hkey] at h ⊢
    exact map_field_append (fun part => { draft with expiresAt := part }) optional_int64_continues h hrest
      more
  rw [if_neg hkey] at h ⊢
  by_cases hkey : key = "field_names"
  · rw [if_pos hkey] at h ⊢
    exact map_field_append (fun part => { draft with fieldNames := part }) hset h hrest more
  rw [if_neg hkey] at h ⊢
  by_cases hkey : key = "field_values"
  · rw [if_pos hkey] at h ⊢
    exact map_field_append (fun part => { draft with fieldValues := part }) hset h hrest more
  · rw [if_neg hkey] at h ⊢
    obtain ⟨after, hskip, hnext⟩ := eq_ok_of_map h
    cases hnext
    rw [unknownField_append hrounds hskip hrest]
    rfl

theorem recordFields_continues (depth : Nat) :
    Continues (recordFields rounds depth) (recordFields later depth) := by
  intro s record rest h _ more
  unfold recordFields at h
  split at h
  · cases h
  rename_i draft after hmembers
  rw [recordFields, members_append (recordField_continues hrounds depth) hrounds hmembers]
  split at h
  · cases h
  rename_i record hfinish
  cases h
  simp only [hfinish]

omit hrounds in
theorem recordPart_continues {item further : Bytes → Result α} (hitem : Continues item further)
    (position : Nat) : Continues (recordPart position item) (recordPart position further) := by
  intro s value rest h hrest more
  unfold recordPart at h
  split at h
  · cases h
  · cases h
  rename_i value after hpart
  cases h
  rw [recordPart, part_continues hitem _ _ _ _ hpart hrest]

omit hrounds in
/-- At the end of the text no part of an array follows. -/
theorem ne_nil_of_recordPart {item : Bytes → Result α} {position : Nat} {s : Bytes} {answer : α × Bytes}
    (h : recordPart position item s = .ok answer) : s ≠ [] := by
  rintro rfl
  cases h

theorem recordParts_continues (depth : Nat) :
    Continues (recordParts rounds depth) (recordParts later depth) := by
  intro s record rest h hrest more
  have hpayload := (readPayload_settles hrounds depth).continues
  have hset := (readSet_settles hrounds depth).continues
  unfold recordParts at h
  -- something is left behind each part, since another part is read from it
  obtain ⟨⟨payload, s₁⟩, h₁, h⟩ := bind_eq_ok_iff.mp h
  obtain ⟨⟨ttl, s₂⟩, h₂, h⟩ := bind_eq_ok_iff.mp h
  obtain ⟨⟨expiresAt, s₃⟩, h₃, h⟩ := bind_eq_ok_iff.mp h
  obtain ⟨⟨fieldNames, s₄⟩, h₄, h⟩ := bind_eq_ok_iff.mp h
  obtain ⟨⟨fieldValues, s₅⟩, h₅, h⟩ := bind_eq_ok_iff.mp h
  cases h
  unfold recordParts
  refine bind_eq_ok_iff.mpr
    ⟨_, recordPart_continues hpayload 0 _ _ _ h₁ (ne_nil_of_recordPart h₂) more, ?_⟩
  refine bind_eq_ok_iff.mpr
    ⟨_, recordPart_continues optional_int64_continues 1 _ _ _ h₂ (ne_nil_of_recordPart h₃) more, ?_⟩
  refine bind_eq_ok_iff.mpr
    ⟨_, recordPart_continues optional_int64_continues 2 _ _ _ h₃ (ne_nil_of_recordPart h₄) more, ?_⟩
  refine bind_eq_ok_iff.mpr
    ⟨_, recordPart_continues hset 3 _ _ _ h₄ (ne_nil_of_recordPart h₅) more, ?_⟩
  exact bind_eq_ok_iff.mpr ⟨_, recordPart_continues hset 4 _ _ _ h₅ hrest more, rfl⟩

theorem readRecord_settles (depth : Nat) :
    Settles (readRecord rounds depth) (readRecord later depth) :=
  opened_settles (recordParts_continues hrounds) (recordFields_continues hrounds) "Record" depth

/-! ### Tables -/

theorem readDocuments_settles (depth : Nat) :
    Settles (readDocuments rounds depth) (readDocuments later depth) :=
  mapping_settles (fun depth => (readRecord_settles hrounds depth).continues) hrounds depth

theorem readIndices_settles (depth : Nat) :
    Settles (readIndices rounds depth) (readIndices later depth) :=
  mapping_settles (fun depth => (readPayload_settles hrounds depth).continues) hrounds depth

theorem snapshotField_continues (depth : Nat) (draft : Draft) (key : String) :
    Continues (snapshotField rounds depth draft key) (snapshotField later depth draft key) := by
  intro s next rest h hrest more
  unfold snapshotField at h ⊢
  by_cases hkey : key = "documents"
  · rw [if_pos hkey] at h ⊢
    exact map_field_append (fun part => { draft with documents := part })
      (readDocuments_settles hrounds depth).continues h hrest more
  rw [if_neg hkey] at h ⊢
  by_cases hkey : key = "indices"
  · rw [if_pos hkey] at h ⊢
    exact map_field_append (fun part => { draft with indices := part })
      (readIndices_settles hrounds depth).continues h hrest more
  · rw [if_neg hkey] at h ⊢
    obtain ⟨after, hskip, hnext⟩ := eq_ok_of_map h
    cases hnext
    rw [unknownField_append hrounds hskip hrest]
    rfl

theorem snapshotFields_continues (depth : Nat) :
    Continues (snapshotFields rounds depth) (snapshotFields later depth) :=
  fun _ _ _ h _ more => map_append h fun _ hread =>
    members_append (snapshotField_continues hrounds depth) hrounds hread more

theorem snapshotParts_continues (depth : Nat) :
    Continues (snapshotParts rounds depth) (snapshotParts later depth) := by
  intro s db rest h hrest more
  unfold snapshotParts at h
  obtain ⟨⟨documents, s₁⟩, h₁, h⟩ := bind_eq_ok_iff.mp h
  obtain ⟨⟨indices, s₂⟩, h₂, h⟩ := bind_eq_ok_iff.mp h
  cases h
  have hs₁ : s₁ ≠ [] := by
    rintro rfl
    cases h₂
  have hdocuments := (readDocuments_settles hrounds depth).continues
  have hindices := (readIndices_settles hrounds depth).continues
  unfold snapshotParts
  refine bind_eq_ok_iff.mpr ⟨_, part_continues hdocuments true _ _ _ h₁ hs₁ more, ?_⟩
  exact bind_eq_ok_iff.mpr ⟨_, part_continues hindices documents.isNone _ _ _ h₂ hrest more, rfl⟩

/-- **A snapshot stands in every longer text.** -/
theorem readSnapshot_settles (depth : Nat) :
    Settles (readSnapshot rounds depth) (readSnapshot later depth) :=
  opened_settles (snapshotParts_continues hrounds) (snapshotFields_continues hrounds) "Snapshot" depth

end Snapshot

/-! ## Torn texts -/

namespace Database

/-- What may be added to a snapshot: the longer text is a snapshot, and of the same database, exactly if
    nothing but white space was added. -/
theorem decode_append {text : Bytes} {db : Database} (h : decode text = .ok db) (more : Bytes)
    (other : Database) : decode (text ++ more) = .ok other ↔ Gap more ∧ other = db := by
  obtain ⟨rest, hread, hrest⟩ := rest_of_parseWith h
  have hlength : text.length + 1 ≤ (text ++ more).length + 1 := by
    rw [List.length_append]
    omega
  have hlater := Snapshot.readSnapshot_settles hlength _ _ _ _ hread more
  have hgap : Gap rest := isBlank_of_skipBlanks_eq_nil hrest
  simp only [decode, parseWith, hlater, skipBlanks_gap hgap]
  cases hmore : skipBlanks more with
  | nil =>
      have hblank : Gap more := isBlank_of_skipBlanks_eq_nil hmore
      exact ⟨fun h => ⟨hblank, (Except.ok.inj h).symm⟩, fun h => h.2 ▸ rfl⟩
  | cons b behind =>
      refine ⟨fun h => (nomatch h), fun ⟨hblank, _⟩ => ?_⟩
      rw [← List.append_nil more, skipBlanks_gap hblank] at hmore
      cases hmore

/-- Nothing is left behind the text of a database. -/
theorem rest_of_encode {db other : Database} {rounds : Nat} {rest : Bytes}
    (hrounds : db.encode.length ≤ rounds)
    (h : Snapshot.readSnapshot rounds maxDepth db.encode = .ok (other, rest)) : rest = [] := by
  have hreads : Reads (Snapshot.readSnapshot rounds maxDepth) db.encode
      (if Snapshot.Readable db then some db.reread else none) := Snapshot.reads_snapshot db hrounds
  have hread := hreads.read [] [] gap_nil delimited_nil
  rw [List.nil_append, List.append_nil, h] at hread
  obtain ⟨back, -, hback⟩ := Option.map_eq_some_iff.mp hread.symm
  exact (Prod.mk.inj hback).2.symm

/-- Of the texts that the text of a database starts with, no other one is a snapshot: the whole text would
    be read up to the place where that one ends, but nothing is left behind a snapshot. -/
theorem eq_encode_of_decode {db other : Database} {part : Bytes} (hcut : part <+: db.encode)
    (hdecode : decode part = .ok other) : part = db.encode := by
  obtain ⟨more, hmore⟩ := hcut
  obtain ⟨rest, hread, -⟩ := rest_of_parseWith hdecode
  have hlength : part.length + 1 ≤ db.encode.length + 1 := by
    rw [← hmore, List.length_append]
    omega
  have hlater := Snapshot.readSnapshot_settles hlength _ _ _ _ hread more
  rw [hmore] at hlater
  have hnil := rest_of_encode (Nat.le_succ _) hlater
  rw [← hmore, (List.append_eq_nil_iff.mp hnil).2, List.append_nil]

/-- No session is started on a text that is no snapshot. -/
theorem start_of_decode_error {part : Bytes} {report : Json.Report} (h : decode part = .error report) :
    (∀ saves, Session.start (Memory.mk (some part) saves) = .error (.serialization report)) ∧
      ∀ disk : Disk, disk.tree.read disk.path = .ok part →
        Session.start disk = .error (.serialization report) := by
  have hload : loadContent (some part) = .error (.serialization report) := by
    simp only [loadContent, h]
  constructor
  · intro saves
    simp only [Session.start, Backend.load, hload]
  · intro disk hdisk
    simp only [Session.start, Backend.load, hdisk, loadFile, hload]

/-- **A torn snapshot is refused.** Of the texts that the text of a database starts with, none but the whole
    is read as a snapshot, and the whole is unless a value nests too deep. A session is started neither on a
    memory nor on a file that holds one of the others. -/
theorem torn_snapshot (db : Database) {part : Bytes} (hcut : part <+: db.encode) :
    ((decode part).toOption.isSome = true ↔ part = db.encode ∧ ∀ v ∈ db.values, v.depth ≤ 124) ∧
    (part ≠ db.encode → ∃ report, decode part = .error report ∧
      (∀ saves, Session.start (Memory.mk (some part) saves) = .error (.serialization report)) ∧
      ∀ disk : Disk, disk.tree.read disk.path = .ok part →
        Session.start disk = .error (.serialization report)) := by
  have hwhole : (decode db.encode).toOption.isSome = true ↔ ∀ v ∈ db.values, v.depth ≤ 124 := by
    rw [decode_encode]
    split
    · rename_i hshallow
      exact ⟨fun _ => hshallow, fun _ => rfl⟩
    · rename_i hdeep
      exact ⟨fun h => absurd h Bool.false_ne_true, fun h => absurd h hdeep⟩
  cases hdecode : decode part with
  | ok other =>
      have hpart := eq_encode_of_decode hcut hdecode
      rw [← hpart, hdecode] at hwhole
      exact ⟨⟨fun h => ⟨hpart, hwhole.mp h⟩, fun _ => rfl⟩, fun hstrict => absurd hpart hstrict⟩
  | error report =>
      refine ⟨⟨fun h => absurd h Bool.false_ne_true, ?_⟩,
        fun _ => ⟨report, rfl, start_of_decode_error hdecode⟩⟩
      rintro ⟨rfl, hshallow⟩
      rw [hdecode] at hwhole
      exact hwhole.mpr hshallow

/-- A text that breaks off between the two bytes of a character in a key. -/
theorem torn_snapshot_within_character :
    let db : Database := ⟨KeyMap.empty, KeyMap.ofList [("é", KeyMap.empty)]⟩
    let part := db.encode.take 42
    part <+: db.encode ∧ part ≠ db.encode ∧ part.getLast? = some 0xC3 ∧
      ∃ report, decode part = .error report ∧
        Session.start (Memory.mk (some part) 0) = .error (.serialization report) := by
  intro db part
  have hcut : part <+: db.encode := List.take_prefix _ _
  have hstrict : part ≠ db.encode := by decide +kernel
  obtain ⟨report, hdecode, hmemory, -⟩ := (torn_snapshot db hcut).2 hstrict
  exact ⟨hcut, hstrict, by decide +kernel, report, hdecode, hmemory 0⟩

end Database

end DocStore
