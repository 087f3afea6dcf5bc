import DocStore.Proofs.Storage.SnapshotParts

/-!
# Loading what was saved

The text of a database is read as the database whose numbers have been read again, or it is refused. The
three brackets that enclose a payload, and the two that enclose an index entry, come off the number of
brackets that may be open at once.

## Contents
- `Record.reread`, `Database.reread`: what becomes of a record and of a database.
- `Database.values`: the values that a database holds.
- `reads_payload`, `reads_record`, `reads_snapshot`: the readers on what was written.
- `decode_encode`: **what is loaded** after a save.
- `decode_encode_eq_self_iff`: **when it is the same**.
-/

namespace DocStore

open Text (Bytes)
open Text.Utf8 (encode)
open Json.Reader

/-! ## What becomes of a database -/

/-- The values of a map, read again. -/
def rereadValues (m : KeyMap Json) : KeyMap Json :=
  m.map Json.reread

/-- The record with its payload read again. Everything else is read back as it was. -/
def Record.reread (record : Record) : Record :=
  { record with payload := rereadValues record.payload }

theorem rereadValues_eq_self_iff (m : KeyMap Json) :
    rereadValues m = m ↔ ∀ entry ∈ m.entries, entry.2.ReadsBack := by
  rw [rereadValues, KeyMap.map_eq_self_iff]
  refine forall_congr' fun entry => imp_congr_right ?_
  intro _
  exact Json.reread_eq_self_iff entry.2

theorem Record.reread_eq_self_iff (record : Record) :
    record.reread = record ↔ (Json.object record.payload).ReadsBack := by
  rw [← Json.reread_eq_self_iff, Json.reread, Json.mapNumbers_object, Json.object_inj]
  constructor
  · intro h
    exact congrArg Record.payload h
  · intro h
    have hvalues : rereadValues record.payload = record.payload := h
    rw [Record.reread, hvalues]

namespace Database

/-- The database with its values read again. -/
def reread (db : Database) : Database :=
  ⟨db.documents.map Record.reread, db.indices.map rereadValues⟩

/-- The values that a database holds: the payloads of its records, and the values of the entries in its
    buckets. -/
def values (db : Database) : List Json :=
  db.documents.values.map (fun record => Json.object record.payload) ++
    db.indices.values.flatMap KeyMap.values

end Database

/-! ## Readers -/

namespace Snapshot

variable {rounds level : Nat} (depth : Nat)

/-- The members of an object are read as long as the object does not nest too deep. -/
theorem reads_payload (payload : Payload)
    (hlength : (prettyBytes level (Json.object payload).tree).length ≤ rounds) :
    Reads (readPayload rounds (depth + 1)) (prettyBytes level (Json.object payload).tree)
      (if (Json.object payload).depth ≤ depth + 1 then some (rereadValues payload) else none) := by
  have hread := reads_treeWith depth (fun depth => value rounds depth) Json.tree
    (p := fun v : Json => v.depth ≤ depth) (f := Json.reread) (m := payload) hlength
    fun entry _ hentry => reads_value rounds entry.2 (level + 1) depth hentry
  simp only [← Json.depth_object_le] at hread
  exact hread

/-! ### Records -/

/-- What a field makes of the draft of a record. -/
theorem recordField_payload (draft : RecordDraft) (s : Bytes) :
    recordField rounds depth draft "payload" s =
      (field "payload" draft.payload (readPayload rounds depth) s).map
        fun (part, s) => ({ draft with payload := part }, s) := if_pos rfl

theorem recordField_ttl (draft : RecordDraft) (s : Bytes) :
    recordField rounds depth draft "ttl_ms" s =
      (field "ttl_ms" draft.ttl (optional int64) s).map
        fun (part, s) => ({ draft with ttl := part }, s) := by
  rw [recordField, if_neg (by decide), if_pos rfl]

theorem recordField_expiresAt (draft : RecordDraft) (s : Bytes) :
    recordField rounds depth draft "expires_at" s =
      (field "expires_at" draft.expiresAt (optional int64) s).map
        fun (part, s) => ({ draft with expiresAt := part }, s) := by
  rw [recordField, if_neg (by decide), if_neg (by decide), if_pos rfl]

theorem recordField_fieldNames (draft : RecordDraft) (s : Bytes) :
    recordField rounds depth draft "field_names" s =
      (field "field_names" draft.fieldNames (readSet rounds depth) s).map
        fun (part, s) => ({ draft with fieldNames := part }, s) := by
  rw [recordField, if_neg (by decide), if_neg (by decide), if_neg (by decide), if_pos rfl]

theorem recordField_fieldValues (draft : RecordDraft) (s : Bytes) :
    recordField rounds depth draft "field_values" s =
      (field "field_values" draft.fieldValues (readSet rounds depth) s).map
        fun (part, s) => ({ draft with fieldValues := part }, s) := by
  rw [recordField, if_neg (by decide), if_neg (by decide), if_neg (by decide), if_neg (by decide),
    if_pos rfl]

/-- The members of a record as they are written. -/
def recordMembers (record : Record) : List (String × Tree) :=
  [("payload", (Json.object record.payload).tree), ("ttl_ms", Millis.tree? record.ttl),
    ("expires_at", Millis.tree? record.expiresAt), ("field_names", record.fieldNames.tree),
    ("field_values", record.fieldValues.tree)]

/-- **A record** is read unless its payload nests too deep: its fields are taken one by one, and only
    the first can be refused. -/
theorem reads_record (record : Record) (hlength : (prettyBytes level record.tree).length ≤ rounds) :
    Reads (readRecord rounds (depth + 2)) (prettyBytes level record.tree)
      (if (Json.object record.payload).depth ≤ depth + 1 then some record.reread else none) := by
  obtain ⟨margin, hmargin, htext⟩ := prettyBytes_object level (recordMembers record)
  rw [show record.tree = .object (recordMembers record) from rfl, htext] at hlength ⊢
  have hcount : 5 < rounds := count_lt_rounds hlength fun member _ => memberBytes_pos _ _ _
  have hpart : ∀ member ∈ recordMembers record,
      (prettyBytes (level + 1) member.2).length ≤ rounds := fun member hmember =>
    Nat.le_trans (prettyBytes_le_memberBytes _ _ _) (part_le_rounds hlength member hmember)
  simp only [recordMembers, List.forall_mem_cons] at hpart
  obtain ⟨hfit₁, -, -, hfit₄, hfit₅, -⟩ := hpart
  have hpayload := reads_payload depth record.payload hfit₁
  have hnames := reads_set depth record.fieldNames hfit₄
  have hvalues := reads_set depth record.fieldValues hfit₅
  have hgap := gap_newline (level + 1)
  refine opened_object hmargin ?_
  intro rest
  have hdelimited := fun parts =>
    delimited_listed hmargin (Or.inr rfl) (encode (Tree.newline (level + 1))) parts rest
  obtain ⟨n, rfl⟩ : ∃ n, rounds = n + 6 := ⟨rounds - 6, by omega⟩
  simp only [recordMembers, List.map, memberBytes, recordFields]
  -- one round for each field: its reader, and what the field makes of the draft
  by_cases hdepth : (Json.object record.payload).depth ≤ depth + 1
  · rw [if_pos hdepth] at hpayload ⊢
    rw [members_ok true _ hgap (by
      rw [recordField_payload, RecordDraft.blank, field_ok hpayload (hdelimited _)]; rfl)]
    rw [members_ok false _ hgap (by
      rw [recordField_ttl, field_ok (reads_time _ _) (hdelimited _)]; rfl)]
    rw [members_ok false _ hgap (by
      rw [recordField_expiresAt, field_ok (reads_time _ _) (hdelimited _)]; rfl)]
    rw [members_ok false _ hgap (by
      rw [recordField_fieldNames, field_ok hnames (hdelimited _)]; rfl)]
    rw [members_ok false _ hgap (by
      rw [recordField_fieldValues, field_ok hvalues (hdelimited _)]; rfl)]
    rw [listed, List.nil_append, members_end _ _ _ hmargin]
    rfl
  · rw [if_neg hdepth] at hpayload ⊢
    obtain ⟨fault, hfault⟩ := field_error hpayload (hdelimited _)
    rw [members_error true _ hgap (by
      rw [recordField_payload, RecordDraft.blank, hfault]; rfl)]
    rfl

/-! ### Tables -/

theorem snapshotField_documents (draft : Draft) (s : Bytes) :
    snapshotField rounds depth draft "documents" s =
      (field "documents" draft.documents (readDocuments rounds depth) s).map
        fun (part, s) => ({ draft with documents := part }, s) := if_pos rfl

theorem snapshotField_indices (draft : Draft) (s : Bytes) :
    snapshotField rounds depth draft "indices" s =
      (field "indices" draft.indices (readIndices rounds depth) s).map
        fun (part, s) => ({ draft with indices := part }, s) := by
  rw [snapshotField, if_neg (by decide), if_pos rfl]

/-- The documents are read unless the payload of one nests too deep. -/
theorem reads_documents (documents : Documents)
    (hlength : (prettyBytes level (documents.treeWith Record.tree)).length ≤ rounds) :
    Reads (readDocuments rounds (depth + 3)) (prettyBytes level (documents.treeWith Record.tree))
      (if ∀ entry ∈ documents.entries, (Json.object entry.2.payload).depth ≤ depth + 1 then
        some (documents.map Record.reread) else none) :=
  reads_treeWith (depth + 2) (readRecord rounds) Record.tree
    (p := fun record : Record => (Json.object record.payload).depth ≤ depth + 1) hlength
    fun entry _ hentry => reads_record depth entry.2 hentry

/-- The buckets are read unless one nests too deep. -/
theorem reads_indices (indices : Indices)
    (hlength : (prettyBytes level
      (indices.treeWith fun bucket => (Json.object bucket).tree)).length ≤ rounds) :
    Reads (readIndices rounds (depth + 2))
      (prettyBytes level (indices.treeWith fun bucket => (Json.object bucket).tree))
      (if ∀ entry ∈ indices.entries, (Json.object entry.2).depth ≤ depth + 1 then
        some (indices.map rereadValues) else none) :=
  reads_treeWith (depth + 1) (readPayload rounds) (fun bucket => (Json.object bucket).tree)
    (p := fun bucket : Bucket => (Json.object bucket).depth ≤ depth + 1) hlength
    fun entry _ hentry => reads_payload depth entry.2 hentry

/-- The tables of a database as they are written. -/
def snapshotMembers (db : Database) : List (String × Tree) :=
  [("documents", db.documents.treeWith Record.tree),
    ("indices", db.indices.treeWith fun bucket => (Json.object bucket).tree)]

/-- Whether no payload and no bucket nests deeper than the readers inside a snapshot go. -/
def Readable (db : Database) : Prop :=
  (∀ entry ∈ db.documents.entries, (Json.object entry.2.payload).depth ≤ 124) ∧
    ∀ entry ∈ db.indices.entries, (Json.object entry.2).depth ≤ 125

instance (db : Database) : Decidable (Readable db) :=
  inferInstanceAs (Decidable (_ ∧ _))

/-- **A snapshot** is read unless one of its two tables is refused. -/
theorem reads_snapshot (db : Database)
    (hlength : (prettyBytes level db.snapshotTree).length ≤ rounds) :
    Reads (readSnapshot rounds maxDepth) (prettyBytes level db.snapshotTree)
      (if Readable db then some db.reread else none) := by
  obtain ⟨margin, hmargin, htext⟩ := prettyBytes_object level (snapshotMembers db)
  rw [show db.snapshotTree = .object (snapshotMembers db) from rfl, htext] at hlength ⊢
  have hcount : 2 < rounds := count_lt_rounds hlength fun member _ => memberBytes_pos _ _ _
  have hpart : ∀ member ∈ snapshotMembers db,
      (prettyBytes (level + 1) member.2).length ≤ rounds := fun member hmember =>
    Nat.le_trans (prettyBytes_le_memberBytes _ _ _) (part_le_rounds hlength member hmember)
  simp only [snapshotMembers, List.forall_mem_cons] at hpart
  obtain ⟨hfit₁, hfit₂, -⟩ := hpart
  -- one of the 127 brackets is open around the tables
  have hdocuments := reads_documents 123 db.documents hfit₁
  have hindices := reads_indices 124 db.indices hfit₂
  have hgap := gap_newline (level + 1)
  refine opened_object hmargin ?_
  intro rest
  have hdelimited := fun parts =>
    delimited_listed hmargin (Or.inr rfl) (encode (Tree.newline (level + 1))) parts rest
  obtain ⟨n, rfl⟩ : ∃ n, rounds = n + 3 := ⟨rounds - 3, by omega⟩
  simp only [snapshotMembers, List.map, memberBytes, snapshotFields]
  by_cases hdepth₁ : ∀ entry ∈ db.documents.entries, (Json.object entry.2.payload).depth ≤ 124
  · rw [if_pos hdepth₁] at hdocuments
    rw [members_ok true _ hgap (by
      rw [snapshotField_documents, field_ok hdocuments (hdelimited _)]; rfl)]
    by_cases hdepth₂ : ∀ entry ∈ db.indices.entries, (Json.object entry.2).depth ≤ 125
    · rw [if_pos hdepth₂] at hindices
      rw [if_pos ⟨hdepth₁, hdepth₂⟩, members_ok false _ hgap (by
        rw [snapshotField_indices, field_ok hindices (hdelimited _)]; rfl)]
      rw [listed, List.nil_append, members_end _ _ _ hmargin]
      rfl
    · rw [if_neg hdepth₂] at hindices
      obtain ⟨fault, hfault⟩ := field_error hindices (hdelimited _)
      rw [if_neg fun h => hdepth₂ h.2, members_error false _ hgap (by
        rw [snapshotField_indices, hfault]; rfl)]
      rfl
  · rw [if_neg hdepth₁] at hdocuments
    obtain ⟨fault, hfault⟩ := field_error hdocuments (hdelimited _)
    rw [if_neg fun h => hdepth₁ h.1, members_error true _ hgap (by
      rw [snapshotField_documents, hfault]; rfl)]
    rfl

end Snapshot

/-! ## Loading -/

namespace Database

theorem mem_values {db : Database} {v : Json} :
    v ∈ db.values ↔ (∃ entry ∈ db.documents.entries, Json.object entry.2.payload = v) ∨
      ∃ bucket ∈ db.indices.entries, ∃ entry ∈ bucket.2.entries, entry.2 = v := by
  simp only [values, KeyMap.values, List.mem_append, List.mem_map, List.mem_flatMap,
    exists_exists_and_eq_and]

theorem forall_mem_values {db : Database} {p : Json → Prop} :
    (∀ v ∈ db.values, p v) ↔
      (∀ entry ∈ db.documents.entries, p (Json.object entry.2.payload)) ∧
        ∀ bucket ∈ db.indices.entries, ∀ entry ∈ bucket.2.entries, p entry.2 := by
  constructor
  · intro h
    refine ⟨fun entry hentry => h _ (mem_values.mpr (Or.inl ⟨entry, hentry, rfl⟩)), ?_⟩
    intro bucket hbucket entry hentry
    exact h _ (mem_values.mpr (Or.inr ⟨bucket, hbucket, entry, hentry, rfl⟩))
  · rintro ⟨hdocuments, hindices⟩ v hv
    rcases mem_values.mp hv with ⟨entry, hentry, rfl⟩ | ⟨bucket, hbucket, entry, hentry, rfl⟩
    · exact hdocuments entry hentry
    · exact hindices bucket hbucket entry hentry

theorem readable_iff (db : Database) : Snapshot.Readable db ↔ ∀ v ∈ db.values, v.depth ≤ 124 := by
  rw [forall_mem_values]
  refine and_congr_right ?_
  intro _
  refine forall_congr' fun bucket => imp_congr_right ?_
  intro _
  exact Json.depth_object_le

/-- **What is loaded** after a save: the database with its values read again, unless a value nests too
    deep. -/
theorem decode_encode (db : Database) :
    (decode db.encode).toOption =
      if ∀ v ∈ db.values, v.depth ≤ 124 then some db.reread else none := by
  have hfit : (prettyBytes 0 db.snapshotTree).length ≤ db.encode.length + 1 := Nat.le_succ _
  have hread : (decode db.encode).toOption = if Snapshot.Readable db then some db.reread else none :=
    parseWith_reads (Snapshot.reads_snapshot db hfit)
  simp only [readable_iff] at hread
  exact hread

theorem reread_eq_self_iff (db : Database) : db.reread = db ↔ ∀ v ∈ db.values, v.ReadsBack := by
  have hdocuments : db.documents.map Record.reread = db.documents ↔
      ∀ entry ∈ db.documents.entries, (Json.object entry.2.payload).ReadsBack := by
    rw [KeyMap.map_eq_self_iff]
    refine forall_congr' fun entry => imp_congr_right ?_
    intro _
    exact Record.reread_eq_self_iff entry.2
  have hindices : db.indices.map rereadValues = db.indices ↔
      ∀ bucket ∈ db.indices.entries, ∀ entry ∈ bucket.2.entries, entry.2.ReadsBack := by
    rw [KeyMap.map_eq_self_iff]
    refine forall_congr' fun bucket => imp_congr_right ?_
    intro _
    exact rereadValues_eq_self_iff bucket.2
  rw [forall_mem_values, ← hdocuments, ← hindices]
  constructor
  · intro h
    exact ⟨congrArg documents h, congrArg indices h⟩
  · rintro ⟨h₁, h₂⟩
    rw [reread, h₁, h₂]

/-- **A snapshot is exact** for a database none of whose values nests deeper than 124 levels or holds a
    number that its text changes, and for no other one. -/
theorem decode_encode_eq_self_iff (db : Database) :
    decode db.encode = .ok db ↔
      (∀ v ∈ db.values, v.depth ≤ 124) ∧ ∀ v ∈ db.values, v.ReadsBack := by
  rw [← reread_eq_self_iff]
  have hread := decode_encode db
  constructor
  · intro h
    obtain ⟨hdepth, hsame⟩ := eq_of_toOption_ite hread h
    exact ⟨hdepth, hsame.symm⟩
  · rintro ⟨hdepth, hsame⟩
    rw [if_pos hdepth, hsame] at hread
    exact eq_ok_of_toOption hread

end Database

end DocStore
