import DocStore.Proofs.Execution
import DocStore.Proofs.Json.Nesting
import DocStore.Proofs.Storage.Snapshots

/-!
# The values of a database through a step

A step brings in payloads that were read from a line and strings, and it copies payloads into a bucket.
A property of values that holds of those is kept by every step.

## Contents
- `KeyMap.mem_erase`, `KeyMap.mem_filterMap`: entries after an operation.
- `Database.Step.forall_values`: **what all values keep**.
- `Database.execute_depth_le`: no value nests deeper than 127 levels.
-/

namespace DocStore

/-! ## Entries -/

namespace KeyMap

variable {α β : Type} {m : KeyMap α} {key : String}

theorem mem_insert {value : α} {entry : String × α} (h : entry ∈ (m.insert key value).entries) :
    entry = (key, value) ∨ entry ∈ m.entries :=
  mem_insertEntry h

theorem mem_erase {entry : String × α} (h : entry ∈ (m.erase key).entries) : entry ∈ m.entries :=
  (List.mem_filter.mp h).1

theorem mem_map {f : α → β} {entry : String × β} (h : entry ∈ (m.map f).entries) :
    ∃ source ∈ m.entries, f source.2 = entry.2 := by
  obtain ⟨source, hsource, rfl⟩ := List.mem_map.mp h
  exact ⟨source, hsource, rfl⟩

theorem mem_filterMap {f : α → Option β} {entry : String × β} (h : entry ∈ (m.filterMap f).entries) :
    ∃ source ∈ m.entries, f source.2 = some entry.2 := by
  obtain ⟨source, hsource, hentry⟩ := List.mem_filterMap.mp h
  obtain ⟨value, hvalue, rfl⟩ := Option.map_eq_some_iff.mp hentry
  exact ⟨source, hsource, hvalue⟩

theorem mem_of_find? {value : α} (h : m.find? key = some value) : (key, value) ∈ m.entries :=
  (mem_entries_iff m key value).mpr h

end KeyMap

namespace Database

variable {db after : Database} {now : Millis} {line : String} {reply : Option Reply}

/-- The payload of a match is the payload of a document. -/
theorem mem_rangeScan {field : String} {low high : Binary64} {entry : String × Payload}
    (h : entry ∈ (db.rangeScan field low high).entries) :
    ∃ document ∈ db.documents.entries, document.2.payload = entry.2 := by
  obtain ⟨document, hdocument, hmatch⟩ := KeyMap.mem_filterMap h
  refine ⟨document, hdocument, ?_⟩
  split at hmatch
  · split at hmatch
    · exact Option.some.inj hmatch
    · cases hmatch
  · cases hmatch

/-- **What all values keep.** A property of strings and of every payload that can be read is kept by
    every step. -/
theorem Step.forall_values {P : Json → Prop} (hstring : ∀ s, P (Json.string s))
    (hpayload : ∀ input payload, Json.parseObject input = .ok payload → P (Json.object payload))
    (hstep : Step db now line reply after) (h : ∀ v ∈ db.values, P v) : ∀ v ∈ after.values, P v := by
  obtain ⟨hdocuments, hindices⟩ := forall_mem_values.mp h
  refine forall_mem_values.mpr ?_
  cases hstep with
  | keep _ => exact ⟨hdocuments, hindices⟩
  | store _ _ hparsed =>
      refine ⟨fun entry hentry => ?_, hindices⟩
      rcases KeyMap.mem_insert hentry with rfl | hentry
      · exact hpayload _ _ hparsed
      · exact hdocuments entry hentry
  | drop _ _ =>
      rw [remove]
      split
      · exact ⟨fun entry hentry => hdocuments entry (KeyMap.mem_erase hentry),
          fun bucket hbucket => hindices bucket (KeyMap.mem_erase hbucket)⟩
      · exact ⟨hdocuments, hindices⟩
  | @note base _ value _ _ _ _ _ =>
      refine ⟨hdocuments, ?_⟩
      intro bucket hbucket entry hentry
      rcases KeyMap.mem_insert hbucket with rfl | hbucket
      · rcases KeyMap.mem_insert hentry with rfl | hentry
        · exact hstring value
        · -- the other entries are those of the bucket that had the name, if there was one
          cases hold : db.bucket? base with
          | none =>
              rw [hold] at hentry
              exact absurd hentry List.not_mem_nil
          | some old =>
              rw [hold] at hentry
              exact hindices (base, old) (KeyMap.mem_of_find? hold) entry hentry
      · exact hindices bucket hbucket entry hentry
  | scan _ _ _ =>
      refine ⟨hdocuments, ?_⟩
      intro bucket hbucket entry hentry
      rcases KeyMap.mem_insert hbucket with rfl | hbucket
      · obtain ⟨found, hfound, hvalue⟩ := KeyMap.mem_map hentry
        obtain ⟨document, hdocument, hsame⟩ := mem_rangeScan hfound
        rw [← hvalue, ← hsame]
        exact hdocuments document hdocument
      · exact hindices bucket hbucket entry hentry

/-- No value of a database nests deeper than the reader for payloads goes. -/
theorem execute_depth_le (now : Millis) (line : String) (h : ∀ v ∈ db.values, v.depth ≤ 127) :
    ∀ v ∈ (db.execute now line).2.values, v.depth ≤ 127 :=
  (execute_step db now line).forall_values (P := fun v => v.depth ≤ 127) (fun _ => Nat.zero_le _)
    (fun _ _ hparsed => Json.parseObject_depth_le hparsed) h

end Database

end DocStore
