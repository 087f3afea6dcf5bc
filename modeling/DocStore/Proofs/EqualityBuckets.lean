import DocStore.Proofs.Effects
import DocStore.Proofs.IndexChecks
import Mathlib.Data.List.Induction

/-!
# Equality buckets over a run

An equality bucket belongs to the document whose key it bears. An INDEX makes it and a DEL takes it away
together with the document, so no bucket is left without one. A SET leaves it alone, so what it holds may
be the value of an older document, but only of one that was stored since the key last had none.

## Contents
- `Database.HeldSince`: a document was stored under a key that has had one ever since.
- `Database.Tied`: equality buckets that belong to documents, with a lemma for each change;
  `Database.Step.tied`: a step keeps that.
- `Database.equality_bucket_tied`: **no equality bucket is orphaned**.
-/

namespace DocStore

namespace Database

variable {db next : Database} {now : Millis} {line : String} {reply : Option Reply}

/-! ## Documents that were held -/

/-- Whether a script, from the empty database on, has stored a payload under a key that has had a document
    ever since. -/
def HeldSince (script : Script) (key : String) (payload : Payload) : Prop :=
  ∃ before now line later ttl, script = before ++ (now, line) :: later ∧
    ((empty.after before).event now line).Stores key payload ttl ∧
    ∀ first second, later = first ++ second →
      ((empty.after (before ++ (now, line) :: first)).find? key).isSome

/-- What was held is still held after one more line that leaves the key a document. -/
theorem HeldSince.concat {script : Script} {key : String} {payload : Payload}
    (h : HeldSince script key payload) {entry : Millis × String}
    (hfound : ((empty.after (script ++ [entry])).find? key).isSome) :
    HeldSince (script ++ [entry]) key payload := by
  obtain ⟨before, now, line, later, ttl, rfl, hstores, hsince⟩ := h
  refine ⟨before, now, line, later ++ [entry], ttl, by simp, hstores, ?_⟩
  intro first second hcut
  rcases List.append_eq_append_iff.mp hcut with ⟨middle, rfl, hlast⟩ | ⟨middle, rfl, hsecond⟩
  · -- the cut lies within the last line: before it or behind it
    rcases List.append_eq_singleton_iff.mp hlast.symm with ⟨rfl, -⟩ | ⟨rfl, -⟩
    · apply hsince _ []
      simp
    · simpa using hfound
  · exact hsince first middle rfl

/-- A document that has just been stored is held. -/
theorem heldSince_of_stores {script : Script} {key : String} {payload : Payload} {ttl : Option Binary64}
    (h : ((empty.after script).event now line).Stores key payload ttl) :
    HeldSince (script ++ [(now, line)]) key payload := by
  refine ⟨script, now, line, [], ttl, rfl, h, ?_⟩
  intro first second hcut
  obtain ⟨rfl, -⟩ := List.append_eq_nil_iff.mp hcut.symm
  rw [after_concat, find?_of_stored h]
  rfl

/-! ## Buckets that belong to documents -/

/-- Whether a name is not one of a range bucket. -/
def Plain (name : String) : Prop :=
  ∀ rest, name ≠ rangeMark ++ rest

theorem plain_ne_rangeBucketName {name : String} (h : Plain name) (field : String)
    (low high : Binary64) : name ≠ rangeBucketName field low high := by
  unfold rangeBucketName
  simp only [String.append_assoc]
  exact h _

/-- Whether a bucket belongs to a key: it is not empty, and each of its entries is the canonical text of
    that field in one of the payloads that count for the key. -/
structure Belongs (counts : Payload → Prop) (bucket : Bucket) : Prop where
  nonempty : bucket.isEmpty = false
  noted : ∀ field entry, bucket.find? field = some entry →
    ∃ payload value, counts payload ∧ payload.find? field = some value ∧
      entry = Json.string value.canonical

/-- Whether every document counts for its key, and every equality bucket belongs to a key that has one. -/
structure Tied (db : Database) (counts : String → Payload → Prop) : Prop where
  documents : ∀ key record, db.find? key = some record → counts key record.payload
  buckets : ∀ name bucket, Plain name → db.bucket? name = some bucket →
    (db.find? name).isSome ∧ Belongs (counts name) bucket

/-- A bucket still belongs to its key when it gets the value of a field that counts. -/
theorem Belongs.insert {counts : Payload → Prop} {bucket : Option Bucket} {field : String}
    {payload : Payload} {value : Json} (h : ∀ b ∈ bucket, Belongs counts b) (hcounts : counts payload)
    (hvalue : payload.find? field = some value) :
    Belongs counts ((bucket.getD KeyMap.empty).insert field (Json.string value.canonical)) := by
  refine ⟨KeyMap.isEmpty_of_find? (KeyMap.find?_insert_self _ _ _), ?_⟩
  intro other entry hentry
  rw [KeyMap.find?_insert] at hentry
  split at hentry
  · rename_i hsame
    obtain rfl := Option.some.inj hentry
    exact ⟨payload, value, hcounts, hsame ▸ hvalue, rfl⟩
  · cases hbucket : bucket with
    | none =>
        rw [hbucket] at hentry
        cases hentry
    | some old =>
        rw [hbucket] at hentry
        exact (h old hbucket).noted other entry hentry

namespace Tied

variable {counts more : String → Payload → Prop} {key field : String}

/-- More payloads may count, if they do so for keys that have a document. -/
theorem imp (h : db.Tied counts)
    (hmore : ∀ key payload, (db.find? key).isSome → counts key payload → more key payload) :
    db.Tied more := by
  constructor
  · intro key record hrecord
    apply hmore key record.payload
    · rw [hrecord]
      rfl
    · exact h.documents key record hrecord
  · intro name bucket hname hbucket
    obtain ⟨hfound, hbelongs⟩ := h.buckets name bucket hname hbucket
    refine ⟨hfound, hbelongs.nonempty, ?_⟩
    intro field entry hentry
    obtain ⟨payload, value, hcounts, hvalue⟩ := hbelongs.noted field entry hentry
    exact ⟨payload, value, hmore name payload hfound hcounts, hvalue⟩

theorem insert (h : db.Tied counts) {record : Record} (hcounts : counts key record.payload) :
    (db.insert key record).Tied counts := by
  have hfind : ∀ other, (db.insert key record).find? other =
      if other = key then some record else db.find? other :=
    fun other => KeyMap.find?_insert _ _ _ _
  constructor
  · intro other found hfound
    rw [hfind] at hfound
    split at hfound
    · rename_i hsame
      obtain rfl := Option.some.inj hfound
      rw [hsame]
      exact hcounts
    · exact h.documents other found hfound
  · intro name bucket hname hbucket
    obtain ⟨hfound, hbelongs⟩ := h.buckets name bucket hname hbucket
    refine ⟨?_, hbelongs⟩
    rw [hfind]
    split
    · rfl
    · exact hfound

theorem remove (h : db.Tied counts) {record : Record} (hrecord : db.find? key = some record) :
    (db.remove key).Tied counts := by
  constructor
  · intro other found hfound
    rw [find?_remove] at hfound
    split at hfound
    · cases hfound
    · exact h.documents other found hfound
  · intro name bucket hname hbucket
    rw [remove_of_found hrecord] at hbucket
    have hlookup : (db.indices.erase key).find? name = some bucket := hbucket
    rw [KeyMap.find?_erase] at hlookup
    split at hlookup
    · cases hlookup
    · rename_i hother
      rw [find?_remove, if_neg hother]
      exact h.buckets name bucket hname hlookup

theorem setIndexEntry (h : db.Tied counts) {record : Record} {value : Json}
    (hrecord : db.find? key = some record) (hvalue : record.payload.find? field = some value) :
    (db.setIndexEntry key field (Json.string value.canonical)).Tied counts := by
  refine ⟨h.documents, ?_⟩
  intro name bucket hname hbucket
  have hlookup : (db.indices.insert key (((db.bucket? key).getD KeyMap.empty).insert field
      (Json.string value.canonical))).find? name = some bucket := hbucket
  rw [KeyMap.find?_insert] at hlookup
  split at hlookup
  · rename_i hsame
    subst hsame
    obtain rfl := Option.some.inj hlookup
    refine ⟨Option.isSome_iff_exists.mpr ⟨record, hrecord⟩, ?_⟩
    apply Belongs.insert _ (h.documents name record hrecord) hvalue
    intro old hold
    exact (h.buckets name old hname hold).2
  · exact h.buckets name bucket hname hlookup

theorem replaceBucket (h : db.Tied counts) (low high : Binary64) (contents : Bucket) :
    (db.replaceBucket (rangeBucketName field low high) contents).Tied counts := by
  refine ⟨h.documents, ?_⟩
  intro name bucket hname hbucket
  have hother : name ≠ rangeBucketName field low high := plain_ne_rangeBucketName hname _ _ _
  apply h.buckets name bucket hname
  rw [← hbucket]
  exact (KeyMap.agreesExcept_insert _ _ _ _ hother).symm

end Tied

/-- **A step keeps equality buckets with their documents.** What counts after it is what counted before for
    a key that still has a document, and the document that the step has stored. -/
theorem Step.tied {counts later : String → Payload → Prop} (h : Step db now line reply next)
    (htied : db.Tied counts)
    (hkept : ∀ key payload, (next.find? key).isSome → counts key payload → later key payload)
    (hstored : ∀ key payload ttl, Event.Stores ⟨now, line, reply⟩ key payload ttl →
      later key payload) : next.Tied later := by
  cases h with
  | keep _ => exact htied.imp hkept
  | @store key rest span payload names found parsed =>
      -- the stored payload counts beside those that did
      have hboth : db.Tied fun other p => counts other p ∨ (other = key ∧ p = payload) :=
        htied.imp fun _ _ _ hcounts => Or.inl hcounts
      have hinserted : (db.insert key (Record.create payload (span.ttl.map Binary64.truncate)
          now)).Tied fun other p => counts other p ∨ (other = key ∧ p = payload) :=
        hboth.insert (Or.inr ⟨rfl, rfl⟩)
      apply hinserted.imp
      rintro other p hfound (hcounts | ⟨rfl, rfl⟩)
      · exact hkept other p hfound hcounts
      · exact hstored _ _ _ ⟨⟨⟨_, rfl, rfl⟩, _, names⟩, _, _, names, found, parsed, rfl⟩
  | drop _ found => exact (htied.remove found).imp hkept
  | note names found checked =>
      have hne := names.arg_ne_empty _ (List.mem_cons_of_mem _ (List.mem_cons_of_mem _ List.mem_cons_self))
      obtain ⟨held, hheld, rfl⟩ := holds_of_checkEntry found hne checked
      exact (htied.setIndexEntry found hheld).imp hkept
  | scan _ _ _ => exact (htied.replaceBucket _ _ _).imp hkept

/-! ## Runs -/

/-- In a run from the empty database, the documents that count are those that were held. By induction on
    the script from its end, so that what was held before the last line is known. -/
theorem tied_after (script : Script) : (empty.after script).Tied (HeldSince script) := by
  induction script using List.reverseRecOn with
  | nil =>
      constructor
      · intro key record hrecord
        cases hrecord
      · intro name bucket _ hbucket
        cases hbucket
  | append_singleton script entry ih =>
      obtain ⟨now, line⟩ := entry
      rw [after_concat]
      apply ((empty.after script).execute_step now line).tied ih
      · intro key payload hfound hheld
        apply hheld.concat
        rw [after_concat]
        exact hfound
      · intro key payload ttl hstores
        exact heldSince_of_stores hstores

/-- **No equality bucket is orphaned.** After any run from the empty database, a bucket whose name does not
    start like that of a range bucket is not empty and bears the key of a document. Each of its entries is
    a string: the canonical text that the field has in a document which was stored under the key, and since
    then the key has never been without a document. -/
theorem equality_bucket_tied (script : Script) {name : String} {bucket : Bucket}
    (hname : ∀ rest, name ≠ rangeMark ++ rest)
    (hbucket : (empty.after script).bucket? name = some bucket) :
    bucket.isEmpty = false ∧
    (∃ record, (empty.after script).find? name = some record) ∧
    ∀ field entry, bucket.find? field = some entry →
      ∃ payload value, HeldSince script name payload ∧ payload.find? field = some value ∧
        entry = Json.string value.canonical := by
  obtain ⟨hfound, hbelongs⟩ := (tied_after script).buckets name bucket hname hbucket
  exact ⟨hbelongs.nonempty, Option.isSome_iff_exists.mp hfound, hbelongs.noted⟩

/-- A note stays when the field gets another value: what it says was held by the older document. -/
theorem equality_bucket_tied_stale :
    (∀ rest, "k" ≠ rangeMark ++ rest) ∧
    (empty.after [(0, "SET k \x7b\"a\":1\x7d"), (1, "INDEX k a 1"),
      (2, "SET k \x7b\"a\":2\x7d")]).bucket? "k" = some (KeyMap.ofList [("a", Json.string "1")]) ∧
    ∃ payload value, HeldSince [(0, "SET k \x7b\"a\":1\x7d"), (1, "INDEX k a 1"),
        (2, "SET k \x7b\"a\":2\x7d")] "k" payload ∧
      payload.find? "a" = some value ∧ Json.string "1" = Json.string value.canonical := by
  have hname : ∀ rest, "k" ≠ rangeMark ++ rest := by
    intro rest hrest
    have hlength := congrArg String.length hrest
    have hmark : rangeMark.length = 6 := by decide
    have hone : "k".length = 1 := by decide
    rw [String.length_append, hmark, hone] at hlength
    omega
  have hbucket : (empty.after [(0, "SET k \x7b\"a\":1\x7d"), (1, "INDEX k a 1"),
      (2, "SET k \x7b\"a\":2\x7d")]).bucket? "k" =
        some (KeyMap.ofList [("a", Json.string "1")]) := by
    decide +kernel
  obtain ⟨-, -, hnoted⟩ := equality_bucket_tied _ hname hbucket
  exact ⟨hname, hbucket, hnoted "a" (Json.string "1") (by decide +kernel)⟩

end Database

end DocStore
