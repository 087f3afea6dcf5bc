import DocStore.Proofs.History
import Mathlib.Data.List.Induction

/-!
# What an INDEX checks

An INDEX has seven things to check, one after the other, and it is answered with the first that is wrong.
The last one compares the value on the line with what the document holds in that field. A field that the
document does not have counts as empty there, but no word of a line is empty, so it never passes. The checks
before it look at the names and the values that were noted when the document was stored. Where nothing was
loaded from elsewhere they are those of the document, so the last check decides alone.

## Contents
- `Record.Holds`: a field with a value of a given text; `Record.actual_eq_iff`: how it is checked.
- `IndexFlaw`, `FirstIndexFlaw`: what may be wrong with an INDEX, and the first of it.
- `Database.index_firstFlaw`: **an INDEX is answered with its first flaw**;
  `Database.holds_of_checkEntry`: what the checks say of the payload.
- `Record.Coherent`, `Record.coherent_create`: names and values that are those of the payload.
- `Database.Step.forall_records`, `Database.forall_records_after`: **what all records keep**;
  `Database.coherent_after`, `Database.key_word_after`: two things that they keep.
- `Database.index_checks`: what an INDEX is answered with, in any database and after a run.
-/

namespace DocStore

/-! ## What a record holds -/

namespace Record

variable {record : Record} {field text : String}

/-- Whether a record has a field with a value that has this canonical text. -/
def Holds (record : Record) (field text : String) : Prop :=
  ∃ held, record.field? field = some held ∧ held.canonical = text

/-- A field holds one text. -/
theorem Holds.unique {other : String} (h : record.Holds field text) (h' : record.Holds field other) :
    text = other := by
  obtain ⟨held, hheld, rfl⟩ := h
  obtain ⟨held', hheld', rfl⟩ := h'
  obtain rfl := Option.some.inj (hheld.symm.trans hheld')
  rfl

/-- A field that is missing counts as empty, so it holds no text but the empty one. -/
theorem actual_eq_iff (hne : text ≠ "") :
    ((record.field? field).map Json.canonical).getD "" = text ↔ record.Holds field text := by
  unfold Holds
  cases record.field? field with
  | none => simp [hne.symm]
  | some held => simp

end Record

/-! ## Flaws -/

/-- What may be wrong with the arguments of an INDEX, in the order in which it is checked, and how it is
    reported. -/
inductive IndexFlaw (db : Database) (args : List String) : Nat → CommandError → Prop
  | noBase (absent : args[0]? = none) : IndexFlaw db args 0 (.missingArgument "base key")
  | unknownBase {base : String} (isBase : args[0]? = some base) (absent : db.find? base = none) :
      IndexFlaw db args 1 (.baseKeyNotFound base)
  | noField (absent : args[1]? = none) : IndexFlaw db args 2 (.missingArgument "field")
  | noValue (absent : args[2]? = none) : IndexFlaw db args 3 (.missingArgument "value")
  | otherField {base field : String} {record : Record} (isBase : args[0]? = some base)
      (found : db.find? base = some record) (isField : args[1]? = some field)
      (absent : record.fieldNames.contains field = false) :
      IndexFlaw db args 4 (.invalidField field record.fieldNames)
  | otherValue {base value : String} {record : Record} (isBase : args[0]? = some base)
      (found : db.find? base = some record) (isValue : args[2]? = some value)
      (absent : record.fieldValues.contains value = false) :
      IndexFlaw db args 5 (.invalidValue value record.fieldValues)
  | mismatch {base field value : String} {record : Record} (isBase : args[0]? = some base)
      (found : db.find? base = some record) (isField : args[1]? = some field)
      (isValue : args[2]? = some value) (differs : ¬ record.Holds field value) :
      IndexFlaw db args 6 (.valueMismatch field value (((record.field? field).map Json.canonical).getD ""))

/-- Whether an error is the first thing that is wrong. -/
def FirstIndexFlaw (db : Database) (args : List String) (error : CommandError) : Prop :=
  ∃ place, IndexFlaw db args place error ∧ ∀ earlier < place, ∀ other, ¬ IndexFlaw db args earlier other

section Flaws

variable {db : Database} {args rest : List String} {base field value : String} {record : Record}
  {place : Nat} {error other : CommandError}

/-- At each place there is one thing that can be wrong. -/
theorem IndexFlaw.unique (h : IndexFlaw db args place error) (h' : IndexFlaw db args place other) :
    error = other := by
  cases h <;> cases h' <;> simp_all

theorem FirstIndexFlaw.unique (h : FirstIndexFlaw db args error) (h' : FirstIndexFlaw db args other) :
    error = other := by
  obtain ⟨place, hflaw, hfirst⟩ := h
  obtain ⟨place', hflaw', hfirst'⟩ := h'
  rcases Nat.lt_trichotomy place place' with hlt | rfl | hlt
  · exact absurd hflaw (hfirst' _ hlt _)
  · exact hflaw.unique hflaw'
  · exact absurd hflaw' (hfirst _ hlt _)

/-- Where there is a base with a document, the words that may be missing are the next ones. -/
theorem IndexFlaw.two_le (found : db.find? base = some record)
    (h : IndexFlaw db (base :: rest) place error) : 2 ≤ place := by
  cases h with
  | noBase absent => cases absent
  | unknownBase isBase absent =>
      obtain rfl := Option.some.inj isBase
      rw [found] at absent
      cases absent
  | noField _ => decide
  | noValue _ => decide
  | otherField _ _ _ _ => decide
  | otherValue _ _ _ _ => decide
  | mismatch _ _ _ _ _ => decide

/-- What may be wrong where no word is missing and the base has a document. -/
theorem IndexFlaw.cases_complete (found : db.find? base = some record)
    (h : IndexFlaw db (base :: field :: value :: rest) place error) :
    (place = 4 ∧ record.fieldNames.contains field = false) ∨
      (place = 5 ∧ record.fieldValues.contains value = false) ∨
      (place = 6 ∧ ¬ record.Holds field value) := by
  have hplace := h.two_le found
  cases h with
  | noBase _ => omega
  | unknownBase _ _ => omega
  | noField absent => cases absent
  | noValue absent => cases absent
  | otherField isBase found' isField absent =>
      obtain rfl := Option.some.inj isBase
      obtain rfl := Option.some.inj isField
      obtain rfl := Option.some.inj (found.symm.trans found')
      exact Or.inl ⟨rfl, absent⟩
  | otherValue isBase found' isValue absent =>
      obtain rfl := Option.some.inj isBase
      obtain rfl := Option.some.inj isValue
      obtain rfl := Option.some.inj (found.symm.trans found')
      exact Or.inr (Or.inl ⟨rfl, absent⟩)
  | mismatch isBase found' isField isValue differs =>
      obtain rfl := Option.some.inj isBase
      obtain rfl := Option.some.inj isField
      obtain rfl := Option.some.inj isValue
      obtain rfl := Option.some.inj (found.symm.trans found')
      exact Or.inr (Or.inr ⟨rfl, differs⟩)

end Flaws

namespace Database

variable {db : Database} {now : Millis} {line base field value : String} {args rest : List String}
  {record : Record}

/-- The checks of a field and a value that are both given. -/
theorem checkEntry_firstFlaw (found : db.find? base = some record) (field : String) (hne : value ≠ "")
    (rest : List String) :
    (∃ error, checkEntry record field value = .error error ∧
        FirstIndexFlaw db (base :: field :: value :: rest) error) ∨
      (checkEntry record field value = .ok () ∧ record.Holds field value ∧
        ∀ place error, ¬ IndexFlaw db (base :: field :: value :: rest) place error) := by
  unfold checkEntry
  by_cases hnames : record.fieldNames.contains field = false
  · rw [if_pos (by rw [hnames]; rfl)]
    refine Or.inl ⟨_, rfl, 4, .otherField rfl found rfl hnames, fun earlier hlt other hflaw => ?_⟩
    rcases hflaw.cases_complete found with ⟨rfl, -⟩ | ⟨rfl, -⟩ | ⟨rfl, -⟩ <;> omega
  rw [if_neg (by simpa using hnames)]
  by_cases hvalues : record.fieldValues.contains value = false
  · rw [if_pos (by rw [hvalues]; rfl)]
    refine Or.inl ⟨_, rfl, 5, .otherValue rfl found rfl hvalues, fun earlier hlt other hflaw => ?_⟩
    rcases hflaw.cases_complete found with ⟨rfl, habsent⟩ | ⟨rfl, -⟩ | ⟨rfl, -⟩
    · exact hnames habsent
    · omega
    · omega
  rw [if_neg (by simpa using hvalues)]
  dsimp only
  by_cases hholds : record.Holds field value
  · rw [if_neg (not_not_intro ((Record.actual_eq_iff hne).mpr hholds))]
    refine Or.inr ⟨rfl, hholds, fun place error hflaw => ?_⟩
    rcases hflaw.cases_complete found with ⟨-, habsent⟩ | ⟨-, habsent⟩ | ⟨-, hdiffers⟩
    · exact hnames habsent
    · exact hvalues habsent
    · exact hdiffers hholds
  · rw [if_pos (mt (Record.actual_eq_iff hne).mp hholds)]
    refine Or.inl ⟨_, rfl, 6, .mismatch rfl found rfl rfl hholds, fun earlier hlt other hflaw => ?_⟩
    rcases hflaw.cases_complete found with ⟨-, habsent⟩ | ⟨-, habsent⟩ | ⟨rfl, -⟩
    · exact hnames habsent
    · exact hvalues habsent
    · omega

/-- A value that has passed the checks is held by the field. -/
theorem holds_of_checkEntry (found : db.find? base = some record) (hne : value ≠ "")
    (checked : checkEntry record field value = .ok ()) : record.Holds field value := by
  rcases checkEntry_firstFlaw found field hne [] with ⟨error, herror, -⟩ | ⟨-, hholds, -⟩
  · rw [checked] at herror
    cases herror
  · exact hholds

/-- **An INDEX is answered with its first flaw**, and without one it notes what the document holds. -/
theorem index_firstFlaw (db : Database) (hwords : ∀ arg ∈ args, arg ≠ "") :
    (∃ error, db.index args = .error error ∧ FirstIndexFlaw db args error) ∨
      (∃ base field value rest record, args = base :: field :: value :: rest ∧
        db.find? base = some record ∧ record.Holds field value ∧
        db.index args = .ok (Texts.indexed, db.setIndexEntry base field (Json.string value)) ∧
        ∀ place error, ¬ IndexFlaw db args place error) := by
  unfold index
  split
  · exact Or.inl ⟨_, rfl, 0, .noBase rfl, fun earlier hlt => absurd hlt (Nat.not_lt_zero _)⟩
  rename_i base rest
  split
  · rename_i habsent
    refine Or.inl ⟨_, rfl, 1, .unknownBase rfl habsent, fun earlier hlt other hflaw => ?_⟩
    obtain rfl := Nat.lt_one_iff.mp hlt
    cases hflaw with
    | noBase absent => cases absent
  rename_i record found
  split
  · refine Or.inl ⟨_, rfl, 2, .noField rfl, fun earlier hlt other hflaw => ?_⟩
    exact absurd (hflaw.two_le found) (Nat.not_le_of_lt hlt)
  · refine Or.inl ⟨_, rfl, 3, .noValue rfl, fun earlier hlt other hflaw => ?_⟩
    obtain rfl : earlier = 2 := Nat.le_antisymm (Nat.lt_succ_iff.mp hlt) (hflaw.two_le found)
    cases hflaw with
    | noField absent => cases absent
  · rename_i field value rest
    have hne : value ≠ "" := hwords value (by simp)
    rcases checkEntry_firstFlaw found field hne rest with
      ⟨error, herror, hfirst⟩ | ⟨hok, hholds, hnone⟩
    · rw [herror]
      exact Or.inl ⟨error, rfl, hfirst⟩
    · rw [hok]
      exact Or.inr ⟨base, field, value, rest, record, rfl, found, hholds, rfl, hnone⟩

/-- The reply to an INDEX. -/
theorem reply_firstFlaw (h : Names line .index args) (db : Database) (now : Millis) :
    (∃ error, (db.execute now line).1 = some ⟨some .index, .error error⟩ ∧ FirstIndexFlaw db args error) ∨
      (∃ base field value rest record, args = base :: field :: value :: rest ∧
        db.find? base = some record ∧ record.Holds field value ∧
        (db.execute now line).1 = some ⟨some .index, .ok Texts.indexed⟩ ∧
        ∀ place error, ¬ IndexFlaw db args place error) := by
  rw [execute_of_names h, run]
  rcases db.index_firstFlaw h.arg_ne_empty with
    ⟨error, herror, hfirst⟩ | ⟨base, field, value, rest, record, hargs, found, hholds, hok, hnone⟩
  · rw [herror]
    exact Or.inl ⟨error, rfl, hfirst⟩
  · rw [hok]
    exact Or.inr ⟨base, field, value, rest, record, hargs, found, hholds, rfl, hnone⟩

theorem reply_error_iff (h : Names line .index args) (error : CommandError) :
    (db.execute now line).1 = some ⟨some .index, .error error⟩ ↔ FirstIndexFlaw db args error := by
  rcases reply_firstFlaw h db now with
    ⟨first, hreply, hfirst⟩ | ⟨-, -, -, -, -, -, -, -, hreply, hnone⟩
  · rw [hreply]
    constructor
    · intro hsame
      cases hsame
      exact hfirst
    · intro hother
      rw [hfirst.unique hother]
  · rw [hreply]
    constructor
    · intro hsame
      cases hsame
    · rintro ⟨place, hflaw, -⟩
      exact absurd hflaw (hnone place error)

theorem reply_ok_iff (h : Names line .index args) :
    (db.execute now line).1 = some ⟨some .index, .ok Texts.indexed⟩ ↔
      ∀ place error, ¬ IndexFlaw db args place error := by
  rcases reply_firstFlaw h db now with
    ⟨first, hreply, place, hflaw, -⟩ | ⟨-, -, -, -, -, -, -, -, hreply, hnone⟩
  · rw [hreply]
    constructor
    · intro hsame
      cases hsame
    · intro hnone
      exact absurd hflaw (hnone place first)
  · rw [hreply]
    exact ⟨fun _ => hnone, fun _ => rfl⟩

end Database

/-! ## Coherent records -/

/-- Whether the names and values that were noted with a record are those of its payload. -/
structure Record.Coherent (record : Record) : Prop where
  names : ∀ field, record.fieldNames.contains field = true ↔ ∃ held, record.field? field = some held
  values : ∀ text, record.fieldValues.contains text = true ↔ ∃ field, record.Holds field text

/-- A set has the texts that it was made of. -/
theorem KeySet.contains_ofTexts (texts : List String) (text : String) :
    (KeySet.ofTexts texts).contains text = true ↔ text ∈ texts := by
  induction texts with
  | nil => exact ⟨fun h => absurd h Bool.false_ne_true, fun h => absurd h List.not_mem_nil⟩
  | cons first rest ih =>
      have hstep : KeySet.ofTexts (first :: rest) = (KeySet.ofTexts rest).insertNew first () := rfl
      unfold KeyMap.contains at ih ⊢
      rw [hstep, KeyMap.find?_insertNew, List.mem_cons, ← ih]
      split
      · rename_i hsame
        simp [hsame]
      · rename_i hother
        simp [hother]

/-- The values of a map are those that are found. -/
theorem KeyMap.mem_values {α : Type} (m : KeyMap α) (value : α) :
    value ∈ m.values ↔ ∃ key, m.find? key = some value := by
  simp only [values, List.mem_map, ← m.mem_entries_iff, Prod.exists, exists_eq_right]

/-- A record that is made from a payload is coherent. -/
theorem Record.coherent_create (payload : Payload) (ttl : Option Millis) (now : Millis) :
    (Record.create payload ttl now).Coherent where
  names := by
    intro field
    show ((payload.map fun _ => ()).find? field).isSome = true ↔ _
    rw [KeyMap.find?_map, Option.isSome_map]
    exact Option.isSome_iff_exists
  values := by
    intro text
    show (KeySet.ofTexts (payload.values.map Json.canonical)).contains text = true ↔ _
    rw [KeySet.contains_ofTexts, List.mem_map]
    constructor
    · rintro ⟨held, hheld, htext⟩
      obtain ⟨field, hfield⟩ := (payload.mem_values held).mp hheld
      exact ⟨field, held, hfield, htext⟩
    · rintro ⟨field, held, hfield, htext⟩
      exact ⟨held, (payload.mem_values held).mpr ⟨field, hfield⟩, htext⟩

namespace Database

variable {db next : Database} {now : Millis} {line : String} {args : List String}

/-- **What all records keep.** A property of records and their keys is kept by every step, if it holds of
    every record that is made from a payload and stored under a word. -/
theorem Step.forall_records {P : String → Record → Prop}
    (hcreate : ∀ key : String, key.toList ≠ [] → (∀ c ∈ key.toList, Text.isBlank c = false) →
      ∀ payload ttl now, P key (Record.create payload ttl now)) {reply : Option Reply}
    (h : Step db now line reply next) (hall : ∀ key record, db.find? key = some record → P key record) :
    ∀ key record, next.find? key = some record → P key record := by
  intro key record hfound
  cases h with
  | keep _ => exact hall key record hfound
  | store names _ _ =>
      have hfound := (KeyMap.find?_insert _ _ _ _).symm.trans hfound
      split at hfound
      · rename_i hsame
        obtain ⟨hne, hblank⟩ := names.arg_word key (hsame ▸ List.mem_cons_self)
        obtain rfl := Option.some.inj hfound
        exact hcreate key hne hblank _ _ _
      · exact hall key record hfound
  | drop _ _ =>
      rw [find?_remove] at hfound
      split at hfound
      · cases hfound
      · exact hall key record hfound
  | note _ _ _ => exact hall key record hfound
  | scan _ _ _ => exact hall key record hfound

/-- What all records keep through a run from the empty database. By induction on the run from its end. -/
theorem forall_records_after {P : String → Record → Prop}
    (hcreate : ∀ key : String, key.toList ≠ [] → (∀ c ∈ key.toList, Text.isBlank c = false) →
      ∀ payload ttl now, P key (Record.create payload ttl now)) (script : Script) :
    ∀ key record, (empty.after script).find? key = some record → P key record := by
  induction script using List.reverseRecOn with
  | nil =>
      intro key record habsent
      cases habsent
  | append_singleton script entry ih =>
      obtain ⟨now, line⟩ := entry
      rw [after_concat]
      exact (execute_step _ now line).forall_records hcreate ih

/-- After a run from the empty database all records are coherent. -/
theorem coherent_after (script : Script) {key : String} {record : Record}
    (h : (empty.after script).find? key = some record) : record.Coherent :=
  forall_records_after (fun _ _ _ => Record.coherent_create) script key record h

/-- After a run from the empty database the keys of all records are words. -/
theorem key_word_after (script : Script) {key : String} {record : Record}
    (h : (empty.after script).find? key = some record) :
    key.toList ≠ [] ∧ ∀ c ∈ key.toList, Text.isBlank c = false :=
  forall_records_after (P := fun key _ => key.toList ≠ [] ∧ ∀ c ∈ key.toList, Text.isBlank c = false)
    (fun _ hne hblank _ _ _ => ⟨hne, hblank⟩) script key record h

/-! ## The answers of an INDEX -/

section Coherent

variable {base field value actual : String} {rest : List String} {record : Record}

/-- With the names and values of the payload the last check decides alone. -/
theorem flaw_iff_of_coherent (found : db.find? base = some record) (hcoherent : record.Coherent) :
    (∀ place error, ¬ IndexFlaw db (base :: field :: value :: rest) place error) ↔
      record.Holds field value := by
  constructor
  · intro hnone
    by_contra hdiffers
    exact hnone _ _ (.mismatch rfl found rfl rfl hdiffers)
  · rintro ⟨held, hheld, htext⟩ place error hflaw
    rcases hflaw.cases_complete found with ⟨-, habsent⟩ | ⟨-, habsent⟩ | ⟨-, hdiffers⟩
    · rw [(hcoherent.names field).mpr ⟨held, hheld⟩] at habsent
      cases habsent
    · rw [(hcoherent.values value).mpr ⟨field, held, hheld, htext⟩] at habsent
      cases habsent
    · exact hdiffers ⟨held, hheld, htext⟩

/-- Then a mismatch says that the field holds another value, and another field this one. -/
theorem mismatch_iff_of_coherent (found : db.find? base = some record) (hcoherent : record.Coherent) :
    FirstIndexFlaw db (base :: field :: value :: rest) (.valueMismatch field value actual) ↔
      record.Holds field actual ∧ actual ≠ value ∧ ∃ other, other ≠ field ∧ record.Holds other value := by
  constructor
  · rintro ⟨place, hflaw, hfirst⟩
    -- the earlier checks were passed, so the payload has the field, and the value somewhere
    have hfield : record.fieldNames.contains field = true := by
      by_contra habsent
      refine hfirst 4 ?_ _ (.otherField rfl found rfl (Bool.eq_false_of_not_eq_true habsent))
      cases hflaw
      decide
    have hvalue : record.fieldValues.contains value = true := by
      by_contra habsent
      refine hfirst 5 ?_ _ (.otherValue rfl found rfl (Bool.eq_false_of_not_eq_true habsent))
      cases hflaw
      decide
    obtain ⟨held, hheld⟩ := (hcoherent.names field).mp hfield
    obtain ⟨other, hother⟩ := (hcoherent.values value).mp hvalue
    cases hflaw with
    | mismatch isBase found' _ _ differs =>
        obtain rfl := Option.some.inj isBase
        obtain rfl := Option.some.inj (found.symm.trans found')
        rw [hheld, Option.map_some, Option.getD_some]
        refine ⟨⟨held, hheld, rfl⟩, fun hsame => differs ⟨held, hheld, hsame⟩, other, ?_, hother⟩
        rintro rfl
        exact differs hother
  · rintro ⟨hactual, hne, other, hother, hvalue⟩
    have hdiffers : ¬ record.Holds field value := fun hholds => hne (hactual.unique hholds)
    have hflaw : IndexFlaw db (base :: field :: value :: rest) 6 _ :=
      .mismatch rfl found rfl rfl hdiffers
    obtain ⟨held, hheld, rfl⟩ := hactual
    rw [hheld, Option.map_some, Option.getD_some] at hflaw
    refine ⟨6, hflaw, fun earlier hlt error hearlier => ?_⟩
    rcases hearlier.cases_complete found with ⟨-, habsent⟩ | ⟨-, habsent⟩ | ⟨rfl, -⟩
    · rw [(hcoherent.names field).mpr ⟨held, hheld⟩] at habsent
      cases habsent
    · rw [(hcoherent.values value).mpr ⟨other, hvalue⟩] at habsent
      cases habsent
    · exact Nat.lt_irrefl 6 hlt

end Coherent

/-- **The answers of an INDEX.** In every database, one that was loaded included, and at any time, it is
    answered with the first of its flaws, and it succeeds exactly without any. Then the document has the
    field, and the value on the line is the text of what it holds there.
    After a run from the empty database, the names and values of every record are those of its payload.
    Then an INDEX of a document with a field and a value succeeds exactly if the document holds that value
    there, and it reports a mismatch exactly if it holds another one there and this one elsewhere. -/
theorem index_checks (h : Names line .index args) :
    (∀ (db : Database) (now : Millis),
      (∀ error, (db.execute now line).1 = some ⟨some .index, .error error⟩ ↔ FirstIndexFlaw db args error) ∧
      ((db.execute now line).1 = some ⟨some .index, .ok Texts.indexed⟩ ↔
        ∀ place error, ¬ IndexFlaw db args place error) ∧
      (∀ reply ∈ (db.execute now line).1, reply.isOk = true →
        ∃ base field value rest record, args = base :: field :: value :: rest ∧
          db.find? base = some record ∧ record.Holds field value)) ∧
    ∀ (script : Script) (now : Millis),
      (∀ key record, (empty.after script).find? key = some record → record.Coherent) ∧
      ∀ base field value rest record, args = base :: field :: value :: rest →
        (empty.after script).find? base = some record →
        (((empty.after script).execute now line).1 = some ⟨some .index, .ok Texts.indexed⟩ ↔
          record.Holds field value) ∧
        ∀ actual, ((empty.after script).execute now line).1 =
            some ⟨some .index, .error (.valueMismatch field value actual)⟩ ↔
          record.Holds field actual ∧ actual ≠ value ∧
            ∃ other, other ≠ field ∧ record.Holds other value := by
  refine ⟨fun db now => ⟨reply_error_iff h, reply_ok_iff h, ?_⟩, fun script now => ⟨?_, ?_⟩⟩
  · intro reply hreply hok
    rcases reply_firstFlaw h db now with
      ⟨first, hanswer, -⟩ | ⟨base, field, value, rest, record, hargs, found, hholds, -⟩
    · rw [hanswer] at hreply
      obtain rfl := Option.mem_some_iff.mp hreply
      cases hok
    · exact ⟨base, field, value, rest, record, hargs, found, hholds⟩
  · exact fun key record => coherent_after script
  · rintro base field value rest record rfl found
    have hcoherent := coherent_after script found
    exact ⟨(reply_ok_iff h).trans (flaw_iff_of_coherent found hcoherent),
      fun actual => (reply_error_iff h _).trans (mismatch_iff_of_coherent found hcoherent)⟩

/-- A record that was loaded may list a field and a value that its payload does not have. The missing field
    does not pass as an empty value. -/
theorem index_checks_loaded :
    let record : Record := ⟨KeyMap.empty, none, none, KeySet.ofTexts ["f"], KeySet.ofTexts ["", "v"]⟩
    let db : Database := ⟨KeyMap.empty.insert "a" record, KeyMap.empty⟩
    Names "INDEX a f v" .index ["a", "f", "v"] ∧
      (db.execute 0 "INDEX a f v").1 = some ⟨some .index, .error (.valueMismatch "f" "v" "")⟩ := by
  intro record db
  have hnames : Names "INDEX a f v" .index ["a", "f", "v"] :=
    ⟨⟨"INDEX", ["a", "f", "v"]⟩, by decide +kernel, by decide, rfl⟩
  have found : db.find? "a" = some record := by decide +kernel
  have hdiffers : ¬ record.Holds "f" "v" := by
    rintro ⟨held, hheld, -⟩
    cases hheld
  refine ⟨hnames, (((index_checks hnames).1 db 0).1 _).mpr ?_⟩
  refine ⟨6, .mismatch rfl found rfl rfl hdiffers, fun earlier hlt other hflaw => ?_⟩
  rcases hflaw.cases_complete found with ⟨-, habsent⟩ | ⟨-, habsent⟩ | ⟨rfl, -⟩
  · exact absurd habsent (by decide +kernel)
  · exact absurd habsent (by decide +kernel)
  · exact absurd hlt (Nat.lt_irrefl 6)

end Database

end DocStore
