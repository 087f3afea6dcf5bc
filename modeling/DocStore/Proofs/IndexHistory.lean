import DocStore.Proofs.Effects
import Mathlib.Data.List.Induction

/-!
# The index table as its history

What a bucket holds after a run can be told from the lines of the run and their replies, whatever the
bucket is called. A DEL of the key of that name and a RANGE with that name decide anew what it holds. The
INDEX commands since the last of these are laid over it, field by field, and the last one of a field counts.
Nothing else matters, so this also says what becomes of a name that is both the key of a document and the
name of a range.

## Contents
- `Event.Resets`, `Event.Notes`: what an event does to a bucket.
- `Database.Step.bucket?_of_spared`: **what leaves a bucket alone**.
- `LastNoted`, `Overlaid`: what some events lay over a bucket; `Overlaid.unique`: they leave no choice.
- `Database.overlaid_concat`, `Database.overlaid_after`: a line and a run that do not reset a bucket.
- `Database.LastReset`: what the last event that resets a bucket leaves, and the events since.
- `Database.bucket_replays_history`: **a bucket after a run** is the replay of its history.
-/

namespace DocStore

namespace Event

/-- Whether an event decides anew what a bucket holds: a DEL of the key of that name, or a RANGE whose
    bucket has that name, that succeeded. -/
def Resets (event : Event) (name : String) : Prop :=
  event.Succeeds .del name ∨
    ∃ field low high, event.Scans field low high ∧ Database.rangeBucketName field low high = name

/-- Whether an event is an INDEX that succeeded and has noted this value for this field of a base. -/
def Notes (event : Event) (name field value : String) : Prop :=
  ∃ rest, event.Ran .index (name :: field :: value :: rest)

/-- An event notes one value for one field. -/
theorem Notes.unique {event : Event} {name field value field' value' : String}
    (h : event.Notes name field value) (h' : event.Notes name field' value') :
    field = field' ∧ value = value' := by
  obtain ⟨rest, -, hnames⟩ := h
  obtain ⟨rest', -, hnames'⟩ := h'
  have hargs := (hnames.unique hnames').2
  simp only [List.cons.injEq] at hargs
  exact ⟨hargs.2.1, hargs.2.2.1⟩

end Event

/-- **What leaves a bucket alone**: all lines but the commands on the key of that name that note or delete,
    and the ranges of that name. -/
theorem Database.Step.bucket?_of_spared {db next : Database} {now : Millis} {line name : String}
    {reply : Option Reply} (h : Step db now line reply next)
    (hresets : ¬ Event.Resets ⟨now, line, reply⟩ name)
    (hnotes : ∀ field value, ¬ Event.Notes ⟨now, line, reply⟩ name field value) :
    next.bucket? name = db.bucket? name := by
  cases h with
  | keep _ => rfl
  | store _ _ _ => rfl
  | @drop key rest record names found =>
      have hne : name ≠ key := by
        rintro rfl
        exact hresets (Or.inl ⟨⟨_, rfl, rfl⟩, rest, names⟩)
      rw [remove_of_found found]
      exact KeyMap.agreesExcept_erase _ _ _ hne
  | @note base field value rest record names _ _ =>
      have hne : name ≠ base := by
        rintro rfl
        exact hnotes field value ⟨rest, ⟨_, rfl, rfl⟩, names⟩
      exact KeyMap.agreesExcept_insert _ _ _ _ hne
  | @scan field rest low high names lower upper =>
      have hne : name ≠ rangeBucketName field low high := by
        rintro rfl
        exact hresets (Or.inr ⟨field, low, high, ⟨rest, ⟨⟨_, rfl, rfl⟩, names⟩, lower, upper⟩, rfl⟩)
      exact KeyMap.agreesExcept_insert _ _ _ _ hne

/-! ## Notes laid over a bucket -/

/-- Whether this is the last value that some events have noted for a field of a base. -/
def LastNoted (name field value : String) (events : List Event) : Prop :=
  ∃ before event later, events = before ++ event :: later ∧ event.Notes name field value ∧
    ∀ other ∈ later, ∀ newer, ¬ other.Notes name field newer

/-- Of the values that were noted for a field there is a last one. -/
theorem exists_lastNoted {name field : String} {events : List Event}
    (h : ∃ event ∈ events, ∃ value, event.Notes name field value) :
    ∃ value, LastNoted name field value events := by
  obtain ⟨before, event, later, hcut, ⟨value, hnotes⟩, hlater⟩ := exists_last h
  exact ⟨value, before, event, later, hcut, hnotes,
    fun other hother newer hnewer => hlater other hother ⟨newer, hnewer⟩⟩

/-- The last value after one more event: the value that it notes, or the last one before it. -/
theorem LastNoted.of_concat {name field value : String} {events : List Event} {event : Event}
    (h : LastNoted name field value (events ++ [event])) :
    event.Notes name field value ∨
      (LastNoted name field value events ∧ ∀ newer, ¬ event.Notes name field newer) := by
  obtain ⟨before, noting, later, hcut, hnotes, hlater⟩ := h
  rcases later.eq_nil_or_concat with rfl | ⟨rest, last, rfl⟩
  · obtain ⟨-, hsame⟩ := List.append_inj' hcut rfl
    obtain rfl := List.singleton_inj.mp hsame
    exact Or.inl hnotes
  · rw [List.concat_eq_append] at hcut hlater
    rw [← List.cons_append, ← List.append_assoc] at hcut
    obtain ⟨rfl, hsame⟩ := List.append_inj' hcut rfl
    obtain rfl := List.singleton_inj.mp hsame
    obtain ⟨hrest, hevent⟩ := List.forall_mem_append.mp hlater
    exact Or.inr ⟨⟨before, noting, rest, rfl, hnotes, hrest⟩, hevent event List.mem_cons_self⟩

/-- The entry for a field in a bucket that may not be there. -/
def entry? (bucket : Option Bucket) (field : String) : Option Json :=
  bucket.bind (·.find? field)

/-- Whether a bucket is what some events have made of the bucket that was there before them, if none of
    them has reset it. The first note makes a bucket where there is none. A field that was noted has the
    last value, as a string, and every other field has what it had before. -/
structure Overlaid (name : String) (base : Option Bucket) (events : List Event)
    (bucket : Option Bucket) : Prop where
  isSome_iff : bucket.isSome ↔
    base.isSome ∨ ∃ event ∈ events, ∃ field value, event.Notes name field value
  noted : ∀ field value, LastNoted name field value events →
    entry? bucket field = some (Json.string value)
  kept : ∀ field, (∀ event ∈ events, ∀ value, ¬ event.Notes name field value) →
    entry? bucket field = entry? base field

namespace Overlaid

variable {name : String} {base bucket other : Option Bucket} {events : List Event} {event : Event}

/-- Without events a bucket is what it was. -/
theorem nil (name : String) (base : Option Bucket) : Overlaid name base [] base where
  isSome_iff := by simp
  noted := by
    rintro field value ⟨before, event, later, hcut, -⟩
    exact absurd hcut.symm (List.append_ne_nil_of_right_ne_nil _ (List.cons_ne_nil _ _))
  kept := fun _ _ => rfl

/-- There is only one bucket that some events make of another one. -/
theorem unique (h : Overlaid name base events bucket) (h' : Overlaid name base events other) :
    bucket = other := by
  have hentries : ∀ field, entry? bucket field = entry? other field := by
    intro field
    by_cases hnoted : ∃ event ∈ events, ∃ value, event.Notes name field value
    · obtain ⟨value, hlast⟩ := exists_lastNoted hnoted
      rw [h.noted field value hlast, h'.noted field value hlast]
    · have hnever : ∀ event ∈ events, ∀ value, ¬ event.Notes name field value :=
        fun event hevent value hnotes => hnoted ⟨event, hevent, value, hnotes⟩
      rw [h.kept field hnever, h'.kept field hnever]
  have hsome : bucket.isSome ↔ other.isSome := h.isSome_iff.trans h'.isSome_iff.symm
  cases bucket with
  | none =>
      cases other with
      | none => rfl
      | some b => exact absurd (hsome.mpr rfl) Bool.false_ne_true
  | some a =>
      cases other with
      | none => exact absurd (hsome.mp rfl) Bool.false_ne_true
      | some b => exact congrArg some (KeyMap.ext_find? hentries)

/-- One more event that notes nothing. -/
theorem concat_spared (h : Overlaid name base events bucket)
    (hnotes : ∀ field value, ¬ event.Notes name field value) :
    Overlaid name base (events ++ [event]) bucket where
  isSome_iff := by
    rw [h.isSome_iff]
    simp [List.mem_append, or_and_right, exists_or, hnotes]
  noted := by
    intro field value hlast
    rcases hlast.of_concat with hnew | ⟨hold, -⟩
    · exact absurd hnew (hnotes field value)
    · exact h.noted field value hold
  kept := fun field hnever => h.kept field (List.forall_mem_append.mp hnever).1

/-- One more event that notes a value. -/
theorem concat_noted (h : Overlaid name base events bucket) {field value : String}
    (hnotes : event.Notes name field value) {next : Bucket}
    (hfield : next.find? field = some (Json.string value))
    (hothers : next.AgreesExcept field (bucket.getD KeyMap.empty)) :
    Overlaid name base (events ++ [event]) (some next) where
  isSome_iff := by
    refine ⟨fun _ => Or.inr ⟨event, ?_, field, value, hnotes⟩, fun _ => rfl⟩
    exact List.mem_append_right _ List.mem_cons_self
  noted := by
    intro other newer hlast
    rcases hlast.of_concat with hnew | ⟨hold, hnone⟩
    · obtain ⟨rfl, rfl⟩ := hnotes.unique hnew
      exact hfield
    · have hne : other ≠ field := by
        rintro rfl
        exact hnone value hnotes
      rw [← h.noted other newer hold]
      refine (hothers other hne).trans ?_
      cases bucket with
      | none => rfl
      | some old => rfl
  kept := by
    intro other hnever
    obtain ⟨hbefore, hevent⟩ := List.forall_mem_append.mp hnever
    have hne : other ≠ field := by
      rintro rfl
      exact hevent event List.mem_cons_self value hnotes
    rw [← h.kept other hbefore]
    refine (hothers other hne).trans ?_
    cases bucket with
    | none => rfl
    | some old => rfl

end Overlaid

namespace Database

variable {db : Database} {now : Millis} {line name : String} {base : Option Bucket}
  {events : List Event}

/-- A line that does not reset a bucket lays at most one note over it. -/
theorem overlaid_concat (h : Overlaid name base events (db.bucket? name))
    (hresets : ¬ (db.event now line).Resets name) :
    Overlaid name base (events ++ [db.event now line]) ((db.execute now line).2.bucket? name) := by
  by_cases hnotes : ∃ field value, (db.event now line).Notes name field value
  · obtain ⟨field, value, rest, hran⟩ := hnotes
    obtain ⟨-, -, bucket, hbucket, hfield, hothers⟩ := effect_index hran
    rw [hbucket]
    exact h.concat_noted ⟨rest, hran⟩ hfield hothers
  · have hnone : ∀ field value, ¬ (db.event now line).Notes name field value :=
      fun field value hnoted => hnotes ⟨field, value, hnoted⟩
    rw [(db.execute_step now line).bucket?_of_spared hresets hnone]
    exact h.concat_spared hnone

/-- A run that does not reset a bucket lays its notes over it. By induction on the script from its end,
    since the last note counts. -/
theorem overlaid_after (script : Script) (h : ∀ event ∈ db.history script, ¬ event.Resets name) :
    Overlaid name (db.bucket? name) (db.history script) ((db.after script).bucket? name) := by
  induction script using List.reverseRecOn with
  | nil => exact Overlaid.nil name _
  | append_singleton script entry ih =>
      obtain ⟨now, line⟩ := entry
      rw [history_concat] at h ⊢
      obtain ⟨hbefore, hlast⟩ := List.forall_mem_append.mp h
      rw [after_concat]
      exact overlaid_concat (ih hbefore) (hlast _ List.mem_cons_self)

/-! ## The last reset -/

/-- What the last event that resets a bucket leaves of it, and the events since then. A DEL leaves nothing,
    a RANGE its matches of that moment. If there is no such event, there was nothing at the beginning. -/
inductive LastReset (name : String) (script : Script) : Option Bucket → List Event → Prop
  | never (none : ∀ event ∈ empty.history script, ¬ event.Resets name) :
      LastReset name script .none (empty.history script)
  | deleted {before later : Script} {now : Millis} {line : String}
      (cut : script = before ++ (now, line) :: later)
      (deletes : ((empty.after before).event now line).Succeeds .del name)
      (last : ∀ event ∈ ((empty.after before).execute now line).2.history later,
        ¬ event.Resets name) :
      LastReset name script .none (((empty.after before).execute now line).2.history later)
  | scanned {before later : Script} {now : Millis} {line field : String} {low high : Binary64}
      (cut : script = before ++ (now, line) :: later)
      (scans : ((empty.after before).event now line).Scans field low high)
      (named : rangeBucketName field low high = name)
      (last : ∀ event ∈ ((empty.after before).execute now line).2.history later,
        ¬ event.Resets name) :
      LastReset name script (some (((empty.after before).rangeScan field low high).map Json.object))
        (((empty.after before).execute now line).2.history later)

/-- Every run has reset a bucket last in one of these ways. -/
theorem exists_lastReset (name : String) (script : Script) :
    ∃ base events, LastReset name script base events := by
  by_cases h : ∃ event ∈ empty.history script, event.Resets name
  · obtain ⟨before, now, line, later, hcut, hresets, hlast⟩ := last_event script empty h
    rcases hresets with hdel | ⟨field, low, high, hscans, hname⟩
    · exact ⟨_, _, .deleted hcut hdel hlast⟩
    · exact ⟨_, _, .scanned hcut hscans hname hlast⟩
  · exact ⟨_, _, .never fun event hevent hresets => h ⟨event, hevent, hresets⟩⟩

/-- The bucket after a run is what the notes since the last reset have made of it. -/
theorem LastReset.overlaid {script : Script} (h : LastReset name script base events) :
    Overlaid name base events ((empty.after script).bucket? name) := by
  cases h with
  | never hnone => exact overlaid_after script hnone
  | deleted cut deletes last =>
      obtain ⟨hok, rest, hnames⟩ := deletes
      rw [cut, after_cut, ← (effect_del ⟨hok, hnames⟩).2.2.2.1]
      exact overlaid_after _ last
  | scanned cut scans named last =>
      subst named
      rw [cut, after_cut, ← (effect_range scans).2.2]
      exact overlaid_after _ last

/-- **A bucket after a run** is the replay of its history. Take the last event of the run that resets the
    bucket, if there is one: what it has left of the bucket, with the notes of all later events laid over
    it, is what the run leaves, and nothing else is. In every database, a line that neither resets the
    bucket nor notes a value in it leaves it as it was: a blank line, a command that fails, a SET, a GET,
    a command on another key, or a RANGE of another name. -/
theorem bucket_replays_history (script : Script) (name : String) :
    (∀ bucket, (empty.after script).bucket? name = bucket ↔
      ∃ base events, LastReset name script base events ∧ Overlaid name base events bucket) ∧
    (∀ (db : Database) (now : Millis) (line : String), ¬ (db.event now line).Resets name →
      (∀ field value, ¬ (db.event now line).Notes name field value) →
      (db.execute now line).2.bucket? name = db.bucket? name) := by
  refine ⟨fun bucket => ⟨?_, ?_⟩, ?_⟩
  · rintro rfl
    obtain ⟨base, events, hreset⟩ := exists_lastReset name script
    exact ⟨base, events, hreset, hreset.overlaid⟩
  · rintro ⟨base, events, hreset, hoverlaid⟩
    exact hreset.overlaid.unique hoverlaid
  · exact fun db now line hresets hnotes => (db.execute_step now line).bucket?_of_spared hresets hnotes

/-- A note on a document that bears the name of a range bucket is laid over the matches. -/
example : (empty.after [(0, "SET RANGE:n:0-5 \x7b\"n\":1\x7d"), (0, "RANGE n 0 5"),
    (0, "INDEX RANGE:n:0-5 n 1"), (0, "SET RANGE:n:0-5 \x7b\"n\":2\x7d")]).bucket? "RANGE:n:0-5" =
      some (KeyMap.ofList [("RANGE:n:0-5", Json.object (KeyMap.ofList
        [("n", Json.number (.integer 1 (by decide) (by decide)))])), ("n", Json.string "1")]) := by
  decide +kernel

end Database

end DocStore
