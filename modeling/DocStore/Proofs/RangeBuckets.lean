import DocStore.Proofs.IndexHistory
import DocStore.Proofs.RangeNames

/-!
# Range buckets over a run

A range bucket is a cache: it keeps what the last RANGE has found, until the same query is made again.
Other queries have other buckets. What else can touch a range bucket is a command on a document whose key
is the name of the bucket, since the two kinds of buckets share one table: a DEL of such a document takes
the range bucket along, and an INDEX on it writes between the matches.

## Contents
- `Event.Queries`, `Event.Touches`: the same query again, and a command on a document of that name.
- `Database.bucket?_of_untouched`: **what leaves a range bucket alone**.
- `Database.Lost`: buckets that have been touched; a run cannot repair them.
- `Database.range_bucket_kept_iff`: **when a range bucket still holds its matches**.
- `Database.range_bucket_deleted`: a run that loses a range bucket.
-/

namespace DocStore

namespace Event

/-- Whether an event is a RANGE on a field between numbers equal to these that succeeded. -/
def Queries (event : Event) (field : String) (low high : Binary64) : Prop :=
  ∃ low' high', event.Scans field low' high' ∧ low'.Same low ∧ high'.Same high

/-- Whether an event is a DEL or an INDEX that succeeded, of the document with this key. -/
def Touches (event : Event) (key : String) : Prop :=
  event.Succeeds .del key ∨ event.Succeeds .index key

end Event

namespace Binary64

/-- Equal numbers compare alike with everything. -/
theorem Same.le_congr {x y : Binary64} (h : x.Same y) (z : Binary64) :
    x.le z = y.le z ∧ z.le x = z.le y := by
  obtain ⟨hx, hy⟩ := h.isNaN
  have hrank := (same_iff hx hy).mp h
  unfold le
  rw [hx, hy, hrank]
  exact ⟨rfl, rfl⟩

end Binary64

namespace Database

variable {db : Database} {now : Millis} {line field : String} {low high : Binary64}

/-- Equal bounds have the same matches. -/
theorem rangeScan_congr {low' high' : Binary64} (hlow : low'.Same low) (hhigh : high'.Same high) :
    db.rangeScan field low' high' = db.rangeScan field low high := by
  unfold rangeScan inRange
  simp only [(hlow.le_congr _).1, (hhigh.le_congr _).2]

/-! ## What a line does to a range bucket -/

/-- **What leaves a range bucket alone**: every line that does not make the same query again and is no
    command on a document with the name of the bucket. -/
theorem Step.bucket?_of_untouched {reply : Option Reply} {next : Database}
    (h : Step db now line reply next) (hlow : low.isNaN = false) (hhigh : high.isNaN = false)
    (hquery : ¬ Event.Queries ⟨now, line, reply⟩ field low high)
    (htouch : ¬ Event.Touches ⟨now, line, reply⟩ (rangeBucketName field low high)) :
    next.bucket? (rangeBucketName field low high) = db.bucket? (rangeBucketName field low high) := by
  apply h.bucket?_of_spared
  · rintro (hdel | ⟨field', low', high', hscan, hname⟩)
    · exact htouch (Or.inl hdel)
    · -- one name is one query, so the same query was made again
      obtain ⟨rest, hran, lower, upper⟩ := hscan
      obtain ⟨rfl, hsame, hsame'⟩ := rangeBucketName_inj (Decimal.isNaN_of_parseNumber lower)
        (Decimal.isNaN_of_parseNumber upper) hlow hhigh hname
      exact hquery ⟨low', high', ⟨rest, hran, lower, upper⟩, hsame, hsame'⟩
  · rintro field' value ⟨rest, hok, hnames⟩
    exact htouch (Or.inr ⟨hok, _, hnames⟩)

/-! ## Buckets that have been touched -/

/-- Whether a bucket is gone, or holds a string among its entries. -/
def Lost (bucket : Option Bucket) : Prop :=
  ∀ b ∈ bucket, ∃ key text, b.find? key = some (Json.string text)

theorem string_ne_object (text : String) (payload : Payload) :
    Json.string text ≠ Json.object payload := by
  intro h
  cases congrArg Json.tree h

/-- Matches are documents, so a bucket that has been touched holds something else. -/
theorem Lost.ne_matches {bucket : Option Bucket} (h : Lost bucket) (matched : KeyMap Payload) :
    bucket ≠ some (matched.map Json.object) := by
  rintro rfl
  obtain ⟨key, text, hfound⟩ := h _ rfl
  rw [KeyMap.find?_map] at hfound
  obtain ⟨payload, -, hpayload⟩ := Option.map_eq_some_iff.mp hfound
  exact string_ne_object text payload hpayload.symm

/-- What a DEL or an INDEX of a document leaves of the bucket of that name. -/
theorem lost_of_touches {key : String} (h : (db.event now line).Touches key) :
    Lost ((db.execute now line).2.bucket? key) := by
  rcases h with ⟨hok, rest, hnames⟩ | ⟨hok, rest, hnames⟩
  · rw [(effect_del ⟨hok, hnames⟩).2.2.2.1]
    intro b hb
    cases hb
  · -- an INDEX that succeeds has a field and a value
    obtain ⟨text, hstep⟩ := step_of_ran ⟨hok, hnames⟩
    generalize (db.execute now line).2 = next at hstep
    cases hstep with
    | keep quiet => exact absurd (quiet _ rfl) Bool.noConfusion
    | note names _ _ =>
        obtain ⟨-, hargs⟩ := names.unique hnames
        obtain ⟨rfl, -⟩ := List.cons.inj hargs
        intro b hb
        obtain rfl := Option.some.inj ((KeyMap.find?_insert_self _ _ _).symm.trans hb)
        exact ⟨_, _, KeyMap.find?_insert_self _ _ _⟩

/-- Only the same query makes up for a bucket that was touched. -/
theorem lost_of_lost (hlow : low.isNaN = false) (hhigh : high.isNaN = false)
    (hlost : Lost (db.bucket? (rangeBucketName field low high)))
    (hquery : ¬ (db.event now line).Queries field low high) :
    Lost ((db.execute now line).2.bucket? (rangeBucketName field low high)) := by
  by_cases htouch : (db.event now line).Touches (rangeBucketName field low high)
  · exact lost_of_touches htouch
  · rw [(db.execute_step now line).bucket?_of_untouched hlow hhigh hquery htouch]
    exact hlost

/-! ## Range buckets over a run -/

theorem bucket?_after_of_untouched (hlow : low.isNaN = false) (hhigh : high.isNaN = false)
    (script : Script) : ∀ db : Database,
      (∀ event ∈ db.history script, ¬ event.Queries field low high ∧
        ¬ event.Touches (rangeBucketName field low high)) →
      (db.after script).bucket? (rangeBucketName field low high) =
        db.bucket? (rangeBucketName field low high) := by
  induction script with
  | nil => exact fun _ _ => rfl
  | cons entry rest ih =>
      obtain ⟨now, line⟩ := entry
      intro db h
      obtain ⟨⟨hquery, htouch⟩, hrest⟩ := List.forall_mem_cons.mp h
      rw [after, ih _ hrest]
      exact (db.execute_step now line).bucket?_of_untouched hlow hhigh hquery htouch

theorem lost_after (hlow : low.isNaN = false) (hhigh : high.isNaN = false) (script : Script) :
    ∀ db : Database, (∀ event ∈ db.history script, ¬ event.Queries field low high) →
      Lost (db.bucket? (rangeBucketName field low high)) ∨
        (∃ event ∈ db.history script, event.Touches (rangeBucketName field low high)) →
      Lost ((db.after script).bucket? (rangeBucketName field low high)) := by
  induction script with
  | nil =>
      rintro db - (hlost | ⟨event, hevent, -⟩)
      · exact hlost
      · exact absurd hevent List.not_mem_nil
  | cons entry rest ih =>
      obtain ⟨now, line⟩ := entry
      intro db hqueries h
      obtain ⟨hquery, hrest⟩ := List.forall_mem_cons.mp hqueries
      apply ih _ hrest
      rcases h with hlost | ⟨event, hevent, htouch⟩
      · exact Or.inl (lost_of_lost hlow hhigh hlost hquery)
      · rcases List.mem_cons.mp hevent with rfl | hevent
        · exact Or.inl (lost_of_touches htouch)
        · exact Or.inr ⟨event, hevent, htouch⟩

/-- What a query leaves behind. -/
theorem bucket?_of_queries (h : (db.event now line).Queries field low high) :
    (db.execute now line).2.bucket? (rangeBucketName field low high) =
      some ((db.rangeScan field low high).map Json.object) := by
  obtain ⟨low', high', hscan, hlow, hhigh⟩ := h
  rw [← rangeBucketName_congr hlow hhigh, (effect_range hscan).2.2, rangeScan_congr hlow hhigh]

/-- A RANGE between two numbers always succeeds. -/
theorem scans_of_names {rest : List String} (h : Names line .range (field :: rest))
    (hlow : Decimal.parseNumber ((rest[0]?).getD "").toList = some low)
    (hhigh : Decimal.parseNumber ((rest[1]?).getD "").toList = some high) :
    (db.event now line).Scans field low high := by
  refine ⟨rest, ⟨?_, h⟩, hlow, hhigh⟩
  show ∃ reply ∈ (db.execute now line).1, reply.isOk = true
  rw [execute_of_names h]
  simp only [run, range, hlow, hhigh]
  exact ⟨_, rfl, rfl⟩

/-- **When a range bucket still holds its matches.** Take a run in which a RANGE on a field between two
    numbers has succeeded. There is a last one, with equal numbers as bounds. What it has found then is
    what the bucket of the query holds after the run, exactly if no later DEL or INDEX of a document
    whose key is the name of the bucket has succeeded. In every database, a line that is neither such a
    command nor the same query leaves the bucket alone: every SET, GET and blank line, every command that
    fails, and every RANGE on another field or between other numbers. -/
theorem range_bucket_kept_iff {script : Script}
    (h : ∃ event ∈ db.history script, event.Queries field low high) :
    (∃ before now line later, script = before ++ (now, line) :: later ∧
      ((db.after before).event now line).Queries field low high ∧
      ∀ event ∈ ((db.after before).execute now line).2.history later,
        ¬ event.Queries field low high) ∧
    (∀ before now line later, script = before ++ (now, line) :: later →
      ((db.after before).event now line).Queries field low high →
      (∀ event ∈ ((db.after before).execute now line).2.history later,
        ¬ event.Queries field low high) →
      ((db.after script).bucket? (rangeBucketName field low high) =
          some (((db.after before).rangeScan field low high).map Json.object) ↔
        ∀ event ∈ ((db.after before).execute now line).2.history later,
          ¬ event.Touches (rangeBucketName field low high))) ∧
    (∀ (other : Database) (time : Millis) (text : String),
      ¬ (other.event time text).Queries field low high →
      ¬ (other.event time text).Touches (rangeBucketName field low high) →
      (other.execute time text).2.bucket? (rangeBucketName field low high) =
        other.bucket? (rangeBucketName field low high)) := by
  obtain ⟨hlow, hhigh⟩ : low.isNaN = false ∧ high.isNaN = false := by
    obtain ⟨event, -, low', high', -, hlow, hhigh⟩ := h
    exact ⟨hlow.isNaN.2, hhigh.isNaN.2⟩
  refine ⟨last_event script db h, ?_, ?_⟩
  · rintro before now line later rfl hquery hlast
    rw [after_append, after]
    constructor
    · intro hkept event hevent htouch
      have hlost := lost_after hlow hhigh later _ hlast (Or.inr ⟨event, hevent, htouch⟩)
      exact hlost.ne_matches _ hkept
    · intro huntouched
      rw [bucket?_after_of_untouched hlow hhigh later _
        fun event hevent => ⟨hlast event hevent, huntouched event hevent⟩]
      exact bucket?_of_queries hquery
  · intro other time text hquery htouch
    exact (other.execute_step time text).bucket?_of_untouched hlow hhigh hquery htouch

/-! ### A range bucket that is kept, and one that is not -/

/-- The line of the following runs that asks for the numbers from 0 to 5. -/
theorem queries_range_line (db : Database) (now : Millis) :
    (db.event now "RANGE n 0 5").Queries "n" (Binary64.ofInt 0) (Binary64.ofInt 5) := by
  have hnames : Names "RANGE n 0 5" .range ["n", "0", "5"] :=
    ⟨⟨"RANGE", ["n", "0", "5"]⟩, by decide +kernel, by decide, rfl⟩
  have hlow : Decimal.parseNumber "0".toList = some (Binary64.ofInt 0) := by decide +kernel
  have hhigh : Decimal.parseNumber "5".toList = some (Binary64.ofInt 5) := by decide +kernel
  refine ⟨_, _, scans_of_names hnames hlow hhigh, ?_, ?_⟩
  · exact ⟨by decide +kernel, by decide +kernel⟩
  · exact ⟨by decide +kernel, by decide +kernel⟩

/-- A document that is stored, and a range that finds it. -/
theorem range_bucket_kept :
    (∃ event ∈ empty.history [(0, "SET a \x7b\"n\":3\x7d"), (1, "RANGE n 0 5")],
      event.Queries "n" (Binary64.ofInt 0) (Binary64.ofInt 5)) ∧
    (empty.after [(0, "SET a \x7b\"n\":3\x7d"), (1, "RANGE n 0 5")]).bucket?
        (rangeBucketName "n" (Binary64.ofInt 0) (Binary64.ofInt 5)) =
      some (((empty.after [(0, "SET a \x7b\"n\":3\x7d")]).rangeScan "n" (Binary64.ofInt 0)
        (Binary64.ofInt 5)).map Json.object) := by
  have hquery := queries_range_line (empty.after [(0, "SET a \x7b\"n\":3\x7d")]) 1
  have hqueried : ∃ event ∈ empty.history [(0, "SET a \x7b\"n\":3\x7d"), (1, "RANGE n 0 5")],
      event.Queries "n" (Binary64.ofInt 0) (Binary64.ofInt 5) :=
    ⟨_, List.mem_cons_of_mem _ List.mem_cons_self, hquery⟩
  refine ⟨hqueried, ?_⟩
  refine ((range_bucket_kept_iff hqueried).2.1 [(0, "SET a \x7b\"n\":3\x7d")] 1 "RANGE n 0 5" [] rfl
    hquery ?_).mpr ?_
  · exact fun event hevent => absurd hevent List.not_mem_nil
  · exact fun event hevent => absurd hevent List.not_mem_nil

/-- A document under the name of a range bucket: the query is never made again, but the DEL of the
    document takes the bucket along. -/
theorem range_bucket_deleted :
    ((empty.after [(0, "SET RANGE:n:0-5 \x7b\"n\":1\x7d")]).event 0 "RANGE n 0 5").Queries "n"
      (Binary64.ofInt 0) (Binary64.ofInt 5) ∧
    ((empty.after [(0, "SET RANGE:n:0-5 \x7b\"n\":1\x7d"), (0, "RANGE n 0 5")]).bucket?
      (rangeBucketName "n" (Binary64.ofInt 0) (Binary64.ofInt 5))).isSome = true ∧
    (empty.after [(0, "SET RANGE:n:0-5 \x7b\"n\":1\x7d"), (0, "RANGE n 0 5"),
      (0, "DEL RANGE:n:0-5")]).bucket?
        (rangeBucketName "n" (Binary64.ofInt 0) (Binary64.ofInt 5)) = none := by
  refine ⟨queries_range_line _ 0, ?_, ?_⟩
  · decide +kernel
  · decide +kernel

end Database

end DocStore
