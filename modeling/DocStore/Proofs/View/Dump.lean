import DocStore.Proofs.IndexHistory
import DocStore.Proofs.Json.Unambiguous
import DocStore.Proofs.RangeNames
import DocStore.Proofs.View.Lines

/-!
# The dump of the buckets

The dump lists the buckets that are not empty, each with its name on a line of its own and its entries as a
pretty object below. Names may look like parts of an object, but as long as they hold no blank they end at
the line break, and an object shows where it ends. So the dump can be split in one way only.

## Contents
- `View.shown`, `View.mem_shown`: the buckets that are listed; `View.shown_eq_iff`.
- `View.bucket_append_inj`, `View.bucketLines_inj`: **the text of the buckets tells the buckets**.
- `View.indices_eq_iff`: the dump tells what it lists.
- `Database.SolidNames`: names without blanks; `Step.solidNames`, `Database.solidNames_after`: no line brings
  in another one.
- `Database.indicesView_eq_iff`: **what the dump tells**.
-/

namespace DocStore

open Text (isBlank EndsInWord)

namespace Database

/-- Whether no bucket has a blank in its name. -/
def SolidNames (db : Database) : Prop :=
  ∀ name bucket, db.bucket? name = some bucket → ∀ c ∈ name.toList, isBlank c = false

end Database

namespace View

/-! ## The buckets that are listed -/

/-- The buckets that are not empty, in the order of their names. -/
def shown (db : Database) : List (String × Bucket) :=
  db.indices.entries.filter fun entry => !entry.2.isEmpty

variable {a b : Database}

theorem mem_shown {db : Database} {name : String} {bucket : Bucket} :
    (name, bucket) ∈ shown db ↔ db.bucket? name = some bucket ∧ bucket.isEmpty = false := by
  rw [shown, List.mem_filter, Bool.not_eq_true', KeyMap.mem_entries_iff]
  rfl

/-- Two databases list the same if they have the same buckets, the empty ones apart. -/
theorem shown_eq_iff : shown a = shown b ↔
    ∀ name bucket, bucket.isEmpty = false →
      (a.bucket? name = some bucket ↔ b.bucket? name = some bucket) := by
  constructor
  · intro h name bucket hne
    have hmem : (name, bucket) ∈ shown a ↔ (name, bucket) ∈ shown b := by rw [h]
    rwa [mem_shown, mem_shown, and_iff_left hne, and_iff_left hne] at hmem
  · intro h
    -- both lists are in ascending order of the names, so they are maps
    let left : Indices := ⟨shown a, a.indices.ascending.filter _⟩
    let right : Indices := ⟨shown b, b.indices.ascending.filter _⟩
    have hsame : left = right := by
      refine KeyMap.ext_find? fun name => Option.ext fun bucket => ?_
      rw [← KeyMap.mem_entries_iff, ← KeyMap.mem_entries_iff]
      show (name, bucket) ∈ shown a ↔ (name, bucket) ∈ shown b
      rw [mem_shown, mem_shown]
      exact and_congr_left (h name bucket)
    exact congrArg KeyMap.entries hsame

theorem solid_of_mem_shown {db : Database} (h : db.SolidNames) :
    ∀ entry ∈ shown db, ∀ c ∈ entry.1.toList, isBlank c = false :=
  fun entry hentry => h entry.1 entry.2 (mem_shown.mp hentry).1

/-! ## Splitting the text -/

theorem endsInWord_bucket (name : String) (contents : Bucket) : EndsInWord (bucket name contents) := by
  have hsolid : Text.Solid (Json.object contents).tree.pretty :=
    Tree.solid_laidOut (some 0) (Json.object contents).tree
  exact (EndsInWord.of_last hsolid.ne_nil hsolid.last).append _

/-- The name of a bucket and the text behind the line break after it. -/
theorem bucket_append (name : String) (contents : Bucket) (rest : List Char) :
    bucket name contents ++ rest =
      (name.toList ++ [':']) ++ '\n' :: ((Json.object contents).tree.prettyAt 0 ++ rest) := by
  simp [bucket, Tree.pretty]

theorem solid_colon {name : List Char} (h : ∀ c ∈ name, isBlank c = false) :
    ∀ c ∈ name ++ [':'], (!isBlank c) = true := by
  refine List.forall_mem_append.mpr ⟨fun c hc => ?_, by simp [isBlank]⟩
  rw [h c hc]
  rfl

/-- **The text of a bucket tells its name and its entries**, and shows where it ends. -/
theorem bucket_append_inj {name name' : String} {contents contents' : Bucket} {rest rest' : List Char}
    (hname : ∀ c ∈ name.toList, isBlank c = false) (hname' : ∀ c ∈ name'.toList, isBlank c = false)
    (h : bucket name contents ++ '\n' :: rest = bucket name' contents' ++ '\n' :: rest') :
    name = name' ∧ contents = contents' ∧ rest = rest' := by
  rw [bucket_append, bucket_append] at h
  -- the name ends at the line break behind the colon
  obtain ⟨hnames, htail⟩ := Text.run_append_inj (solid_colon hname) (solid_colon hname')
    (by simp [isBlank]) (by simp [isBlank]) h
  have hsame : name = name' := String.toList_inj.mp (List.append_cancel_right hnames)
  obtain ⟨htree, hrests⟩ := Tree.tells _ 0 _ _ _ (Tree.ends_cons (by decide) _)
    (Tree.ends_cons (by decide) _) (List.cons.inj htail).2
  exact ⟨hsame, Json.object_inj.mp (Json.ext_tree htree), (List.cons.inj hrests).2⟩

/-- The buckets with a line break behind each of them. -/
def bucketLines (entries : List (String × Bucket)) : List Char :=
  entries.flatMap fun entry => bucket entry.1 entry.2 ++ ['\n']

theorem bucketLines_cons (entry : String × Bucket) (entries : List (String × Bucket)) :
    bucketLines (entry :: entries) = bucket entry.1 entry.2 ++ '\n' :: bucketLines entries := by
  simp [bucketLines]

theorem bucketLines_cons_ne_nil (entry : String × Bucket) (entries : List (String × Bucket)) :
    bucketLines (entry :: entries) ≠ [] := by
  rw [bucketLines_cons]
  exact List.append_ne_nil_of_right_ne_nil _ (List.cons_ne_nil _ _)

/-- **The text of the buckets tells the buckets**: the first one ends somewhere in one way only, and so do
    the other ones behind it. -/
theorem bucketLines_inj {xs ys : List (String × Bucket)}
    (hxs : ∀ entry ∈ xs, ∀ c ∈ entry.1.toList, isBlank c = false)
    (hys : ∀ entry ∈ ys, ∀ c ∈ entry.1.toList, isBlank c = false)
    (h : bucketLines xs = bucketLines ys) : xs = ys := by
  induction xs generalizing ys with
  | nil =>
      cases ys with
      | nil => rfl
      | cons y ys => exact absurd h.symm (bucketLines_cons_ne_nil y ys)
  | cons x xs ih =>
      cases ys with
      | nil => exact absurd h (bucketLines_cons_ne_nil x xs)
      | cons y ys =>
          obtain ⟨hx, hxs⟩ := List.forall_mem_cons.mp hxs
          obtain ⟨hy, hys⟩ := List.forall_mem_cons.mp hys
          rw [bucketLines_cons, bucketLines_cons] at h
          obtain ⟨hname, hbucket, hlater⟩ := bucket_append_inj hx hy h
          rw [show x = y from Prod.ext hname hbucket, ih hxs hys hlater]

/-! ## The dump -/

theorem indices_of_nil {db : Database} (h : shown db = []) : indices db = "(no indices)".toList := by
  show (if (shown db).isEmpty then _ else _) = _
  rw [h]
  rfl

theorem indices_newline {db : Database} (h : shown db ≠ []) :
    indices db ++ ['\n'] = bucketLines (shown db) := by
  have htext : indices db = lines ((shown db).map fun entry => bucket entry.1 entry.2) := by
    show (if (shown db).isEmpty then _ else lines ((shown db).map _)) = _
    rw [if_neg (by simpa using h)]
  rw [htext, lines_newline (by simpa using h) ?_, bucketLines, List.flatMap_map]
  exact List.forall_mem_map.mpr fun entry _ => endsInWord_bucket entry.1 entry.2

/-- The notice of no buckets is not the text of any: behind its first word there is no line break. -/
theorem noIndices_ne {db : Database} (hsolid : db.SolidNames) (hne : shown db ≠ []) :
    indices db ≠ "(no indices)".toList := by
  intro h
  have hlines := indices_newline hne
  have hnames := solid_of_mem_shown hsolid
  obtain ⟨entry, entries, hshown⟩ := List.exists_cons_of_ne_nil hne
  rw [hshown] at hlines hnames
  have hnotice : "(no indices)".toList ++ ['\n'] = "(no".toList ++ " indices)\n".toList := by decide
  rw [h, hnotice, bucketLines_cons, bucket_append] at hlines
  obtain ⟨-, htail⟩ := Text.run_append_inj (p := fun c => !isBlank c) (by simp [isBlank])
    (solid_colon (hnames entry List.mem_cons_self)) (by simp [isBlank]) (by simp [isBlank]) hlines
  exact absurd (List.cons.inj htail).1 (by decide)

theorem indices_congr (h : shown a = shown b) : indices a = indices b := by
  unfold shown at h
  unfold indices
  rw [h]

/-- **The dump tells what it lists.** -/
theorem indices_eq_iff (ha : a.SolidNames) (hb : b.SolidNames) :
    indices a = indices b ↔ shown a = shown b := by
  refine ⟨fun h => ?_, indices_congr⟩
  by_cases hna : shown a = []
  · by_cases hnb : shown b = []
    · rw [hna, hnb]
    · rw [indices_of_nil hna] at h
      exact absurd h.symm (noIndices_ne hb hnb)
  · by_cases hnb : shown b = []
    · rw [indices_of_nil hnb] at h
      exact absurd h (noIndices_ne ha hna)
    · refine bucketLines_inj (solid_of_mem_shown ha) (solid_of_mem_shown hb) ?_
      rw [← indices_newline hna, ← indices_newline hnb, h]

end View

namespace Database

/-! ## Names -/

theorem isBlank_formatNumber (x : Binary64) : ∀ c ∈ Decimal.formatNumber x, isBlank c = false := by
  unfold Decimal.formatNumber
  split
  · simp [isBlank]
  split
  · split
    · simp [isBlank]
    · simp [isBlank]
  split
  · simp [isBlank]
  · exact fun c hc => Decimal.isBlank_of_numeral (Decimal.mem_finite (List.forall_mem_nil _) x c hc)

/-- The name of a range bucket holds no blank if the name of its field holds none. -/
theorem isBlank_rangeBucketName {field : String} (h : ∀ c ∈ field.toList, isBlank c = false)
    (low high : Binary64) : ∀ c ∈ (rangeBucketName field low high).toList, isBlank c = false := by
  rw [rangeBucketName_toList]
  refine List.forall_mem_append.mpr ⟨by simp [rangeMark, isBlank], List.forall_mem_append.mpr ⟨h, ?_⟩⟩
  refine List.forall_mem_cons.mpr ⟨by decide, List.forall_mem_append.mpr ⟨isBlank_formatNumber low, ?_⟩⟩
  exact List.forall_mem_cons.mpr ⟨by decide, isBlank_formatNumber high⟩

variable {db next : Database}

/-- A bucket that is put in under a name without blanks. -/
theorem SolidNames.replaceBucket (h : db.SolidNames) {name : String}
    (hname : ∀ c ∈ name.toList, isBlank c = false) (bucket : Bucket) :
    (db.replaceBucket name bucket).SolidNames := by
  intro other found hfound
  have hfound := (KeyMap.find?_insert _ _ _ _).symm.trans hfound
  split at hfound
  · rename_i hsame
    rwa [hsame]
  · exact h other found hfound

/-- **No step brings in a blank**: a new bucket is named by words of the line. -/
theorem Step.solidNames {now : Millis} {line : String} {reply : Option Reply}
    (h : Step db now line reply next) (hsolid : db.SolidNames) : next.SolidNames := by
  cases h with
  | keep _ => exact hsolid
  | store _ _ _ => exact hsolid
  | drop _ found =>
      intro name bucket hfound
      rw [remove_of_found found] at hfound
      have hfound := (KeyMap.find?_erase _ _ _).symm.trans hfound
      split at hfound
      · cases hfound
      · exact hsolid name bucket hfound
  | note names _ _ => exact hsolid.replaceBucket (names.arg_word _ List.mem_cons_self).2 _
  | scan names _ _ =>
      exact hsolid.replaceBucket
        (isBlank_rangeBucketName (names.arg_word _ List.mem_cons_self).2 _ _) _

/-- No run brings in a blank. By induction on the run from its end. -/
theorem solidNames_after (h : db.SolidNames) (script : Script) : (db.after script).SolidNames := by
  induction script using List.reverseRecOn with
  | nil => exact h
  | append_singleton script entry ih =>
      obtain ⟨now, line⟩ := entry
      rw [after_concat]
      exact (execute_step _ now line).solidNames ih

/-! ## What the dump tells -/

/-- A bucket without entries does not show: it may be there or not. -/
theorem indicesView_congr {a b : Database} {name : String}
    (hothers : b.indices.AgreesExcept name a.indices)
    (ha : ∀ bucket, a.bucket? name = some bucket → bucket.isEmpty = true)
    (hb : ∀ bucket, b.bucket? name = some bucket → bucket.isEmpty = true) :
    b.indicesView = a.indicesView := by
  refine congrArg String.ofList (View.indices_congr (View.shown_eq_iff.mpr ?_))
  intro other bucket hne
  by_cases hother : other = name
  · subst hother
    have hfull : bucket.isEmpty ≠ true := Bool.eq_false_iff.mp hne
    exact ⟨fun h => absurd (hb bucket h) hfull, fun h => absurd (ha bucket h) hfull⟩
  · rw [bucket?, bucket?, hothers other hother]

/-- **The dump is unambiguous.** Two databases, none of whose buckets has a blank in its name, have the same
    dump exactly if they have the same buckets, the empty ones apart: the same names, fields and values, where
    an integer is not the number of the same size that is written with a fraction, and zero has a sign. A
    bucket that is empty does not show, whether it is taken away or put in. Names that come from commands
    hold no blank. -/
theorem indicesView_eq_iff {a b : Database} (ha : a.SolidNames) (hb : b.SolidNames) :
    (a.indicesView = b.indicesView ↔
      ∀ name bucket, bucket.isEmpty = false →
        (a.bucket? name = some bucket ↔ b.bucket? name = some bucket)) ∧
    (∀ name, (∀ bucket, a.bucket? name = some bucket → bucket.isEmpty = true) →
      ({ a with indices := a.indices.erase name } : Database).indicesView = a.indicesView ∧
      (a.replaceBucket name KeyMap.empty).indicesView = a.indicesView) ∧
    ∀ script, (a.after script).SolidNames := by
  refine ⟨?_, ?_, solidNames_after ha⟩
  · rw [indicesView, indicesView, String.ofList_inj, View.indices_eq_iff ha hb, View.shown_eq_iff]
  · intro name hempty
    refine ⟨indicesView_congr (KeyMap.agreesExcept_erase _ _) hempty fun bucket hbucket => ?_,
      indicesView_congr (KeyMap.agreesExcept_insert _ _ _) hempty fun bucket hbucket => ?_⟩
    · rw [bucket?, KeyMap.find?_erase_self] at hbucket
      cases hbucket
    · obtain rfl := Option.some.inj ((KeyMap.find?_insert_self _ _ _).symm.trans hbucket)
      rfl

/-- Buckets with the same name and field, of which one holds an integer and one does not. -/
theorem indicesView_eq_iff_braces :
    let bucket (n : Number) : Bucket := KeyMap.empty.insert "\x7d" (Json.number n)
    let whole := empty.replaceBucket "\x7b" (bucket (.integer 1 (by decide) (by decide)))
    let fraction := empty.replaceBucket "\x7b" (bucket (.binary (Binary64.ofInt 1) (by decide +kernel)))
    whole.SolidNames ∧ fraction.SolidNames ∧ whole.indicesView ≠ fraction.indicesView ∧
      (whole.replaceBucket "\x7d:" KeyMap.empty).indicesView = whole.indicesView := by
  intro bucket whole fraction
  have hempty : empty.SolidNames := fun _ _ h => nomatch h
  have hwhole : whole.SolidNames := hempty.replaceBucket (by simp [isBlank]) _
  have hfraction : fraction.SolidNames := hempty.replaceBucket (by simp [isBlank]) _
  obtain ⟨htells, hempties, -⟩ := indicesView_eq_iff hwhole hfraction
  refine ⟨hwhole, hfraction, fun hsame => ?_, (hempties "\x7d:" ?_).2⟩
  · have hfound := (htells.mp hsame "\x7b" (bucket (.integer 1 (by decide) (by decide))) rfl).mp rfl
    exact absurd hfound (by decide +kernel)
  · intro other hother
    exact absurd hother (by simp [whole, replaceBucket, bucket?, KeyMap.find?_insert, empty])

end Database

end DocStore
