import DocStore.Proofs.NumericFields

/-!
# Scans of a range

A scan reads the payloads of a database and nothing else: no lifetime, no validation set, no bucket and no
clock. So a RANGE on equal payloads has one answer, and what it writes is not among what it reads. As
functions of their bounds, scans behave like intervals: they can be cut at a number between the bounds, they
grow with the interval, and between the infinities they find every field that has a number.

## Contents
- `Database.rangeScan_eq_filterMap`, `Database.rangeScan_of_payloads`: a scan is a function of the payloads.
- `Database.range_cases`: when a RANGE fails, and what it does otherwise.
- `Database.range_of_payloads`: **a RANGE depends on the payloads alone, and a second one changes nothing**.
- `Binary64.Within`: the numbers between two bounds, with the laws of intervals.
- `Database.HasNumber`, `Database.find?_rangeScan_eq_some_iff`: what a scan finds.
- `Database.rangeScan_intervals`: **scans compose as their intervals do**.
-/

namespace DocStore

/-- An entry that is put twice is the one that was put last. -/
theorem KeyMap.insert_insert {α : Type} (m : KeyMap α) (key : String) (first second : α) :
    (m.insert key first).insert key second = m.insert key second := by
  refine KeyMap.ext_find? fun other => ?_
  rw [find?_insert, find?_insert, find?_insert]
  split <;> rfl

/-- A map is empty exactly if nothing is found in it. -/
theorem KeyMap.eq_empty_iff {α : Type} (m : KeyMap α) :
    m = KeyMap.empty ↔ ∀ key, m.find? key = none :=
  ⟨fun h key => by rw [h, find?_empty], fun h => ext_find? fun key => by rw [h key, find?_empty]⟩

namespace Database

variable {a b : Database}

/-! ## Payloads -/

/-- The payloads of the documents by their keys. -/
def payloads (db : Database) : KeyMap Payload :=
  db.documents.map Record.payload

/-- A scan is a function of the payloads. -/
theorem rangeScan_eq_filterMap (db : Database) (field : String) (low high : Binary64) :
    db.rangeScan field low high =
      db.payloads.filterMap fun payload =>
        (payload.find? field).bind fun value => if inRange low high value then some payload else none := by
  refine KeyMap.ext_find? fun key => ?_
  rw [find?_rangeScan, KeyMap.find?_filterMap, payloads, KeyMap.find?_map, Option.bind_map]
  rfl

theorem rangeScan_of_payloads (h : a.payloads = b.payloads) (field : String) (low high : Binary64) :
    a.rangeScan field low high = b.rangeScan field low high := by
  rw [rangeScan_eq_filterMap, rangeScan_eq_filterMap, h]

/-! ## Queries -/

section Queries

variable {line : String} {args : List String}

/-- A RANGE without a field or with a bound that is no number fails, and in every database alike. -/
theorem range_of_not_asks (h : ∀ field low high, ¬ Asks args field low high) :
    ∃ error, ∀ db : Database, db.range args = .error error := by
  cases args with
  | nil => exact ⟨_, fun _ => rfl⟩
  | cons field rest =>
      refine ⟨.nonNumericRange ((rest[0]?).getD "") ((rest[1]?).getD ""), fun db => ?_⟩
      unfold range
      dsimp only
      split
      · rename_i low high hlow hhigh
        exact absurd ⟨rest, rfl, hlow, hhigh⟩ (h field low high)
      · rfl

/-- What a RANGE does in all databases with given payloads. Its arguments alone decide whether it fails; if
    it does not, the payloads decide what it writes. -/
theorem range_cases (db : Database) (hnames : Names line .range args) :
    (∃ error, (∀ field low high, ¬ Asks args field low high) ∧
      ∀ (other : Database) (time : Millis),
        other.execute time line = (some ⟨some .range, .error error⟩, other)) ∨
    ∃ field low high, Asks args field low high ∧
      ∀ (other : Database) (time : Millis), other.payloads = db.payloads →
        other.execute time line =
          (some ⟨some .range, .ok (matchesText ((db.rangeScan field low high).map Json.object))⟩,
            other.replaceBucket (rangeBucketName field low high)
              ((db.rangeScan field low high).map Json.object)) := by
  by_cases hasks : ∃ field low high, Asks args field low high
  · obtain ⟨field, low, high, hasks⟩ := hasks
    refine Or.inr ⟨field, low, high, hasks, fun other time hpayloads => ?_⟩
    rw [execute_of_asks other time hnames hasks, rangeScan_of_payloads hpayloads]
  · have hnone : ∀ field low high, ¬ Asks args field low high :=
      fun field low high h => hasks ⟨field, low, high, h⟩
    obtain ⟨error, hfails⟩ := range_of_not_asks hnone
    refine Or.inl ⟨error, hnone, fun other time => ?_⟩
    rw [execute_of_names hnames]
    simp only [run, hfails other]

end Queries

/-! ## Two databases, and one line twice -/

/-- **A RANGE depends on the payloads alone**, and a second one changes nothing. Take two databases with the
    same payloads under the same keys, whatever their lifetimes, validation sets and buckets are, and two
    times. A line with RANGE has one reply in both. If its arguments do not start with a field and two
    numbers, it fails and changes neither. Otherwise one bucket is then found under one name in both, all
    other buckets and all documents are as they were, and the reply is the notice of an empty range exactly
    if that bucket is empty, and the text of the bucket if it is not. When the line is repeated at any time,
    reply and database are those of the first run. -/
theorem range_of_payloads {now later : Millis} {line : String} {args : List String}
    (hpayloads : a.payloads = b.payloads) (hnames : Names line .range args) :
    (a.execute now line).1 = (b.execute later line).1 ∧
    ((∃ error, (∀ field low high, ¬ Asks args field low high) ∧
        a.execute now line = (some ⟨some .range, .error error⟩, a) ∧
        b.execute later line = (some ⟨some .range, .error error⟩, b)) ∨
      ∃ (field : String) (low high : Binary64) (bucket : Bucket) (text : String) (first second : Database),
        Asks args field low high ∧ bucket = (a.rangeScan field low high).map Json.object ∧
        a.execute now line = (some ⟨some .range, .ok text⟩, first) ∧
        b.execute later line = (some ⟨some .range, .ok text⟩, second) ∧
        first.bucket? (rangeBucketName field low high) = some bucket ∧
        second.bucket? (rangeBucketName field low high) = some bucket ∧
        first.indices.AgreesExcept (rangeBucketName field low high) a.indices ∧
        second.indices.AgreesExcept (rangeBucketName field low high) b.indices ∧
        first.documents = a.documents ∧ second.documents = b.documents ∧
        (text = Texts.noResults ↔ bucket.isEmpty = true) ∧
        (bucket.isEmpty = false → text = (Json.object bucket).pretty)) ∧
    ∀ again, (a.execute now line).2.execute again line = a.execute now line := by
  rcases range_cases a hnames with ⟨error, hnone, hfails⟩ | ⟨field, low, high, hasks, hwrites⟩
  · refine ⟨?_, Or.inl ⟨error, hnone, hfails a now, hfails b later⟩, fun again => ?_⟩
    · rw [hfails a now, hfails b later]
    · rw [hfails a now, hfails a again]
  · have ha := hwrites a now rfl
    have hb := hwrites b later hpayloads.symm
    -- the bucket that was written is no document, so the second run meets the same payloads
    have hsecond := fun again => hwrites (a.execute now line).2 again (by rw [ha]; rfl)
    obtain ⟨hdocuments, hframe, hfound⟩ := replaceBucket_effect a (rangeBucketName field low high)
      ((a.rangeScan field low high).map Json.object)
    obtain ⟨hdocuments', hframe', hfound'⟩ := replaceBucket_effect b (rangeBucketName field low high)
      ((a.rangeScan field low high).map Json.object)
    refine ⟨?_, Or.inr ⟨field, low, high, _, _, _, _, hasks, rfl, ha, hb, hfound, hfound', hframe, hframe',
      hdocuments, hdocuments', matchesText_eq_noResults_iff _, matchesText_of_matches⟩, fun again => ?_⟩
    · rw [ha, hb]
    · rw [hsecond again, ha, replaceBucket, replaceBucket, KeyMap.insert_insert]

/-- Two databases with one document: in one of them it has expired, and there is a bucket already. Both
    runs show and write the same matches. -/
theorem range_of_payloads_expired : ∃ a b : Database, ∃ payload : Payload,
    a.payloads = b.payloads ∧ Names "RANGE n 0 5" .range ["n", "0", "5"] ∧ a ≠ b ∧
      (a.execute 0 "RANGE n 0 5").1 = (b.execute 9 "RANGE n 0 5").1 ∧
      (b.execute 9 "RANGE n 0 5").1 =
        some ⟨some .range, .ok (Json.object (KeyMap.ofList [("k", Json.object payload)])).pretty⟩ ∧
      (a.execute 0 "RANGE n 0 5").2.bucket? "RANGE:n:0-5" =
        some (KeyMap.ofList [("k", Json.object payload)]) ∧
      (b.execute 9 "RANGE n 0 5").2.bucket? "RANGE:n:0-5" =
        some (KeyMap.ofList [("k", Json.object payload)]) ∧
      (b.execute 9 "RANGE n 0 5").2.execute 12 "RANGE n 0 5" = b.execute 9 "RANGE n 0 5" := by
  have hnames : Names "RANGE n 0 5" .range ["n", "0", "5"] :=
    ⟨⟨"RANGE", ["n", "0", "5"]⟩, by decide +kernel, by decide, rfl⟩
  let payload : Payload := KeyMap.ofList [("n", Json.string "3")]
  let a := empty.insert "k" ⟨payload, none, none, KeyMap.empty, KeyMap.empty⟩
  let b := (empty.insert "k" ⟨payload, some 1, some 1, KeySet.ofTexts ["m"], KeyMap.empty⟩).setIndexEntry
    "RANGE:n:0-5" "k" Json.null
  have hpayloads : a.payloads = b.payloads := by decide +kernel
  have hdiffer : a ≠ b := by decide +kernel
  obtain ⟨hreplies, hruns, -⟩ := @range_of_payloads a b 0 9 _ _ hpayloads hnames
  have hagain := (@range_of_payloads b a 9 0 _ _ hpayloads.symm hnames).2.2 12
  have hasked : Asks ["n", "0", "5"] "n" (Binary64.ofInt 0) (Binary64.ofInt 5) :=
    ⟨["0", "5"], rfl, by decide +kernel, by decide +kernel⟩
  have hname : rangeBucketName "n" (Binary64.ofInt 0) (Binary64.ofInt 5) = "RANGE:n:0-5" := by
    decide +kernel
  have hscan : (a.rangeScan "n" (Binary64.ofInt 0) (Binary64.ofInt 5)).map Json.object =
      KeyMap.ofList [("k", Json.object payload)] := by decide +kernel
  have hmatch : (KeyMap.ofList [("k", Json.object payload)]).isEmpty = false := by decide +kernel
  rcases hruns with ⟨error, hnone, -⟩ |
    ⟨field, low, high, bucket, text, first, second, hasks, hbucket, ha, hb, hfirst, hsecond, -, -, -, -,
      -, hshown⟩
  · exact absurd hasked (hnone _ _ _)
  · obtain ⟨rfl, rfl, rfl⟩ := hasked.unique hasks
    rw [hscan] at hbucket
    subst hbucket
    rw [hname] at hfirst hsecond
    rw [hshown hmatch] at hb
    refine ⟨a, b, payload, hpayloads, hnames, hdiffer, hreplies, ?_, ?_, ?_, hagain⟩
    · rw [hb]
    · rw [ha]
      exact hfirst
    · rw [hb]
      exact hsecond

end Database

/-! ## Intervals -/

namespace Binary64

/-- Whether a number lies between two bounds, the bounds included. -/
def Within (low high x : Binary64) : Prop :=
  low.le x = true ∧ x.le high = true

variable {low high x y z : Binary64}

/-- The order of numbers is that of their places. -/
theorem le_iff : x.le y = true ↔ x.isNaN = false ∧ y.isNaN = false ∧ x.rank ≤ y.rank := by
  unfold le
  simp only [Bool.and_eq_true, Bool.not_eq_true', decide_eq_true_eq, and_assoc]

theorem le_trans (h : x.le y = true) (h' : y.le z = true) : x.le z = true := by
  obtain ⟨hx, -, hxy⟩ := le_iff.mp h
  obtain ⟨-, hz, hyz⟩ := le_iff.mp h'
  exact le_iff.mpr ⟨hx, hz, Int.le_trans hxy hyz⟩

/-- Two numbers can be compared, unless one of them is no number. -/
theorem le_total (hx : x.isNaN = false) (hy : y.isNaN = false) : x.le y = true ∨ y.le x = true := by
  rcases Int.le_total x.rank y.rank with h | h
  · exact Or.inl (le_iff.mpr ⟨hx, hy, h⟩)
  · exact Or.inr (le_iff.mpr ⟨hy, hx, h⟩)

/-- Every number lies between the infinities. -/
theorem within_infinity (h : x.isNaN = false) : Within (infinity true) (infinity false) x := by
  have hcode : x.code ≤ infinityCode := Nat.not_lt.mp (of_decide_eq_false h)
  have hrank : -(infinityCode : Int) ≤ x.rank ∧ x.rank ≤ infinityCode := by
    unfold rank
    split <;> omega
  exact ⟨le_iff.mpr ⟨rfl, h, hrank.1⟩, le_iff.mpr ⟨h, rfl, hrank.2⟩⟩

theorem Within.mono {low' high' : Binary64} (h : Within low high x) (hlow : low'.le low = true)
    (hhigh : high.le high' = true) : Within low' high' x :=
  ⟨le_trans hlow h.1, le_trans h.2 hhigh⟩

/-- An interval is cut at a number between its ends. -/
theorem within_cut {middle : Binary64} (hlow : low.le middle = true) (hhigh : middle.le high = true) :
    Within low high x ↔ Within low middle x ∨ Within middle high x := by
  constructor
  · rintro ⟨hl, hh⟩
    rcases le_total (le_iff.mp hl).2.1 (le_iff.mp hlow).2.1 with h | h
    · exact Or.inl ⟨hl, h⟩
    · exact Or.inr ⟨h, hh⟩
  · rintro (⟨hl, hm⟩ | ⟨hm, hh⟩)
    · exact ⟨hl, le_trans hm hhigh⟩
    · exact ⟨le_trans hlow hm, hh⟩

/-- The two parts meet in the number at which the interval was cut. -/
theorem within_both {middle : Binary64} (hlow : low.le middle = true) (hhigh : middle.le high = true) :
    Within low middle x ∧ Within middle high x ↔ x.Same middle := by
  constructor
  · rintro ⟨⟨-, h⟩, h', -⟩
    exact ⟨h, h'⟩
  · rintro ⟨h, h'⟩
    exact ⟨⟨le_trans hlow h', h⟩, h', le_trans h hhigh⟩

end Binary64

open Binary64 (Within)

/-- What a value is compared by is never one of the values that are no numbers. -/
theorem Json.isNaN_of_numeric {value : Json} {x : Binary64} (h : value.numeric? = some x) :
    x.isNaN = false := by
  obtain ⟨y, -, hsame⟩ := Json.parseNumber_canonical h
  exact hsame.isNaN.2

namespace Database

variable {db : Database} {field key : String} {low high : Binary64} {payload : Payload}

/-! ## Scans of intervals -/

/-- Whether a payload is that of the document with a key, and a number is that of its field. -/
def HasNumber (db : Database) (field key : String) (payload : Payload) (x : Binary64) : Prop :=
  db.payloads.find? key = some payload ∧ (payload.find? field).bind Json.numeric? = some x

theorem HasNumber.isNaN {x : Binary64} (h : db.HasNumber field key payload x) : x.isNaN = false := by
  obtain ⟨value, -, hx⟩ := Option.bind_eq_some_iff.mp h.2
  exact Json.isNaN_of_numeric hx

/-- A document has one payload, and a field one number. -/
theorem HasNumber.unique {payload' : Payload} {x y : Binary64} (h : db.HasNumber field key payload x)
    (h' : db.HasNumber field key payload' y) : payload = payload' ∧ x = y := by
  obtain rfl := Option.some.inj (h.1.symm.trans h'.1)
  exact ⟨rfl, Option.some.inj (h.2.symm.trans h'.2)⟩

theorem inRange_iff {value : Json} :
    inRange low high value = true ↔ ∃ x, value.numeric? = some x ∧ Within low high x := by
  unfold inRange
  cases value.numeric? with
  | none => simp
  | some n =>
      constructor
      · exact fun h => ⟨n, rfl, Bool.and_eq_true_iff.mp h⟩
      · rintro ⟨x, hx, hbetween⟩
        obtain rfl := Option.some.inj hx
        exact Bool.and_eq_true_iff.mpr hbetween

/-- **What a scan finds** are the documents whose field has a number in the interval. -/
theorem find?_rangeScan_eq_some_iff :
    (db.rangeScan field low high).find? key = some payload ↔
      ∃ x, db.HasNumber field key payload x ∧ Within low high x := by
  rw [rangeScan_eq_filterMap, KeyMap.find?_filterMap]
  constructor
  · intro h
    obtain ⟨held, hheld, h⟩ := Option.bind_eq_some_iff.mp h
    obtain ⟨value, hvalue, h⟩ := Option.bind_eq_some_iff.mp h
    obtain ⟨hbetween, hsame⟩ := Option.ite_none_right_eq_some.mp h
    obtain rfl := Option.some.inj hsame
    obtain ⟨x, hx, hwithin⟩ := inRange_iff.mp hbetween
    exact ⟨x, ⟨hheld, Option.bind_eq_some_iff.mpr ⟨value, hvalue, hx⟩⟩, hwithin⟩
  · rintro ⟨x, ⟨hheld, hnumber⟩, hwithin⟩
    obtain ⟨value, hvalue, hx⟩ := Option.bind_eq_some_iff.mp hnumber
    rw [hheld, Option.bind_some, hvalue, Option.bind_some, if_pos (inRange_iff.mpr ⟨x, hx, hwithin⟩)]

theorem contains_rangeScan_iff :
    (db.rangeScan field low high).contains key = true ↔
      ∃ payload x, db.HasNumber field key payload x ∧ Within low high x := by
  rw [KeyMap.contains, Option.isSome_iff_exists]
  exact exists_congr fun payload => find?_rangeScan_eq_some_iff

/-- A scan is the union of the scans of its two parts. -/
theorem find?_rangeScan_cut {middle : Binary64} (hlow : low.le middle = true)
    (hhigh : middle.le high = true) :
    (db.rangeScan field low high).find? key = some payload ↔
      (db.rangeScan field low middle).find? key = some payload ∨
        (db.rangeScan field middle high).find? key = some payload := by
  simp only [find?_rangeScan_eq_some_iff, Binary64.within_cut hlow hhigh, and_or_left, exists_or]

/-- What the scans of both parts find are the documents whose field equals the number at the cut. -/
theorem contains_both_iff {middle : Binary64} (hlow : low.le middle = true)
    (hhigh : middle.le high = true) :
    (db.rangeScan field low middle).contains key = true ∧
        (db.rangeScan field middle high).contains key = true ↔
      ∃ payload x, db.HasNumber field key payload x ∧ x.Same middle := by
  rw [contains_rangeScan_iff, contains_rangeScan_iff]
  constructor
  · rintro ⟨⟨payload, x, hx, hlower⟩, payload', y, hy, hupper⟩
    obtain ⟨rfl, rfl⟩ := hx.unique hy
    exact ⟨payload, x, hx, (Binary64.within_both hlow hhigh).mp ⟨hlower, hupper⟩⟩
  · rintro ⟨payload, x, hx, hsame⟩
    obtain ⟨hlower, hupper⟩ := (Binary64.within_both hlow hhigh).mpr hsame
    exact ⟨⟨payload, x, hx, hlower⟩, payload, x, hx, hupper⟩

/-- A scan finds no less than that of an interval within its own. -/
theorem find?_rangeScan_mono {low' high' : Binary64}
    (hwithin : ∀ x, Within low high x → Within low' high' x)
    (hfound : (db.rangeScan field low high).find? key = some payload) :
    (db.rangeScan field low' high').find? key = some payload := by
  obtain ⟨x, hx, hbetween⟩ := find?_rangeScan_eq_some_iff.mp hfound
  exact find?_rangeScan_eq_some_iff.mpr ⟨x, hx, hwithin x hbetween⟩

/-- Between bounds in the wrong order nothing is found. -/
theorem rangeScan_eq_empty (hnot : low.le high = false) : db.rangeScan field low high = KeyMap.empty := by
  refine (KeyMap.eq_empty_iff _).mpr fun key => Option.eq_none_iff_forall_ne_some.mpr ?_
  intro payload hfound
  obtain ⟨x, -, hlow, hhigh⟩ := find?_rangeScan_eq_some_iff.mp hfound
  rw [Binary64.le_trans hlow hhigh] at hnot
  cases hnot

/-- Between the infinities everything is found that has a number. -/
theorem find?_rangeScan_infinity_iff :
    (db.rangeScan field (Binary64.infinity true) (Binary64.infinity false)).find? key = some payload ↔
      ∃ x, db.HasNumber field key payload x := by
  rw [find?_rangeScan_eq_some_iff]
  exact exists_congr fun x => and_iff_left_of_imp fun hx => Binary64.within_infinity hx.isNaN

/-- **Scans compose as their intervals do.** A scan of an interval is the union of the scans of its two parts
    at a number between its ends, and the documents that both parts find are those whose field equals that
    number, with either sign if it is zero. The scan of an interval within another one finds nothing that
    the other does not find; an interval lies within every one whose ends are further out. A scan finds
    nothing if its lower bound is neither below its upper one nor equal to it. Between the infinities it
    finds exactly the documents whose field has a number. The bounds that a RANGE can have are numbers, and
    so are the values it compares with them: each lies between the infinities. -/
theorem rangeScan_intervals (db : Database) (field : String) :
    (∀ low middle high, low.le middle = true → middle.le high = true → ∀ key,
      (∀ payload, (db.rangeScan field low high).find? key = some payload ↔
        (db.rangeScan field low middle).find? key = some payload ∨
          (db.rangeScan field middle high).find? key = some payload) ∧
      ((db.rangeScan field low middle).contains key = true ∧
          (db.rangeScan field middle high).contains key = true ↔
        ∃ payload x, db.HasNumber field key payload x ∧ x.Same middle)) ∧
    (∀ low high low' high', (∀ x, Within low high x → Within low' high' x) →
      ∀ key payload, (db.rangeScan field low high).find? key = some payload →
        (db.rangeScan field low' high').find? key = some payload) ∧
    (∀ low high low' high' : Binary64, low'.le low = true → high.le high' = true →
      ∀ x, Within low high x → Within low' high' x) ∧
    (∀ low high, low.le high = false → db.rangeScan field low high = KeyMap.empty) ∧
    (∀ key payload,
      (db.rangeScan field (Binary64.infinity true) (Binary64.infinity false)).find? key = some payload ↔
        ∃ x, db.HasNumber field key payload x) ∧
    (∀ text x, Decimal.parseNumber text = some x → x.isNaN = false) ∧
    ∀ (value : Json) x, value.numeric? = some x →
      Within (Binary64.infinity true) (Binary64.infinity false) x := by
  refine ⟨?_, ?_, ?_, ?_, ?_, ?_, ?_⟩
  · intro low middle high hlow hhigh key
    exact ⟨fun payload => find?_rangeScan_cut hlow hhigh, contains_both_iff hlow hhigh⟩
  · exact fun low high low' high' hwithin key payload => find?_rangeScan_mono hwithin
  · exact fun low high low' high' hlow hhigh x h => h.mono hlow hhigh
  · exact fun low high hnot => rangeScan_eq_empty hnot
  · exact fun key payload => find?_rangeScan_infinity_iff
  · exact fun text x h => Decimal.isNaN_of_parseNumber h
  · exact fun value x h => Binary64.within_infinity (Json.isNaN_of_numeric h)

/-- A negative zero is found on both sides of zero. -/
theorem rangeScan_intervals_negative_zero :
    let db := empty.insert "k" (Record.create (KeyMap.ofList [("n", Json.string "-0")]) none 0)
    (Binary64.ofInt (-5)).le (Binary64.zero false) = true ∧
      (Binary64.zero false).le (Binary64.ofInt 5) = true ∧
      (db.rangeScan "n" (Binary64.ofInt (-5)) (Binary64.zero false)).contains "k" = true ∧
      (db.rangeScan "n" (Binary64.zero false) (Binary64.ofInt 5)).contains "k" = true := by
  intro db
  have hlow : (Binary64.ofInt (-5)).le (Binary64.zero false) = true := by decide +kernel
  have hhigh : (Binary64.zero false).le (Binary64.ofInt 5) = true := by decide +kernel
  have hnumber : db.HasNumber "n" "k" (KeyMap.ofList [("n", Json.string "-0")]) (Binary64.zero true) :=
    ⟨by decide +kernel, by decide +kernel⟩
  have hsame : (Binary64.zero true).Same (Binary64.zero false) := ⟨by decide, by decide⟩
  have hboth := ((rangeScan_intervals db "n").1 _ _ _ hlow hhigh "k").2.mpr ⟨_, _, hnumber, hsame⟩
  exact ⟨hlow, hhigh, hboth.1, hboth.2⟩

end Database

end DocStore
