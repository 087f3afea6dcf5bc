import DocStore.Proofs.Decimal.Grammar
import DocStore.Proofs.Effects

/-!
# What a RANGE finds

A RANGE compares a value with its bounds after each of the three has been rounded to a number on its own.
Since rounding keeps the order, no document is missed whose exact value lies between the exact bounds, at
the ends included, whatever the size and the length of the literals. A document may be found that lies
outside by less than rounding moves it, but not if value and bounds are numbers themselves.

## Contents
- `Tree.Denotes`: values with the exact numbers that they stand for; `Tree.Unnumbered`: the others.
- `Tree.Denotes.numeric`, `Tree.denotes_or_unnumbered`: a value has the number to which its exact one is
  rounded, or none.
- `Database.find?_rangeScan`: what a scan finds, one document at a time.
- `Database.matchesText_eq_noResults_iff`, `Database.matchesText_of_matches`: the notice that nothing was
  found, and the text of all matches.
- `Database.Asks`, `Database.execute_of_asks`: a RANGE with a field and two numbers, and what it does.
- `Database.execute_range`: what a RANGE between two literals does; `Database.range_self`: between a literal
  and itself.
- `Database.range_matches`: **which documents a RANGE finds**.
-/

namespace DocStore

open Binary64 (RoundsTo Representable)

/-! ## Exact values of documents -/

namespace Tree

/-- Values with the exact numbers that they stand for: an integer, a binary number, or a string that is a
    literal. -/
inductive Denotes : Tree → Extended → Prop
  | integer (value : Int) (lower : -0x8000000000000000 ≤ value) (upper : value < 0x10000000000000000) :
      Denotes (.number (.integer value lower upper)) ((value : ℚ) : Extended)
  | binary (x : Binary64) (finite : x.isFinite = true) :
      Denotes (.number (.binary x finite)) x.exactValue
  | string {s : String} {v : Extended} (literal : Decimal.Denotes s.toList v) : Denotes (.string s) v

/-- Values that stand for no number. -/
inductive Unnumbered : Tree → Prop
  | null : Unnumbered .null
  | bool (value : Bool) : Unnumbered (.bool value)
  | array (items : List Tree) : Unnumbered (.array items)
  | object (members : List (String × Tree)) : Unnumbered (.object members)
  | string {s : String} (other : Decimal.parseNumber s.toList = none) : Unnumbered (.string s)

variable {tree : Tree} {v w : Extended}

/-- A finite number is a number. -/
theorem isNaN_of_isFinite {x : Binary64} (h : x.isFinite = true) : x.isNaN = false :=
  decide_eq_false (Nat.not_lt.mpr (Nat.le_of_lt (of_decide_eq_true h)))

/-- **The number of a value** is the one to which its exact value is rounded. -/
theorem Denotes.numeric (h : tree.Denotes v) : ∃ x, tree.numeric? = some x ∧ RoundsTo v x := by
  cases h with
  | integer value lower upper => exact ⟨_, rfl, Binary64.roundsTo_ofInt value⟩
  | binary x finite => exact ⟨x, rfl, Binary64.roundsTo_exactValue (isNaN_of_isFinite finite)⟩
  | string literal => exact literal.read

theorem Unnumbered.numeric (h : tree.Unnumbered) : tree.numeric? = none := by
  cases h with
  | null => rfl
  | bool value => rfl
  | array items => rfl
  | object members => rfl
  | string other => exact other

theorem Denotes.unique (h : tree.Denotes v) (h' : tree.Denotes w) : v = w := by
  cases h with
  | integer value lower upper =>
      cases h'
      rfl
  | binary x finite =>
      cases h'
      rfl
  | string literal =>
      cases h' with
      | string literal' => exact literal.unique literal'

/-- A value stands for a number or does not. -/
theorem denotes_or_unnumbered (tree : Tree) : (∃ v, tree.Denotes v) ∨ tree.Unnumbered := by
  cases tree with
  | null => exact Or.inr .null
  | bool value => exact Or.inr (.bool value)
  | number value =>
      cases value with
      | integer value lower upper => exact Or.inl ⟨_, .integer value lower upper⟩
      | binary x finite => exact Or.inl ⟨_, .binary x finite⟩
  | string s =>
      cases hread : Decimal.parseNumber s.toList with
      | none => exact Or.inr (.string hread)
      | some x =>
          obtain ⟨v, hv, -⟩ := Decimal.denotes_of_parseNumber hread
          exact Or.inl ⟨v, .string hv⟩
  | array items => exact Or.inr (.array items)
  | object members => exact Or.inr (.object members)

end Tree

theorem KeyMap.isEmpty_map {α β : Type} (m : KeyMap α) (f : α → β) : (m.map f).isEmpty = m.isEmpty :=
  List.isEmpty_map

namespace Database

/-! ## Replies -/

/-- The text of an object starts with a brace. -/
theorem head_pretty_object (members : KeyMap Json) :
    (Json.object members).pretty.toList.head? = some '\x7b' := by
  rw [Json.pretty, String.toList_ofList]
  show (Tree.block 0 '\x7b' '\x7d' _).head? = _
  unfold Tree.block
  split <;> rfl

/-- The reply to an empty bucket is no reply to another one. -/
theorem matchesText_eq_noResults_iff (bucket : Bucket) :
    matchesText bucket = Texts.noResults ↔ bucket.isEmpty = true := by
  unfold matchesText
  split
  · rename_i hempty
    exact ⟨fun _ => hempty, fun _ => rfl⟩
  · rename_i hempty
    refine ⟨fun htext => ?_, fun h => absurd h hempty⟩
    have hhead := head_pretty_object bucket
    rw [htext] at hhead
    exact absurd hhead (by decide)

/-- The reply to any other bucket is its text. -/
theorem matchesText_of_matches {bucket : Bucket} (h : bucket.isEmpty = false) :
    matchesText bucket = (Json.object bucket).pretty := by
  rw [matchesText, h, if_neg Bool.false_ne_true]

variable {db : Database} {field key : String} {start stop : Binary64}

/-! ## Scans -/

/-- What a scan finds under a key. -/
theorem find?_rangeScan (db : Database) (field : String) (start stop : Binary64) (key : String) :
    (db.rangeScan field start stop).find? key =
      (db.find? key).bind fun record => (record.field? field).bind fun value =>
        if inRange start stop value then some record.payload else none := by
  rw [rangeScan, KeyMap.find?_filterMap]
  congr 1
  funext record
  cases record.field? field <;> rfl

variable {record : Record} {value : Json} (hrecord : db.find? key = some record)

include hrecord

/-- A document whose field has a number is found if the number lies between the bounds. -/
theorem find?_rangeScan_of_numeric (hvalue : record.field? field = some value) {x : Binary64}
    (hx : value.numeric? = some x) :
    (db.rangeScan field start stop).find? key =
      if start.le x && x.le stop then some record.payload else none := by
  rw [find?_rangeScan, hrecord, Option.bind_some, hvalue, Option.bind_some, inRange, hx]

/-- A document without the field, or without a number in it, is not found. -/
theorem find?_rangeScan_of_unnumbered
    (h : record.field? field = none ∨ ∃ value, record.field? field = some value ∧ value.tree.Unnumbered) :
    (db.rangeScan field start stop).find? key = none := by
  rw [find?_rangeScan, hrecord, Option.bind_some]
  rcases h with hnone | ⟨value, hvalue, hunnumbered⟩
  · rw [hnone]
    rfl
  · have hnumeric : value.numeric? = none := hunnumbered.numeric
    rw [hvalue, Option.bind_some, inRange, hnumeric]
    rfl

omit hrecord

/-! ## Queries -/

/-- Whether the arguments of a RANGE start with a field and two numbers. -/
def Asks (args : List String) (field : String) (low high : Binary64) : Prop :=
  ∃ rest, args = field :: rest ∧ Decimal.parseNumber ((rest[0]?).getD "").toList = some low ∧
    Decimal.parseNumber ((rest[1]?).getD "").toList = some high

/-- Arguments start with one field and one pair of numbers. -/
theorem Asks.unique {args : List String} {other : String} {low high low' high' : Binary64}
    (h : Asks args field low high) (h' : Asks args other low' high') :
    field = other ∧ low = low' ∧ high = high' := by
  obtain ⟨rest, rfl, hlow, hhigh⟩ := h
  obtain ⟨rest', hargs, hlow', hhigh'⟩ := h'
  obtain ⟨rfl, rfl⟩ := List.cons.inj hargs
  exact ⟨rfl, Option.some.inj (hlow.symm.trans hlow'), Option.some.inj (hhigh.symm.trans hhigh')⟩

/-- Such a RANGE shows what its scan finds, and keeps it in the bucket of the query. -/
theorem execute_of_asks (db : Database) (now : Millis) {line : String} {args : List String}
    (hnames : Names line .range args) (h : Asks args field start stop) :
    db.execute now line =
      (some ⟨some .range, .ok (matchesText ((db.rangeScan field start stop).map Json.object))⟩,
        db.replaceBucket (rangeBucketName field start stop)
          ((db.rangeScan field start stop).map Json.object)) := by
  obtain ⟨rest, rfl, hlow, hhigh⟩ := h
  rw [execute_of_names hnames]
  simp only [run, range, hlow, hhigh]

/-- What is shown is the text of the matches, or the notice that there are none. -/
theorem execute_range (db : Database) (now : Millis) {line low high : String} {more : List String}
    (hnames : Names line .range (field :: low :: high :: more))
    (hlow : Decimal.parseNumber low.toList = some start)
    (hhigh : Decimal.parseNumber high.toList = some stop) :
    ∃ text,
      db.execute now line = (some ⟨some .range, .ok text⟩,
        db.replaceBucket (rangeBucketName field start stop)
          ((db.rangeScan field start stop).map Json.object)) ∧
      (text = Texts.noResults ↔ (db.rangeScan field start stop).isEmpty = true) ∧
      ((db.rangeScan field start stop).isEmpty = false →
        text = (Json.object ((db.rangeScan field start stop).map Json.object)).pretty) := by
  have hasks : Asks (field :: low :: high :: more) field start stop := ⟨_, rfl, hlow, hhigh⟩
  refine ⟨_, execute_of_asks db now hnames hasks, ?_, ?_⟩
  · rw [matchesText_eq_noResults_iff, KeyMap.isEmpty_map]
  · intro hsome
    exact matchesText_of_matches ((KeyMap.isEmpty_map _ _).trans hsome)

/-- A RANGE between a literal and itself finds a document if the number of the literal is that of its
    field. -/
theorem range_self (now : Millis) {line low : String} {more : List String} {record : Record} {held : Json}
    {x y : Binary64} (hnames : Names line .range (field :: low :: low :: more))
    (hy : Decimal.parseNumber low.toList = some y) (hrecord : db.find? key = some record)
    (hheld : record.field? field = some held) (hx : held.numeric? = some x) :
    ∃ (matched : KeyMap Payload) (text : String),
      (db.execute now line).1 = some ⟨some .range, .ok text⟩ ∧
      (text = Texts.noResults ↔ matched.isEmpty = true) ∧
      (matched.isEmpty = false → text = (Json.object (matched.map Json.object)).pretty) ∧
      matched.find? key = if y.le x && x.le y then some record.payload else none := by
  obtain ⟨text, hexecute, hnone, hshown⟩ := execute_range db now hnames hy hy
  refine ⟨db.rangeScan field y y, text, ?_, hnone, hshown, find?_rangeScan_of_numeric hrecord hheld hx⟩
  rw [hexecute]

/-- **Which documents a RANGE finds.** A RANGE between two literals succeeds. It shows its matches, or
    says that there are none, and keeps them in the bucket of the query. Take a document and the exact
    value of its field. If that lies between the exact bounds, rational or infinite and the ends included,
    the document is among the matches with its whole payload. If the document is among them, and if the
    value and both bounds are numbers, it does lie between them. A document without the field, or with a
    value that stands for no number, is not among them, and nothing that is not a document is. A string is
    read as a number exactly if it is a literal, and then it has one exact value. -/
theorem range_matches (db : Database) (now : Millis) {line field low high : String} {more : List String}
    {s e : Extended} (hnames : Names line .range (field :: low :: high :: more))
    (hlow : Decimal.Denotes low.toList s) (hhigh : Decimal.Denotes high.toList e) :
    (∃ (start stop : Binary64) (matched : KeyMap Payload) (text : String),
      RoundsTo s start ∧ RoundsTo e stop ∧
      db.execute now line = (some ⟨some .range, .ok text⟩,
        db.replaceBucket (rangeBucketName field start stop) (matched.map Json.object)) ∧
      (text = Texts.noResults ↔ matched.isEmpty = true) ∧
      (matched.isEmpty = false → text = (Json.object (matched.map Json.object)).pretty) ∧
      (db.execute now line).2.bucket? (rangeBucketName field start stop) =
        some (matched.map Json.object) ∧
      (∀ key record, db.find? key = some record →
        (∀ value v, record.field? field = some value → value.tree.Denotes v → s ≤ v → v ≤ e →
          matched.find? key = some record.payload) ∧
        (∀ value v, record.field? field = some value → value.tree.Denotes v →
          Representable s → Representable v → Representable e →
          (matched.find? key).isSome = true → s ≤ v ∧ v ≤ e) ∧
        ((record.field? field = none ∨
            ∃ value, record.field? field = some value ∧ value.tree.Unnumbered) →
          matched.find? key = none)) ∧
      ∀ key payload, matched.find? key = some payload →
        ∃ record, db.find? key = some record ∧ record.payload = payload) ∧
    ∀ text : List Char, (Decimal.parseNumber text).isSome = true ↔ ∃! v, Decimal.Denotes text v := by
  obtain ⟨start, hstart, hsround⟩ := hlow.read
  obtain ⟨stop, hstop, heround⟩ := hhigh.read
  obtain ⟨text, hexecute, hnone, hshown⟩ := execute_range db now hnames hstart hstop
  refine ⟨⟨start, stop, db.rangeScan field start stop, text, hsround, heround, hexecute, hnone, hshown, ?_,
    fun key record hrecord => ⟨?_, ?_, ?_⟩, ?_⟩, ?_⟩
  · rw [hexecute]
    exact (replaceBucket_effect db _ _).2.2
  · intro value v hvalue hv hsv hve
    obtain ⟨x, hx, hvround⟩ := hv.numeric
    rw [find?_rangeScan_of_numeric hrecord hvalue hx, hsround.le hvround hsv, hvround.le heround hve]
    rfl
  · intro value v hvalue hv hsrep hvrep herep hfound
    obtain ⟨x, hx, hvround⟩ := hv.numeric
    rw [find?_rangeScan_of_numeric hrecord hvalue hx] at hfound
    split at hfound
    · rename_i hbetween
      obtain ⟨hsx, hxe⟩ := Bool.and_eq_true_iff.mp hbetween
      exact ⟨(hsround.le_iff hvround hsrep hvrep).mp hsx, (hvround.le_iff heround hvrep herep).mp hxe⟩
    · cases hfound
  · exact find?_rangeScan_of_unnumbered hrecord
  · intro key payload hfound
    rw [find?_rangeScan] at hfound
    obtain ⟨record, hrecord, hfound⟩ := Option.bind_eq_some_iff.mp hfound
    obtain ⟨value, -, hfound⟩ := Option.bind_eq_some_iff.mp hfound
    split at hfound
    · exact ⟨record, hrecord, Option.some.inj hfound⟩
    · cases hfound
  · intro text
    rw [Decimal.isSome_parseNumber_iff]
    exact ⟨fun ⟨v, hv⟩ => ⟨v, hv, fun w hw => hw.unique hv⟩, fun ⟨v, hv, _⟩ => ⟨v, hv⟩⟩

/-- An integer that is no binary number lies between itself and itself. -/
theorem range_matches_odd :
    Names "RANGE n 9007199254740993 9007199254740993" .range
      ["n", "9007199254740993", "9007199254740993"] ∧
    ∃ s : Extended, Decimal.Denotes "9007199254740993".toList s ∧
      ∃ (next : Database) (matched : KeyMap Payload),
        (empty.insert "k" (Record.create
            (KeyMap.ofList [("n", Json.number (.ofInt64 9007199254740993))]) none 0)).execute 0
          "RANGE n 9007199254740993 9007199254740993" =
          (some ⟨some .range, .ok (Json.object (matched.map Json.object)).pretty⟩, next) ∧
        matched.find? "k" = some (KeyMap.ofList [("n", Json.number (.ofInt64 9007199254740993))]) := by
  have hnames : Names "RANGE n 9007199254740993 9007199254740993" .range
      ["n", "9007199254740993", "9007199254740993"] :=
    ⟨⟨"RANGE", ["n", "9007199254740993", "9007199254740993"]⟩, by decide +kernel, by decide, rfl⟩
  have hliteral : Decimal.Denotes "9007199254740993".toList (((9007199254740993 : Int) : ℚ) : Extended) := by
    have hdigits : ∀ c ∈ "9007199254740993".toList, Decimal.isDigit c = true :=
      List.all_eq_true.mp rfl
    have hvalue : Decimal.digitsValue "9007199254740993".toList = 9007199254740993 := by decide
    have hdenotes : Decimal.Denotes ([] ++ ([] ++ ("9007199254740993".toList ++ []) ++ []))
        (Extended.signed false (Decimal.digitsValue "9007199254740993".toList * 10 ^ (0 : Int))) :=
      .decimal (List.forall_mem_nil _) .absent (.whole (by decide) hdigits .absent) (List.forall_mem_nil _)
    rw [hvalue, zpow_zero, mul_one, List.append_nil, List.append_nil] at hdenotes
    exact_mod_cast hdenotes
  refine ⟨hnames, _, hliteral, ?_⟩
  obtain ⟨start, stop, matched, text, -, -, hexecute, -, hshown, -, hmatched, -⟩ := (range_matches
    (empty.insert "k" (Record.create
      (KeyMap.ofList [("n", Json.number (.ofInt64 9007199254740993))]) none 0)) 0
    hnames hliteral hliteral).1
  have hfound := (hmatched "k" _ rfl).1 _ _ rfl (.integer 9007199254740993 (by decide) (by decide))
    (le_refl _) (le_refl _)
  rw [hshown (KeyMap.isEmpty_of_find? hfound)] at hexecute
  exact ⟨_, matched, hexecute, hfound⟩

end Database

end DocStore
