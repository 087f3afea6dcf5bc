import DocStore.Proofs.Json.ShortLiterals
import DocStore.Proofs.NumericFields
import DocStore.Proofs.SetArguments

/-!
# Literals in documents and in queries

A number literal has two readers: one for documents, and one for the bounds of a query. The one for queries
gives the nearest number to the literal, and the one for documents may give a neighbour of it. So a document
is found under the literal that it was written with exactly if both readers agree. They do for short
literals, but not for all that a document may hold.

## Contents
- `Unescaped`, `memberText`: documents with one field, which holds a literal; `parseObject_memberText`.
- `Database.execute_memberText`: what is stored for such a document.
- `Database.found_under_literal_iff`: **when a document is found under its literal**.
- `Database.missed_under_literal`: a literal under which its document is not found.
-/

namespace DocStore

open Text.Utf8 (encode)
open Binary64 (RoundsTo)

/-! ## Documents with one literal -/

/-- Whether a name is quoted as it is: it holds no quote, no backslash and no control character. -/
def Unescaped (name : String) : Prop :=
  ∀ c ∈ name.toList, c ≠ '"' ∧ c ≠ '\\' ∧ 0x20 ≤ c.toNat

instance (name : String) : Decidable (Unescaped name) :=
  List.decidableBAll (fun c => c ≠ '"' ∧ c ≠ '\\' ∧ 0x20 ≤ c.toNat) name.toList

/-- The text of a document with one field, which holds a literal. -/
def memberText (field : String) (t : NumberLiteral) : String :=
  "\x7b\"" ++ field ++ "\":" ++ String.ofList t.text ++ "\x7d"

/-- Such a character is not escaped. -/
theorem escapeChar_unescaped {c : Char} (h : c ≠ '"' ∧ c ≠ '\\' ∧ 0x20 ≤ c.toNat) :
    Tree.escapeChar c = [c] := by
  obtain ⟨hquote, hslash, hcontrol⟩ := h
  have hother : ∀ d : Char, d.toNat < 0x20 → c ≠ d := by
    rintro d hd rfl
    exact absurd hd (Nat.not_lt.mpr hcontrol)
  rw [Tree.escapeChar, if_neg hquote, if_neg hslash, if_neg (hother _ (by decide)),
    if_neg (hother _ (by decide)), if_neg (hother _ (by decide)), if_neg (hother _ (by decide)),
    if_neg (hother _ (by decide)), if_neg (Nat.not_lt.mpr hcontrol)]

theorem quoted_unescaped {name : String} (h : Unescaped name) :
    Tree.quoted name = '"' :: (name.toList ++ ['"']) := by
  have hsame : name.toList.flatMap Tree.escapeChar = name.toList.flatMap fun c => [c] :=
    List.flatMap_congr fun c hc => escapeChar_unescaped (h c hc)
  rw [Tree.quoted, hsame, List.flatMap_singleton']

variable {field : String} {t : NumberLiteral}

theorem toList_memberText (field : String) (t : NumberLiteral) : (memberText field t).toList =
    '\x7b' :: '"' :: (field.toList ++ '"' :: ':' :: (t.text ++ ['\x7d'])) := by
  simp [memberText]

/-- What is read from a document with one literal. -/
theorem parseObject_memberText (hclear : Unescaped field) :
    (Json.parseObject (encode (memberText field t).toList)).toOption =
      t.read.map fun n => KeyMap.ofList [(field, Json.number n)] := by
  have hbytes : encode (memberText field t).toList = Json.Reader.Byte.openBrace ::
      (Json.Reader.quotedBytes field ++ Json.Reader.Byte.colon ::
        (encode t.text ++ [Json.Reader.Byte.closeBrace])) := by
    have hopen : Text.Utf8.encodeChar '\x7b' = [Json.Reader.Byte.openBrace] := rfl
    have hcolon : Text.Utf8.encodeChar ':' = [Json.Reader.Byte.colon] := rfl
    have hclose : Text.Utf8.encodeChar '\x7d' = [Json.Reader.Byte.closeBrace] := rfl
    rw [toList_memberText, Json.Reader.quotedBytes, quoted_unescaped hclear]
    simp [Text.Utf8.encode_append, hopen, hcolon, hclose]
  rw [hbytes, Json.parseObject_member field t.reads, Option.map_map]
  rfl

/-- Such a text is the document of a SET, if it is all there is behind the key. -/
theorem find?_memberText (field : String) (t : NumberLiteral) :
    PayloadSpan.find? [memberText field t] = some ⟨memberText field t, none⟩ := by
  have hopens : opensObject (memberText field t) = true := by
    rw [opensObject, toList_memberText]
    rfl
  exact PayloadSpan.find?_singleton hopens (parseNumber_of_opens hopens)

namespace Database

variable {key line query : String}

section Stored

variable {db : Database} {now : Millis} (hnames : Names line .set [key, memberText field t])
  (hclear : Unescaped field)

include hclear hnames

/-- What a SET of a document with one literal stores. -/
theorem execute_memberText {n : Number} (hread : t.read = some n) :
    db.execute now line = (some ⟨some .set, .ok Texts.stored⟩,
      db.insert key (Record.create (KeyMap.ofList [(field, Json.number n)]) none now)) := by
  have hparsed := parseObject_memberText (t := t) hclear
  rw [hread] at hparsed
  exact execute_of_span hnames (find?_memberText field t) (Json.Reader.eq_ok_of_toOption hparsed)

/-- A SET of a document with one literal succeeds exactly if the literal is read. -/
theorem isOk_memberText_iff :
    (∃ reply ∈ (db.execute now line).1, reply.isOk = true) ↔ ∃ n, t.read = some n := by
  constructor
  · intro hok
    obtain ⟨span, payload, hspan, hparsed⟩ := (set_isOk_iff hnames).mp hok
    obtain rfl := Option.some.inj ((find?_memberText field t).symm.trans hspan)
    have hread := parseObject_memberText (t := t) hclear
    rw [hparsed] at hread
    obtain ⟨n, hn, -⟩ := Option.map_eq_some_iff.mp hread.symm
    exact ⟨n, hn⟩
  · rintro ⟨n, hn⟩
    rw [execute_memberText hnames hclear hn]
    exact ⟨_, rfl, rfl⟩

end Stored

/-- **When a document is found under its literal.** Take a SET of a document with one field, which holds a
    literal, and a later RANGE on the field from the literal to itself. If the SET succeeds, so does the
    RANGE, which shows its matches or says that there are none. Its bounds are the number nearest to the
    literal, and the document is among its matches, with its payload, exactly if the stored number equals
    it. For a short literal the SET does succeed, and the stored number is the nearest one too. -/
theorem found_under_literal_iff (db : Database) (t : NumberLiteral) (now later : Millis)
    {more : List String} (hset : Names line .set [key, memberText field t])
    (hrange : Names query .range (field :: String.ofList t.text :: String.ofList t.text :: more))
    (hclear : Unescaped field) :
    ((∃ reply ∈ (db.execute now line).1, reply.isOk = true) →
      ∃ (n : Number) (x : Binary64) (matched : KeyMap Payload) (text : String),
        (db.execute now line).2 =
          db.insert key (Record.create (KeyMap.ofList [(field, Json.number n)]) none now) ∧
        Decimal.parseNumber t.text = some x ∧ RoundsTo t.exact x ∧
        ((db.execute now line).2.execute later query).1 = some ⟨some .range, .ok text⟩ ∧
        (text = Texts.noResults ↔ matched.isEmpty = true) ∧
        (matched.isEmpty = false → text = (Json.object (matched.map Json.object)).pretty) ∧
        (matched.find? key = some (KeyMap.ofList [(field, Json.number n)]) ↔ n.toBinary64.Same x) ∧
        (matched.find? key = none ↔ ¬ n.toBinary64.Same x) ∧
        (t.Short → RoundsTo t.exact n.toBinary64 ∧ n.toBinary64.Same x)) ∧
    (t.Short → ∃ reply ∈ (db.execute now line).1, reply.isOk = true) := by
  refine ⟨?_, ?_⟩
  · intro hok
    obtain ⟨n, hread⟩ := (isOk_memberText_iff hset hclear).mp hok
    obtain ⟨x, hx, hrounds⟩ := t.denotes.read
    have hheld : (Record.create (KeyMap.ofList [(field, Json.number n)]) none now).field? field =
        some (Json.number n) := by
      show (KeyMap.ofList [(field, Json.number n)]).find? field = _
      rw [KeyMap.find?_ofList]
      simp
    rw [execute_memberText hset hclear hread]
    have hrecord : (db.insert key (Record.create (KeyMap.ofList [(field, Json.number n)]) none
        now)).find? key = some (Record.create (KeyMap.ofList [(field, Json.number n)]) none now) :=
      (KeyMap.find?_insert _ _ _ _).trans (if_pos rfl)
    have hbound : Decimal.parseNumber (String.ofList t.text).toList = some x := by
      rwa [String.toList_ofList]
    obtain ⟨matched, text, hreply, hnone, hshown, hfound⟩ :=
      range_self later hrange hbound hrecord hheld rfl
    have hsame : (x.le n.toBinary64 && n.toBinary64.le x) = true ↔ n.toBinary64.Same x :=
      Bool.and_eq_true_iff.trans and_comm
    have hshort : t.Short → RoundsTo t.exact n.toBinary64 ∧ n.toBinary64.Same x := by
      intro hshort
      obtain ⟨m, hm, hnear⟩ := hshort.read
      obtain rfl := Option.some.inj (hread.symm.trans hm)
      exact ⟨hnear, (Binary64.same_iff hnear.isNaN hrounds.isNaN).mpr (hnear.rank_eq hrounds)⟩
    refine ⟨n, x, matched, text, rfl, hx, hrounds, hreply, hnone, hshown, ?_, ?_, hshort⟩
    · rw [hfound, ← hsame, Option.ite_none_right_eq_some]
      exact and_iff_left rfl
    · rw [hfound, ← hsame]
      exact ⟨fun hnone hyes => absurd ((if_pos hyes).symm.trans hnone) (Option.some_ne_none _),
        fun hno => if_neg hno⟩
  · intro hshort
    obtain ⟨n, hread, -⟩ := hshort.read
    exact (isOk_memberText_iff hset hclear).mpr ⟨n, hread⟩

/-- A literal with a point and an exponent, of which nothing is lost. -/
theorem found_under_literal_thousands :
    ∃ t : NumberLiteral, t.text = "6.02e3".toList ∧ t.Short ∧
      Names "SET k \x7b\"x\":6.02e3\x7d" .set ["k", memberText "x" t] ∧
      Names "RANGE x 6.02e3 6.02e3" .range ["x", String.ofList t.text, String.ofList t.text] ∧
      Unescaped "x" ∧
      ∃ (n : Number) (matched : KeyMap Payload),
        ((empty.execute 0 "SET k \x7b\"x\":6.02e3\x7d").2.execute 1 "RANGE x 6.02e3 6.02e3").1 =
          some ⟨some .range, .ok (Json.object (matched.map Json.object)).pretty⟩ ∧
        matched.find? "k" = some (KeyMap.ofList [("x", Json.number n)]) := by
  let t : NumberLiteral :=
    { negative := false
      whole := ['6']
      fraction := ['0', '2']
      tail := ['e', '3']
      exponent := 3
      whole_ne := by decide
      whole_digits := List.all_eq_true.mp rfl
      lead := by decide
      fraction_digits := List.all_eq_true.mp rfl
      exponent_text := .present (Or.inl rfl) .absent (by decide) (List.all_eq_true.mp rfl) }
  have hshort : t.Short := ⟨by decide +kernel, by decide +kernel, Or.inr (by decide +kernel)⟩
  have hset : Names "SET k \x7b\"x\":6.02e3\x7d" .set ["k", memberText "x" t] :=
    ⟨⟨"SET", ["k", "\x7b\"x\":6.02e3\x7d"]⟩, by decide +kernel, by decide, by decide +kernel⟩
  have hrange : Names "RANGE x 6.02e3 6.02e3" .range
      ["x", String.ofList t.text, String.ofList t.text] :=
    ⟨⟨"RANGE", ["x", "6.02e3", "6.02e3"]⟩, by decide +kernel, by decide, by decide +kernel⟩
  have hclear : Unescaped "x" := by decide
  obtain ⟨hfound, haccepted⟩ := found_under_literal_iff empty t 0 1 hset hrange hclear
  obtain ⟨n, x, matched, text, -, -, -, hreply, -, hshown, hiff, -, hnear⟩ := hfound (haccepted hshort)
  have hmatch := hiff.mpr (hnear hshort).2
  rw [hshown (KeyMap.isEmpty_of_find? hmatch)] at hreply
  exact ⟨t, rfl, hshort, hset, hrange, hclear, n, matched, hreply, hmatch⟩

/-- The literal `1.2e-30` is stored as a neighbour of the number that a query takes it for. -/
theorem missed_under_literal :
    ∃ t : NumberLiteral, t.text = "1.2e-30".toList ∧
      memberText "x" t = "\x7b\"x\":1.2e-30\x7d" ∧
      (empty.execute 0 "SET k \x7b\"x\":1.2e-30\x7d").1.map Reply.text = some "OK" ∧
      ((empty.execute 0 "SET k \x7b\"x\":1.2e-30\x7d").2.execute 1
        "RANGE x 1.2e-30 1.2e-30").1.map Reply.text = some "No results." := by
  let t : NumberLiteral :=
    { negative := false
      whole := ['1']
      fraction := ['2']
      tail := ['e', '-', '3', '0']
      exponent := -30
      whole_ne := by decide
      whole_digits := List.all_eq_true.mp rfl
      lead := by decide
      fraction_digits := List.all_eq_true.mp rfl
      exponent_text := .present (Or.inl rfl) .minus (by decide) (List.all_eq_true.mp rfl) }
  exact ⟨t, rfl, by decide +kernel, by decide +kernel, by decide +kernel⟩

end Database

end DocStore
