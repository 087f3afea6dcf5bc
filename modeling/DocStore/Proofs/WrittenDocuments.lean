import DocStore.Proofs.Effects
import DocStore.Proofs.Json.Squeezed

/-!
# Storing a written document

A SET is given the text of a document, which the line cuts into words and puts together again. So the
document that is stored is the one that was written, but for runs of blanks in its keys and strings. A
lifetime behind the text is never taken for a part of it, nor the other way round, since no number ends
with a brace.

## Contents
- `PayloadSpan.find?_of_no_ttl`, `PayloadSpan.find?_of_ttl`: the document among tokens that start with it.
- `PayloadSpan.find?_words`, `PayloadSpan.find?_words_ttl`: the document among the words of its text.
- `Database.names_set`, `Database.names_set_token`: the words of a line that stores a text.
- `Database.execute_of_span`, `Database.stored_of_span`: what a SET does with the document on its line.
- `Database.set_stores_written`: **what a SET of a written document stores**.
-/

namespace DocStore

open Text (Solid isBlank squeeze words)
open Text.Utf8 (encode)

/-! ## The words of a document -/

namespace PayloadSpan

section Tokens

variable {first : String} (hfirst : opensObject first = true)

include hfirst

/-- No token is in front of the document. -/
theorem dropWhile_of_opens (rest : List String) :
    (first :: rest).dropWhile (fun token => !opensObject token) = first :: rest :=
  List.dropWhile_cons_of_neg (by simp [hfirst])

theorem find?_of_no_ttl {rest : List String} {last : String}
    (hlast : last ∈ (first :: rest).getLast?) (hnumber : Decimal.parseNumber last.toList = none) :
    find? (first :: rest) = some ⟨joinTokens (first :: rest), none⟩ := by
  have hread : ((first :: rest).getLast?).bind (fun last => Decimal.parseNumber last.toList) =
      none := by
    rw [hlast, Option.bind_some, hnumber]
  unfold find?
  simp only [dropWhile_of_opens hfirst, hread]

theorem find?_of_ttl (rest : List String) {token : String} {ttl : Binary64}
    (htoken : Decimal.parseNumber token.toList = some ttl) :
    find? (first :: (rest ++ [token])) = some ⟨joinTokens (first :: rest), some ttl⟩ := by
  have hread : ((first :: (rest ++ [token])).getLast?).bind
      (fun last => Decimal.parseNumber last.toList) = some ttl := by
    rw [← List.cons_append, List.getLast?_concat, Option.bind_some, htoken]
  unfold find?
  simp only [dropWhile_of_opens hfirst, hread]
  rw [← List.cons_append, List.dropLast_concat]

end Tokens

section Words

variable {text : List Char}

/-- The first word of the text of an object starts the object. -/
theorem words_opens (hopens : text.head? = some '\x7b') :
    ∃ first rest, (words text).map String.ofList = first :: rest ∧ opensObject first = true := by
  cases text with
  | nil => cases hopens
  | cons c text =>
      obtain rfl := Option.some.inj hopens
      obtain ⟨word, later, hwords⟩ := Text.words_head (c := '\x7b') (by decide) text
      refine ⟨String.ofList ('\x7b' :: word), later.map String.ofList, ?_, ?_⟩
      · rw [hwords, List.map_cons]
      · rw [opensObject, String.toList_ofList]
        rfl

/-- The last word of the text of an object is no number. -/
theorem words_closes (hcloses : text.getLast? = some '\x7d') :
    ∃ last ∈ ((words text).map String.ofList).getLast?, Decimal.parseNumber last.toList = none := by
  obtain ⟨front, rfl⟩ := List.getLast?_eq_some_iff.mp hcloses
  obtain ⟨earlier, word, hwords⟩ := Text.words_last (c := '\x7d') (by decide) front
  refine ⟨String.ofList (word ++ ['\x7d']), ?_, ?_⟩
  · rw [hwords, List.map_append]
    simp
  · rw [String.toList_ofList]
    exact Decimal.parseNumber_eq_none (List.mem_append_right _ List.mem_cons_self) (by decide)
      (by decide) (by decide)

variable (hsolid : Solid text) (hopens : text.head? = some '\x7b')

include hsolid hopens

/-- The words of the text of an object are all of the document. -/
theorem find?_words (hcloses : text.getLast? = some '\x7d') :
    find? ((words text).map String.ofList) = some ⟨String.ofList (squeeze isBlank text), none⟩ := by
  obtain ⟨first, rest, hwords, hfirst⟩ := words_opens hopens
  obtain ⟨last, hlast, hnumber⟩ := words_closes hcloses
  rw [hsolid.squeeze_eq, ← toList_joinTokens]
  rw [hwords] at hlast ⊢
  exact find?_of_no_ttl hfirst hlast hnumber

/-- A number behind them is the lifetime. -/
theorem find?_words_ttl {token : String} {ttl : Binary64}
    (htoken : Decimal.parseNumber token.toList = some ttl) :
    find? ((words text).map String.ofList ++ [token]) =
      some ⟨String.ofList (squeeze isBlank text), some ttl⟩ := by
  obtain ⟨first, rest, hwords, hfirst⟩ := words_opens hopens
  rw [hsolid.squeeze_eq, ← toList_joinTokens, hwords]
  exact find?_of_ttl hfirst rest htoken

end Words

end PayloadSpan

namespace Database

/-! ## Lines -/

section Lines

variable {key : String}

/-- A line that stores a text under a key. -/
theorem names_set (hne : key ≠ "") (hblank : ∀ c ∈ key.toList, isBlank c = false) (text : String) :
    Names ("SET " ++ key ++ " " ++ text) .set (key :: (words text.toList).map String.ofList) := by
  have hverb : ∀ c ∈ "SET".toList, isBlank c = false := by simp [isBlank]
  have hkey : key.toList ≠ [] := fun hnil => hne (String.toList_eq_nil_iff.mp hnil)
  have hwords : words ("SET".toList ++ ' ' :: (key.toList ++ ' ' :: text.toList)) =
      "SET".toList :: key.toList :: words text.toList := by
    rw [Text.words_append_blank (by decide) hverb (by decide),
      Text.words_append_blank hkey hblank (by decide)]
  have hline : String.ofList ("SET".toList ++ ' ' :: (key.toList ++ ' ' :: text.toList)) =
      "SET " ++ key ++ " " ++ text := by
    rw [← String.toList_inj, String.toList_ofList]
    simp
  have hnames : Names _ .set _ := names_of_words hwords (by decide)
  rw [hline, List.map_cons, String.ofList_toList] at hnames
  exact hnames

/-- The same line with one more word. -/
theorem names_set_token (hne : key ≠ "") (hblank : ∀ c ∈ key.toList, isBlank c = false) (text : String)
    {token : String} (hword : token.toList ≠ []) (htoken : ∀ c ∈ token.toList, isBlank c = false) :
    Names ("SET " ++ key ++ " " ++ text ++ " " ++ token) .set
      (key :: ((words text.toList).map String.ofList ++ [token])) := by
  have hspace : isBlank ' ' = true := by decide
  have hwords : words (text ++ " " ++ token).toList = words text.toList ++ [token.toList] := by
    rw [← Text.words_word hword htoken, ← Text.words_append hspace]
    simp
  have hnames := names_set hne hblank (text ++ " " ++ token)
  rw [hwords, List.map_append, List.map_singleton, String.ofList_toList, ← String.append_assoc,
    ← String.append_assoc] at hnames
  exact hnames

end Lines

section Spans

variable {db : Database} {now : Millis} {line key : String} {args : List String} {span : PayloadSpan}
  {payload : Payload} (hnames : Names line .set (key :: args))
  (hspan : PayloadSpan.find? args = some span)
  (hparsed : Json.parseObject (encode span.json.toList) = .ok payload)

include hnames hspan hparsed

/-- What a SET does once the document on its line is known. -/
theorem execute_of_span :
    db.execute now line = (some ⟨some .set, .ok Texts.stored⟩,
      db.insert key (Record.create payload (span.ttl.map Binary64.truncate) now)) := by
  rw [execute_of_names hnames]
  simp only [run, set, hspan, hparsed]

/-- The document is then found under its key, with the lifetime on the line, and nothing else has
    changed. -/
theorem stored_of_span :
    ∃ (next : Database) (record : Record),
      db.execute now line = (some ⟨some .set, .ok Texts.stored⟩, next) ∧
      next.find? key = some record ∧ record.payload = payload ∧
      record.ttl = span.ttl.map Binary64.truncate ∧
      record.expiresAt = (span.ttl.map Binary64.truncate).map (Millis.add now ·) ∧
      next.documents.AgreesExcept key db.documents ∧ next.indices = db.indices := by
  obtain ⟨hindices, hframe, hfound⟩ :=
    insert_effect db key (Record.create payload (span.ttl.map Binary64.truncate) now)
  exact ⟨_, _, execute_of_span hnames hspan hparsed, hfound, rfl, rfl, rfl, hframe, hindices⟩

end Spans

/-- The text of an object, on one line or on many. -/
theorem text_of_object (level : Option Nat) (payload : Payload) :
    Solid (Tree.laidOut level (Json.object payload).tree) ∧
      (Tree.laidOut level (Json.object payload).tree).head? = some '\x7b' ∧
      (Tree.laidOut level (Json.object payload).tree).getLast? = some '\x7d' := by
  refine ⟨Tree.solid_laidOut _ _, ?_⟩
  obtain ⟨gap, margin, space, -, -, -, htext⟩ := Tree.laidOut_object level (Json.members payload)
  rw [show (Json.object payload).tree = .object (Json.members payload) from rfl, htext]
  refine ⟨rfl, ?_⟩
  unfold Tree.container
  rw [← List.append_assoc, ← List.cons_append, List.getLast?_concat]

/-- **What a SET of a written document stores.** An object that nests at most 127 levels, and whose
    binary numbers are read back from their texts, is stored from its compact and from its pretty text,
    with or without a lifetime behind it. The payload that is then found under the key is the object with
    its keys and strings squeezed: every run of blanks that its text shows as they are is one blank, and of
    members whose keys have become equal the last counts. That is the object itself exactly if all its keys
    and strings are tidy: such blanks in them are single blanks. The lifetime is the one on the line in
    whole milliseconds, or none, and all other documents and all buckets stay as they are. -/
theorem set_stores_written (db : Database) (now : Millis) {key : String} {payload : Payload}
    (hne : key ≠ "") (hblank : ∀ c ∈ key.toList, isBlank c = false)
    (hdepth : (Json.object payload).depth ≤ 127) (hback : (Json.object payload).ReadsBack) :
    (∀ text, text = (Json.object payload).compact ∨ text = (Json.object payload).pretty →
      (∃ (next : Database) (record : Record),
        db.execute now ("SET " ++ key ++ " " ++ text) = (some ⟨some .set, .ok Texts.stored⟩, next) ∧
        next.find? key = some record ∧ record.payload = Payload.squeeze payload ∧
        record.ttl = none ∧ record.expiresAt = none ∧
        next.documents.AgreesExcept key db.documents ∧ next.indices = db.indices) ∧
      ∀ (token : String) (ttl : Binary64), (∀ c ∈ token.toList, isBlank c = false) →
        Decimal.parseNumber token.toList = some ttl →
        ∃ (next : Database) (record : Record),
          db.execute now ("SET " ++ key ++ " " ++ text ++ " " ++ token) =
            (some ⟨some .set, .ok Texts.stored⟩, next) ∧
          next.find? key = some record ∧ record.payload = Payload.squeeze payload ∧
          record.ttl = some ttl.truncate ∧ record.expiresAt = some (Millis.add now ttl.truncate) ∧
          next.documents.AgreesExcept key db.documents ∧ next.indices = db.indices) ∧
    (Payload.squeeze payload = payload ↔
      ∀ s ∈ (Json.object payload).tree.texts, Tree.TidyText s) := by
  constructor
  · intro text htext
    obtain ⟨level, rfl⟩ : ∃ level : Option Nat,
        text = String.ofList (Tree.laidOut level (Json.object payload).tree) := by
      rcases htext with rfl | rfl
      · exact ⟨none, rfl⟩
      · exact ⟨some 0, rfl⟩
    obtain ⟨hsolid, hopens, hcloses⟩ := text_of_object level payload
    have hparsed := Json.parseObject_squeezed level hdepth hback
    generalize Tree.laidOut level (Json.object payload).tree = chars at *
    constructor
    · have hnames := names_set hne hblank (String.ofList chars)
      rw [String.toList_ofList] at hnames
      refine stored_of_span hnames (PayloadSpan.find?_words hsolid hopens hcloses) ?_
      rw [String.toList_ofList]
      exact hparsed
    · intro token ttl htoken hnumber
      have hword : token.toList ≠ [] := by
        intro hnil
        rw [hnil] at hnumber
        cases hnumber
      have hnames := names_set_token hne hblank (String.ofList chars) hword htoken
      rw [String.toList_ofList] at hnames
      refine stored_of_span hnames (PayloadSpan.find?_words_ttl hsolid hopens hnumber) ?_
      rw [String.toList_ofList]
      exact hparsed
  · rw [← Json.squeeze_eq_self_iff, Json.squeeze_object, Json.object_inj]

/-- A document with a binary number under a given key and a text under another. -/
def measured (key text : String) : Payload :=
  KeyMap.ofList [(key, Json.number (.binary ⟨false, 0x3FF8000000000000, by decide⟩ (by decide))),
    ("unit", Json.string text)]

/-- Double blanks in a key and in a string become single, and the 60 behind the document is its
    lifetime. -/
theorem set_stores_written_blanks :
    (Json.object (measured "a  b" "x  y")).depth ≤ 127 ∧
    (Json.object (measured "a  b" "x  y")).ReadsBack ∧
    ∃ record, (empty.execute 7 "SET k \x7b\"a  b\":1.5,\"unit\":\"x  y\"\x7d 60").2.find? "k" =
        some record ∧
      record.payload = measured "a b" "x y" ∧ record.ttl = some 60 ∧ record.expiresAt = some 67 := by
  have hdepth : (Json.object (measured "a  b" "x  y")).depth ≤ 127 := by decide +kernel
  have hback : (Json.object (measured "a  b" "x  y")).ReadsBack :=
    (Json.reread_eq_self_iff _).mp (by decide +kernel)
  refine ⟨hdepth, hback, ?_⟩
  have hline : "SET " ++ "k" ++ " " ++ (Json.object (measured "a  b" "x  y")).compact ++ " " ++ "60" =
      "SET k \x7b\"a  b\":1.5,\"unit\":\"x  y\"\x7d 60" := by decide +kernel
  have hsqueezed : Payload.squeeze (measured "a  b" "x  y") = measured "a b" "x y" := by
    decide +kernel
  have hnumber : Decimal.parseNumber "60".toList = some (Binary64.ofInt 60) := by decide +kernel
  have hkey : "k" ≠ "" := by decide
  obtain ⟨next, record, hexecute, hfound, hpayload, httl, hends, -, -⟩ :=
    ((set_stores_written empty 7 hkey (by simp [isBlank]) hdepth hback).1 _ (Or.inl rfl)).2 "60"
      (Binary64.ofInt 60) (by simp [isBlank]) hnumber
  have hmillis : (Binary64.ofInt 60).truncate = 60 := by decide +kernel
  have hend : Millis.add 7 60 = 67 := by decide
  rw [hline] at hexecute
  rw [hsqueezed] at hpayload
  rw [hmillis] at httl
  rw [hmillis, hend] at hends
  rw [hexecute]
  exact ⟨record, hfound, hpayload, httl, hends⟩

end Database

end DocStore
