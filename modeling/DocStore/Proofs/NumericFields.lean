import DocStore.Proofs.IndexChecks
import DocStore.Proofs.RangeMatches
import DocStore.Proofs.RangeNames

/-!
# Numbers for INDEX and for RANGE

INDEX compares a value by its text and RANGE by its number. The two agree: the text of a value that has a
number is read as that number, up to the sign of zero, so what an INDEX accepts as the value of a field is
also a range in which the field lies. Two numbers have one text exactly if they are equal. Only an empty
field is beyond both commands, since no word of a line is empty.

## Contents
- `Json.parseNumber_canonical`: **the text of a value is read as its number**.
- `Json.canonical_number_eq_iff`: **which numbers have one text**.
- `Database.index_and_range`: **both commands accept the text of a field with a number**.
- `Database.empty_field_unreachable`: a field that neither command can name.
-/

namespace DocStore

open Binary64 (Same)
open Text (isBlank)

/-! ## Texts of numbers -/

/-- The number of a document is neither of the values that are no numbers. -/
theorem Number.isNaN_toBinary64 (n : Number) : n.toBinary64.isNaN = false := by
  cases n with
  | integer value lower upper => exact (Binary64.roundsTo_ofInt value).isNaN
  | binary x finite => exact Tree.isNaN_of_isFinite finite

namespace Json

/-- **The text of a value is read as its number**, up to the sign of zero. -/
theorem parseNumber_canonical {value : Json} {x : Binary64} (h : value.numeric? = some x) :
    ∃ y, Decimal.parseNumber value.canonical.toList = some y ∧ y.Same x := by
  obtain ⟨tree, ordered⟩ := value
  rw [canonical, String.toList_ofList]
  cases tree with
  | number n =>
      obtain rfl : n.toBinary64 = x := Option.some.inj h
      have hnan := n.isNaN_toBinary64
      have hread := Decimal.parseNumber_of_formatNumber hnan
      have hrank := Decimal.rank_withSign n.toBinary64
      generalize hy : n.toBinary64.withSign _ = y at hread hrank
      have hynan : y.isNaN = false := hy ▸ hnan
      exact ⟨y, hread, (Binary64.same_iff hynan hnan).mpr hrank⟩
  | string s =>
      obtain ⟨v, -, hrounds⟩ := Decimal.denotes_of_parseNumber h
      exact ⟨x, h, (Binary64.same_iff hrounds.isNaN hrounds.isNaN).mpr rfl⟩
  | null => cases h
  | bool value => cases h
  | array items => cases h
  | object members => cases h

/-- **Two numbers have one text** exactly if they are equal. -/
theorem canonical_number_eq_iff (m n : Number) :
    (Json.number m).canonical = (Json.number n).canonical ↔ m.toBinary64.Same n.toBinary64 := by
  rw [Binary64.same_iff m.isNaN_toBinary64 n.isNaN_toBinary64,
    ← Decimal.formatNumber_eq_iff m.isNaN_toBinary64 n.isNaN_toBinary64]
  exact String.ofList_inj

end Json

namespace Database

/-! ## Both commands -/

/-- **Both commands accept the text of a field with a number.** After any run from the empty database,
    take a document and a field with a name that can stand on a line, whose value has a number and a text
    without blanks. An INDEX of the document with the field and the text succeeds, and a RANGE on the
    field from the text to itself finds the document: it is among the matches that the reply shows. Two
    numbers have one text exactly if they are equal. -/
theorem index_and_range (script : Script) (now : Millis) {key field : String} {record : Record}
    {held : Json} {x : Binary64} (hrecord : (empty.after script).find? key = some record)
    (hheld : record.field? field = some held) (hnumber : held.numeric? = some x)
    (hne : field ≠ "") (hblank : ∀ c ∈ field.toList, isBlank c = false)
    (htext : ∀ c ∈ held.canonical.toList, isBlank c = false) :
    ((empty.after script).execute now (joinTokens ["INDEX", key, field, held.canonical])).1 =
      some ⟨some .index, .ok Texts.indexed⟩ ∧
    (∃ matched : KeyMap Payload,
      ((empty.after script).execute now
          (joinTokens ["RANGE", field, held.canonical, held.canonical])).1 =
        some ⟨some .range, .ok (Json.object (matched.map Json.object)).pretty⟩ ∧
      matched.find? key = some record.payload) ∧
    ∀ m n : Number, (Json.number m).canonical = (Json.number n).canonical ↔
      m.toBinary64.Same n.toBinary64 := by
  obtain ⟨y, hread, hsame⟩ := Json.parseNumber_canonical hnumber
  have hkey := key_word_after script hrecord
  have hfield : field.toList ≠ [] := fun hnil => hne (String.toList_eq_nil_iff.mp hnil)
  have hcanonical : held.canonical.toList ≠ [] := by
    intro hnil
    rw [hnil] at hread
    cases hread
  have hindex : Names (joinTokens ["INDEX", key, field, held.canonical]) .index
      [key, field, held.canonical] := by
    refine names_joined ?_ (by decide)
    simp only [List.forall_mem_cons]
    exact ⟨by simp [isBlank], hkey, ⟨hfield, hblank⟩, ⟨hcanonical, htext⟩, List.forall_mem_nil _⟩
  have hrange : Names (joinTokens ["RANGE", field, held.canonical, held.canonical]) .range
      [field, held.canonical, held.canonical] := by
    refine names_joined ?_ (by decide)
    simp only [List.forall_mem_cons]
    exact ⟨by simp [isBlank], ⟨hfield, hblank⟩, ⟨hcanonical, htext⟩, ⟨hcanonical, htext⟩,
      List.forall_mem_nil _⟩
  obtain ⟨matched, text, hreply, -, hshown, hfound⟩ :=
    range_self now hrange hread hrecord hheld hnumber
  rw [hsame.1, hsame.2] at hfound
  rw [hshown (KeyMap.isEmpty_of_find? hfound)] at hreply
  refine ⟨?_, ⟨matched, hreply, hfound⟩, Json.canonical_number_eq_iff⟩
  exact (reply_ok_iff hindex).mpr
    ((flaw_iff_of_coherent hrecord (coherent_after script hrecord)).mpr ⟨held, hheld, rfl⟩)

/-- A string that is a number in another spelling: INDEX takes it as it is, and RANGE reads it. -/
theorem index_and_range_string :
    ∃ record, (empty.after [(0, "SET k \x7b\"n\":\"+1e3\"\x7d")]).find? "k" = some record ∧
      ((empty.after [(0, "SET k \x7b\"n\":\"+1e3\"\x7d")]).execute 1 "INDEX k n +1e3").1 =
        some ⟨some .index, .ok Texts.indexed⟩ ∧
      ∃ matched : KeyMap Payload,
        ((empty.after [(0, "SET k \x7b\"n\":\"+1e3\"\x7d")]).execute 1 "RANGE n +1e3 +1e3").1 =
          some ⟨some .range, .ok (Json.object (matched.map Json.object)).pretty⟩ ∧
        matched.find? "k" = some record.payload := by
  have hrecord : (empty.after [(0, "SET k \x7b\"n\":\"+1e3\"\x7d")]).find? "k" =
      some (Record.create (KeyMap.ofList [("n", Json.string "+1e3")]) none 0) := by decide +kernel
  have hheld : (Record.create (KeyMap.ofList [("n", Json.string "+1e3")]) none 0).field? "n" =
      some (Json.string "+1e3") := by decide +kernel
  have hnumber : (Json.string "+1e3").numeric? = some (Binary64.ofInt 1000) := by decide +kernel
  have htext : (Json.string "+1e3").canonical = "+1e3" := by decide +kernel
  have hblank : ∀ c ∈ (Json.string "+1e3").canonical.toList, isBlank c = false := by
    rw [htext]
    simp [isBlank]
  obtain ⟨hindex, hrange, -⟩ := index_and_range [(0, "SET k \x7b\"n\":\"+1e3\"\x7d")] 1 hrecord hheld
    hnumber (by decide) (by simp [isBlank]) hblank
  have hindexed : joinTokens ["INDEX", "k", "n", "+1e3"] = "INDEX k n +1e3" := by decide
  have hranged : joinTokens ["RANGE", "n", "+1e3", "+1e3"] = "RANGE n +1e3 +1e3" := by decide
  rw [htext, hindexed] at hindex
  rw [htext, hranged] at hrange
  exact ⟨_, hrecord, hindex, hrange⟩

/-- The empty field can hold a number like any other, but a line cannot name it: the blanks around it are
    one gap between words, so both commands take the value for the field. -/
theorem empty_field_unreachable :
    let db := empty.after [(0, "SET k \x7b\"\":5\x7d")]
    let record := Record.create (KeyMap.ofList [("", Json.number (.ofInt64 5))]) none 0
    let held := Json.number (.ofInt64 5)
    db.find? "k" = some record ∧ record.field? "" = some held ∧
      held.numeric? = some (Binary64.ofInt 5) ∧ (∀ c ∈ "".toList, isBlank c = false) ∧
      (∀ c ∈ held.canonical.toList, isBlank c = false) ∧
      (db.execute 1 (joinTokens ["INDEX", "k", "", held.canonical])).1 =
        some ⟨some .index, .error (.missingArgument "value")⟩ ∧
      (db.execute 1 (joinTokens ["RANGE", "", held.canonical, held.canonical])).1 =
        some ⟨some .range, .error (.nonNumericRange "5" "")⟩ := by
  intro db record held
  have htext : held.canonical = "5" := by decide +kernel
  have hindexed : joinTokens ["INDEX", "k", "", "5"] = "INDEX k  5" := by decide
  have hranged : joinTokens ["RANGE", "", "5", "5"] = "RANGE  5 5" := by decide
  have hindex : Names "INDEX k  5" .index ["k", "5"] :=
    ⟨⟨"INDEX", ["k", "5"]⟩, by decide +kernel, by decide, rfl⟩
  have hrange : Names "RANGE  5 5" .range ["5", "5"] :=
    ⟨⟨"RANGE", ["5", "5"]⟩, by decide +kernel, by decide, rfl⟩
  have hrecord : db.find? "k" = some record := by decide +kernel
  have hlow : Decimal.parseNumber "5".toList = some (Binary64.ofInt 5) := by decide +kernel
  have hhigh : Decimal.parseNumber "".toList = none := by decide
  rw [htext, hindexed, hranged]
  refine ⟨hrecord, by decide +kernel, by decide +kernel, List.forall_mem_nil _, by simp [isBlank], ?_, ?_⟩
  · rw [execute_of_names hindex]
    simp only [run, index, hrecord]
  · rw [execute_of_names hrange]
    simp only [run, range, List.getElem?_cons_zero, List.getElem?_cons_succ, List.getElem?_nil,
      Option.getD_some, Option.getD_none, hlow, hhigh]

end Database

end DocStore
