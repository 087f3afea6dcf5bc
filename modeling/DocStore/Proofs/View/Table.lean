import DocStore.Proofs.Json.Spelling
import DocStore.Proofs.View.Lines
import Mathlib.Order.Bounds.Defs

/-!
# The table of the documents

Every document has one line of the table. A column is as wide as its widest cell, and a cell holds neither a
line break nor, at the end of the last column, a blank. So trimming a line takes off nothing but the padding
of its last cell, and the separators stand at the same places in all lines.

## Contents
- `Tree.newline_notMem_compact`, `Status.text_word`: the characters of the cells.
- `View.ShowsValue`: how a payload is shown; `View.showsValue_truncate`.
- `View.rows`, `View.widths`, `Row.line`: the parts of the table; `View.documents_eq`: its text.
- `View.isGreatest_widths`: the widths of the columns.
- `View.IsTable`, `Database.documentsView_isTable`: **what the table looks like**.
-/

namespace DocStore

open Text (isBlank EndsInWord)

/-! ## The characters of the cells -/

namespace Tree

theorem mem_commaSeparated {parts : List (List Char)} {c : Char} (h : c ∈ commaSeparated parts) :
    c = ',' ∨ ∃ part ∈ parts, c ∈ part := by
  induction parts with
  | nil => cases h
  | cons part parts ih =>
      cases parts with
      | nil =>
          rw [show commaSeparated [part] = part from List.append_nil part] at h
          exact Or.inr ⟨part, List.mem_cons_self, h⟩
      | cons next parts =>
          rw [commaSeparated_cons] at h
          rcases List.mem_append.mp h with h | h
          · exact Or.inr ⟨part, List.mem_cons_self, h⟩
          rcases List.mem_cons.mp h with h | h
          · exact Or.inl h
          · rcases ih h with h | ⟨other, hother, h⟩
            · exact Or.inl h
            · exact Or.inr ⟨other, List.mem_cons_of_mem _ hother, h⟩

theorem newline_notMem_quoted (s : String) : '\n' ∉ quoted s := by
  intro hmem
  rcases List.mem_cons.mp hmem with hquote | hmem
  · exact absurd hquote (by decide)
  rcases List.mem_append.mp hmem with hmem | hquote
  · obtain ⟨c, -, hescaped⟩ := List.mem_flatMap.mp hmem
    -- a blank that is not escaped lies above the control characters
    rcases escapeChar_cases c with ⟨hloose, -, hself⟩ | ⟨-, -, hsolid⟩
    · rw [hself, List.mem_singleton] at hescaped
      rw [← hescaped] at hloose
      exact absurd hloose (by decide)
    · exact Text.newline_notMem hsolid hescaped
  · exact absurd hquote (by decide)

theorem newline_notMem_bracketed {opening closing : Char} (hopening : '\n' ≠ opening)
    (hclosing : '\n' ≠ closing) {parts : List (List Char)} (h : ∀ part ∈ parts, '\n' ∉ part) :
    '\n' ∉ opening :: (commaSeparated parts ++ [closing]) := by
  intro hmem
  rcases List.mem_cons.mp hmem with hbracket | hmem
  · exact hopening hbracket
  rcases List.mem_append.mp hmem with hmem | hbracket
  · rcases mem_commaSeparated hmem with hcomma | ⟨part, hpart, hmem⟩
    · exact absurd hcomma (by decide)
    · exact h part hpart hmem
  · exact hclosing (List.mem_singleton.mp hbracket)

/-- **The compact text of a tree** has no line break. -/
theorem newline_notMem_compact (tree : Tree) : '\n' ∉ tree.compact := by
  induction tree using Tree.induction with
  | null => exact Text.newline_notMem isBlank_null
  | bool b => exact Text.newline_notMem (isBlank_bool b)
  | number n => exact Text.newline_notMem (isBlank_numberText n)
  | string s => exact newline_notMem_quoted s
  | array items ih =>
      rw [compact, compactItems_eq]
      exact newline_notMem_bracketed (by decide) (by decide) (List.forall_mem_map.mpr ih)
  | object members ih =>
      rw [compact, compactMembers_eq]
      refine newline_notMem_bracketed (by decide) (by decide) (List.forall_mem_map.mpr ?_)
      intro member hmember hmem
      rcases List.mem_append.mp hmem with hmem | hmem
      · exact newline_notMem_quoted _ hmem
      rcases List.mem_cons.mp hmem with hcolon | hmem
      · exact absurd hcolon (by decide)
      · exact ih member hmember hmem

end Tree

theorem Decimal.toList_toString (n : Int) : (toString n).toList = intText n := by
  unfold intText
  cases n with
  | ofNat m =>
      rw [if_neg (show ¬ Int.ofNat m < 0 from Int.not_lt.mpr (Int.natCast_nonneg m))]
      show (Nat.repr m).toList = Nat.toDigits 10 m
      exact String.toList_ofList
  | negSucc m =>
      rw [if_pos (Int.negSucc_lt_zero m)]
      show (String.append "-" (Nat.repr (m + 1))).toList = '-' :: Nat.toDigits 10 (m + 1)
      exact String.toList_append.trans (congrArg ('-' :: ·) String.toList_ofList)

/-- What is shown of a lifetime is one word. -/
theorem Status.text_word (status : Status) :
    status.text.toList ≠ [] ∧ ∀ c ∈ status.text.toList, isBlank c = false := by
  cases status with
  | persistent => simp [text, isBlank]
  | expired => simp [text, isBlank]
  | remaining duration =>
      rw [text, String.toList_append, Decimal.toList_toString]
      refine ⟨by simp, List.forall_mem_append.mpr ⟨fun c hc => ?_, by simp [isBlank]⟩⟩
      exact Decimal.isBlank_of_numeral (Decimal.mem_intText _ c hc)

namespace View

/-! ## Cells -/

/-- Whether a cell shows a payload: by its compact text, or, if that has more than 48 characters, by the
    first 45 of them and three dots. -/
structure ShowsValue (payload : Payload) (cell : List Char) : Prop where
  whole : (Json.object payload).tree.compact.length ≤ 48 → cell = (Json.object payload).tree.compact
  cut : 48 < (Json.object payload).tree.compact.length →
    cell = (Json.object payload).tree.compact.take 45 ++ "...".toList
  length_le : cell.length ≤ 48

theorem showsValue_truncate (payload : Payload) :
    ShowsValue payload (truncate (Json.object payload).tree.compact maxValueWidth) where
  whole h := if_pos h
  cut h := if_neg (Nat.not_le.mpr h)
  length_le := by
    unfold truncate maxValueWidth
    split
    · assumption
    · rw [List.length_append, List.length_take]
      simp only [List.length_cons, List.length_nil]
      omega

theorem newline_notMem_truncate {text : List Char} (h : '\n' ∉ text) (width : Nat) :
    '\n' ∉ truncate text width := by
  unfold truncate
  split
  · exact h
  · intro hmem
    rcases List.mem_append.mp hmem with hmem | hdots
    · exact h (List.mem_of_mem_take hmem)
    · exact absurd hdots (by decide)

theorem length_padded {text : List Char} {width : Nat} (h : text.length ≤ width) :
    (padded text width).length = width := by
  rw [padded, List.length_append, List.length_replicate]
  omega

theorem newline_notMem_padded {text : List Char} (h : '\n' ∉ text) (width : Nat) :
    '\n' ∉ padded text width := by
  intro hmem
  rcases List.mem_append.mp hmem with hmem | hblank
  · exact h hmem
  · exact absurd (List.eq_of_mem_replicate hblank) (by decide)

/-! ## Rows -/

/-- A row as it is shown: the cells with a separator between them, all but the last one filled up. -/
def Row.line (widths : Widths) (row : Row) : List Char :=
  padded row.key widths.key ++ " | ".toList ++ padded row.value widths.value ++ " | ".toList ++ row.ttl

/-- Trimming takes off the padding of the last cell. -/
theorem Row.text_eq_line {row : Row} (h : EndsInWord row.ttl) (widths : Widths) :
    row.text widths = row.line widths := by
  unfold Row.text Row.line
  rw [padded, padded, padded, ← List.append_assoc _ row.ttl]
  refine Text.trimEnd_append (h.append _) ?_
  intro c hc
  rw [List.eq_of_mem_replicate hc]
  decide

/-- The rows of the table in the order of the keys. -/
def rows (db : Database) (now : Millis) : List Row :=
  db.documents.entries.map fun entry => Row.ofRecord now entry.1 entry.2

/-- The widths of its columns. -/
def widths (db : Database) (now : Millis) : Widths :=
  Widths.ofRows (header :: rows db now)

theorem endsInWord_ttl (now : Millis) (key : String) (record : Record) :
    EndsInWord (Row.ofRecord now key record).ttl :=
  EndsInWord.of_word (record.status now).text_word.1 (record.status now).text_word.2

theorem endsInWord_header : EndsInWord header.ttl :=
  EndsInWord.of_word (by decide) (by simp [header, isBlank])

/-- A row without a line break in its key has none at all. -/
theorem newline_notMem_line {key : String} (h : '\n' ∉ key.toList) (now : Millis) (record : Record)
    (widths : Widths) : '\n' ∉ (Row.ofRecord now key record).line widths := by
  have hvalue := newline_notMem_truncate (Tree.newline_notMem_compact (Json.object record.payload).tree)
    maxValueWidth
  have httl := Text.newline_notMem (record.status now).text_word.2
  have hseparator : '\n' ∉ " | ".toList := by decide
  simp only [Row.line, List.mem_append, not_or]
  exact ⟨⟨⟨⟨newline_notMem_padded h _, hseparator⟩, newline_notMem_padded hvalue _⟩, hseparator⟩, httl⟩

/-! ## Widths -/

/-- What the greatest of some numbers is. -/
theorem foldl_max_spec {α : Type} (f : α → Nat) (xs : List α) (start : Nat) :
    start ≤ xs.foldl (fun n x => max n (f x)) start ∧
      (∀ x ∈ xs, f x ≤ xs.foldl (fun n x => max n (f x)) start) ∧
      (xs.foldl (fun n x => max n (f x)) start = start ∨
        ∃ x ∈ xs, f x = xs.foldl (fun n x => max n (f x)) start) := by
  induction xs generalizing start with
  | nil => simp
  | cons x xs ih =>
      obtain ⟨hstart, hxs, hattained⟩ := ih (max start (f x))
      rw [List.foldl_cons]
      refine ⟨le_trans (le_max_left _ _) hstart, ?_, ?_⟩
      · exact List.forall_mem_cons.mpr ⟨le_trans (le_max_right _ _) hstart, hxs⟩
      · rcases hattained with hsame | ⟨y, hy, hattained⟩
        · rcases max_choice start (f x) with hmax | hmax
          · exact Or.inl (hsame.trans hmax)
          · exact Or.inr ⟨x, List.mem_cons_self, (hsame.trans hmax).symm⟩
        · exact Or.inr ⟨y, List.mem_cons_of_mem _ hy, hattained⟩

/-- A column that starts at nothing gets the width of its widest cell. -/
theorem isGreatest_foldl_max {α : Type} (f : α → Nat) (x : α) (xs : List α) :
    IsGreatest {n | ∃ y ∈ x :: xs, f y = n} ((x :: xs).foldl (fun n y => max n (f y)) 0) := by
  obtain ⟨-, hle, hattained⟩ := foldl_max_spec f (x :: xs) 0
  constructor
  · rcases hattained with hzero | hattained
    · have hx := hle x List.mem_cons_self
      rw [hzero, Nat.le_zero] at hx
      exact ⟨x, List.mem_cons_self, hx.trans hzero.symm⟩
    · exact hattained
  · rintro n ⟨y, hy, rfl⟩
    exact hle y hy

/-- **Every column is as wide as its widest cell.** -/
theorem isGreatest_widths (db : Database) (now : Millis) :
    IsGreatest {n | ∃ row ∈ header :: rows db now, row.key.length = n} (widths db now).key ∧
      IsGreatest {n | ∃ row ∈ header :: rows db now, row.value.length = n} (widths db now).value ∧
      IsGreatest {n | ∃ row ∈ header :: rows db now, row.ttl.length = n} (widths db now).ttl := by
  have hkey : (widths db now).key =
      (header :: rows db now).foldl (fun n row => max n row.key.length) 0 :=
    (List.foldl_hom Widths.key fun _ _ => rfl).symm
  have hvalue : (widths db now).value =
      (header :: rows db now).foldl (fun n row => max n row.value.length) 0 :=
    (List.foldl_hom Widths.value fun _ _ => rfl).symm
  have httl : (widths db now).ttl =
      (header :: rows db now).foldl (fun n row => max n row.ttl.length) 0 :=
    (List.foldl_hom Widths.ttl fun _ _ => rfl).symm
  rw [hkey, hvalue, httl]
  exact ⟨isGreatest_foldl_max _ _ _, isGreatest_foldl_max _ _ _, isGreatest_foldl_max _ _ _⟩

/-! ## The table -/

section Table

variable {db : Database} {now : Millis}

/-- The lines of the table. -/
def tableLines (db : Database) (now : Millis) : List (List Char) :=
  header.line (widths db now) :: ruleText (widths db now) ::
    (rows db now).map (Row.line (widths db now))

theorem documents_eq (hne : db.documents.isEmpty = false) :
    documents db now = lines (tableLines db now) := by
  have hrows : (rows db now).map (Row.text (widths db now)) =
      (rows db now).map (Row.line (widths db now)) := by
    refine List.map_congr_left fun row hrow => ?_
    obtain ⟨entry, -, rfl⟩ := List.mem_map.mp hrow
    exact Row.text_eq_line (endsInWord_ttl now entry.1 entry.2) _
  have hheader := Row.text_eq_line endsInWord_header (widths db now)
  unfold documents tableLines
  rw [hne, if_neg Bool.false_ne_true, ← hrows, ← hheader]
  rfl

theorem newline_notMem_tableLines
    (hkeys : ∀ entry ∈ db.documents.entries, ∀ c ∈ entry.1.toList, isBlank c = false) :
    ∀ line ∈ tableLines db now, '\n' ∉ line := by
  refine List.forall_mem_cons.mpr ⟨?_, List.forall_mem_cons.mpr ⟨?_, ?_⟩⟩
  · have hheader : '\n' ∉ header.key ∧ '\n' ∉ header.value ∧ '\n' ∉ header.ttl := by decide
    have hseparator : '\n' ∉ " | ".toList := by decide
    simp only [Row.line, List.mem_append, not_or]
    exact ⟨⟨⟨⟨newline_notMem_padded hheader.1 _, hseparator⟩, newline_notMem_padded hheader.2.1 _⟩,
      hseparator⟩, hheader.2.2⟩
  · have hdashes : ∀ n, '\n' ∉ List.replicate n '-' :=
      fun n hmem => absurd (List.eq_of_mem_replicate hmem) (by decide)
    have hseparator : '\n' ∉ "-+-".toList := by decide
    simp only [ruleText, List.mem_append, not_or]
    exact ⟨⟨⟨⟨hdashes _, hseparator⟩, hdashes _⟩, hseparator⟩, hdashes _⟩
  · intro line hline
    obtain ⟨row, hrow, rfl⟩ := List.mem_map.mp hline
    obtain ⟨entry, hentry, rfl⟩ := List.mem_map.mp hrow
    exact newline_notMem_line (Text.newline_notMem (hkeys entry hentry)) now entry.2 _

/-- **The lines of the text** are those of the table, as long as no key holds a blank. -/
theorem splitOn_documents (hne : db.documents.isEmpty = false)
    (hkeys : ∀ entry ∈ db.documents.entries, ∀ c ∈ entry.1.toList, isBlank c = false) :
    (documents db now).splitOn '\n' = tableLines db now := by
  have hlines : ∀ line ∈ tableLines db now, '\n' ∉ line := newline_notMem_tableLines hkeys
  -- the last line is that of a document, so it ends with a lifetime
  have hrows : rows db now ≠ [] := fun hnil => by
    rw [KeyMap.isEmpty, List.map_eq_nil_iff.mp hnil] at hne
    cases hne
  obtain ⟨front, last, hlast⟩ := (List.eq_nil_or_concat' (rows db now)).resolve_left hrows
  have hmem : last ∈ rows db now := by
    rw [hlast]
    simp
  obtain ⟨entry, -, hentry⟩ := List.mem_map.mp hmem
  have hends : EndsInWord (last.line (widths db now)) := by
    rw [← hentry]
    exact (endsInWord_ttl now entry.1 entry.2).append _
  have hcut : tableLines db now = (header.line (widths db now) :: ruleText (widths db now) ::
      front.map (Row.line (widths db now))) ++ [last.line (widths db now)] := by
    rw [tableLines, hlast]
    simp
  rw [documents_eq hne]
  rw [hcut] at hlines ⊢
  exact splitOn_lines _ hends hlines

/-- The separators stand behind as many characters as the first columns are wide. -/
theorem tableLines_aligned (db : Database) (now : Millis) : ∀ line ∈ tableLines db now,
    ∃ separator ∈ [" | ".toList, "-+-".toList], ∃ first second third,
      line = first ++ separator ++ second ++ separator ++ third ∧
        first.length = (widths db now).key ∧ second.length = (widths db now).value := by
  obtain ⟨hkey, hvalue, -⟩ := isGreatest_widths db now
  have hrow : ∀ row ∈ header :: rows db now, ∃ separator ∈ [" | ".toList, "-+-".toList],
      ∃ first second third, row.line (widths db now) =
        first ++ separator ++ second ++ separator ++ third ∧
        first.length = (widths db now).key ∧ second.length = (widths db now).value :=
    fun row hrow => ⟨_, List.mem_cons_self, _, _, _, rfl, length_padded (hkey.2 ⟨row, hrow, rfl⟩),
      length_padded (hvalue.2 ⟨row, hrow, rfl⟩)⟩
  refine List.forall_mem_cons.mpr ⟨hrow _ List.mem_cons_self, List.forall_mem_cons.mpr ⟨?_, ?_⟩⟩
  · exact ⟨"-+-".toList, by simp, _, _, _, rfl, List.length_replicate, List.length_replicate⟩
  · intro line hline
    obtain ⟨row, hmem, rfl⟩ := List.mem_map.mp hline
    exact hrow row (List.mem_cons_of_mem _ hmem)

/-- What the table of the documents looks like. Under the heads of the columns and a line of dashes, the
    documents stand in the order of their keys, each on one line: its key, its payload and its lifetime. The
    first two cells are filled up to the widths of their columns. -/
structure IsTable (db : Database) (now : Millis) (widths : Widths) (lines : List (List Char)) : Prop where
  length_eq : lines.length = db.documents.size + 2
  key_width : IsGreatest {n | ∃ row ∈ header :: rows db now, row.key.length = n} widths.key
  value_width : IsGreatest {n | ∃ row ∈ header :: rows db now, row.value.length = n} widths.value
  ttl_width : IsGreatest {n | ∃ row ∈ header :: rows db now, row.ttl.length = n} widths.ttl
  head : lines[0]? = some (padded "KEY".toList widths.key ++ " | ".toList ++
    padded "VALUE".toList widths.value ++ " | ".toList ++ "TTL".toList)
  rule : lines[1]? = some (List.replicate widths.key '-' ++ "-+-".toList ++
    List.replicate widths.value '-' ++ "-+-".toList ++ List.replicate widths.ttl '-')
  document : ∀ (i : Nat) key record, db.documents.entries[i]? = some (key, record) →
    ∃ value, ShowsValue record.payload value ∧
      (rows db now)[i]? = some ⟨key.toList, value, (record.status now).text.toList⟩ ∧
      lines[i + 2]? = some (padded key.toList widths.key ++ " | ".toList ++
        padded value widths.value ++ " | ".toList ++ (record.status now).text.toList)
  aligned : ∀ line ∈ lines, ∃ separator ∈ [" | ".toList, "-+-".toList], ∃ first second third,
    line = first ++ separator ++ second ++ separator ++ third ∧
      first.length = widths.key ∧ second.length = widths.value

end Table

end View

namespace Database

open View (IsTable ShowsValue)

/-- **The table of the documents** of a database that is not empty and has no blank in its keys, at any
    time: no document is left out, no line is broken, and all lines are aligned. -/
theorem documentsView_isTable {db : Database} (hne : db.documents.isEmpty = false)
    (hkeys : ∀ entry ∈ db.documents.entries, ∀ c ∈ entry.1.toList, isBlank c = false) (now : Millis) :
    IsTable db now (View.widths db now) ((db.documentsView now).toList.splitOn '\n') := by
  have hlines : (db.documentsView now).toList.splitOn '\n' = View.tableLines db now := by
    rw [documentsView, String.toList_ofList, View.splitOn_documents hne hkeys]
  obtain ⟨hkey, hvalue, httl⟩ := View.isGreatest_widths db now
  rw [hlines]
  refine ⟨?_, hkey, hvalue, httl, rfl, rfl, ?_, View.tableLines_aligned db now⟩
  · simp [View.tableLines, View.rows, KeyMap.size]
  · intro i key record hentry
    have hrow : (View.rows db now)[i]? = some (View.Row.ofRecord now key record) := by
      rw [View.rows, List.getElem?_map, hentry]
      rfl
    refine ⟨_, View.showsValue_truncate record.payload, hrow, ?_⟩
    rw [View.tableLines, List.getElem?_cons_succ, List.getElem?_cons_succ, List.getElem?_map, hrow]
    rfl

/-- A separator of lines that is no line break stands in a cell like any other character. -/
theorem documentsView_isTable_separator :
    let db := empty.insert "k\u00e9"
      (Record.create (KeyMap.empty.insert "a" (Json.string "\u2028")) (some 1500) 0)
    db.documents.isEmpty = false ∧
      (∀ entry ∈ db.documents.entries, ∀ c ∈ entry.1.toList, isBlank c = false) ∧
      IsTable db 0 (View.widths db 0) ((db.documentsView 0).toList.splitOn '\n') := by
  intro db
  have hne : db.documents.isEmpty = false := rfl
  have hkeys : ∀ entry ∈ db.documents.entries, ∀ c ∈ entry.1.toList, isBlank c = false := by
    simp [db, Database.insert, KeyMap.insert, KeyMap.insertEntry, empty, KeyMap.empty, isBlank]
  exact ⟨hne, hkeys, documentsView_isTable hne hkeys 0⟩

example : (empty.insert "k\u00e9"
    (Record.create (KeyMap.empty.insert "a" (Json.string "\u2028")) (some 1500) 0)).documentsView 0 =
      "KEY | VALUE     | TTL\n----+-----------+----\nk\u00e9  | \x7b\"a\":\"\u2028\"\x7d | 2s" := by
  decide +kernel

end Database

end DocStore
