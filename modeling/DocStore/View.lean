import DocStore.Database
import DocStore.Text.Blank

/-!
# Views

The texts that show a database: a table of its documents and a dump of its index buckets.

## Contents
- `Row`, `Row.text`, `ruleText`: the lines of the table.
- `documentsView`, `indicesView`, `view`: the texts.
-/

namespace DocStore

namespace View

/-! ## Cells -/

/-- The most characters that the value of a document may take in the table. -/
def maxValueWidth : Nat := 48

/-- A text of at most the given number of characters, cut and marked if it has more. -/
def truncate (text : List Char) (width : Nat) : List Char :=
  if text.length ≤ width then text else text.take (width - 3) ++ ['.', '.', '.']

/-- A text filled up with blanks to a number of characters. -/
def padded (text : List Char) (width : Nat) : List Char :=
  text ++ List.replicate (width - text.length) ' '

/-! ## Rows -/

/-- The three cells of a line of the table. -/
structure Row where
  key : List Char
  value : List Char
  ttl : List Char

/-- The heads of the columns. -/
def header : Row :=
  ⟨"KEY".toList, "VALUE".toList, "TTL".toList⟩

/-- The row of a document. -/
def Row.ofRecord (now : Millis) (key : String) (record : Record) : Row :=
  ⟨key.toList, truncate (Json.object record.payload).tree.compact maxValueWidth,
    (record.status now).text.toList⟩

/-- The widths of the three columns. -/
structure Widths where
  key : Nat
  value : Nat
  ttl : Nat

/-- The widths at which every row fits. -/
def Widths.ofRows (rows : List Row) : Widths :=
  rows.foldl
    (fun widths row =>
      ⟨max widths.key row.key.length, max widths.value row.value.length,
        max widths.ttl row.ttl.length⟩)
    ⟨0, 0, 0⟩

/-- A line of the table. -/
def Row.text (widths : Widths) (row : Row) : List Char :=
  Text.trimEnd
    (padded row.key widths.key ++ " | ".toList ++ padded row.value widths.value ++ " | ".toList ++
      padded row.ttl widths.ttl)

/-- The line below the heads of the columns. -/
def ruleText (widths : Widths) : List Char :=
  List.replicate widths.key '-' ++ "-+-".toList ++ List.replicate widths.value '-' ++
    "-+-".toList ++ List.replicate widths.ttl '-'

/-- Lines, each with its line break, without the blanks at the very end. -/
def lines (parts : List (List Char)) : List Char :=
  Text.trimEnd (parts.flatMap fun part => part ++ ['\n'])

/-! ## Documents -/

/-- The table of the documents at a given time. -/
def documents (db : Database) (now : Millis) : List Char :=
  if db.documents.isEmpty then "(no documents)".toList
  else
    let rows := db.documents.entries.map fun entry => Row.ofRecord now entry.1 entry.2
    let widths := Widths.ofRows (header :: rows)
    lines (header.text widths :: ruleText widths :: rows.map (Row.text widths))

/-! ## Indices -/

/-- A bucket with its name. -/
def bucket (name : String) (contents : Bucket) : List Char :=
  name.toList ++ [':', '\n'] ++ (Json.object contents).tree.pretty

/-- The dump of the index buckets that are not empty. -/
def indices (db : Database) : List Char :=
  let shown := db.indices.entries.filter fun entry => !entry.2.isEmpty
  if shown.isEmpty then "(no indices)".toList
  else lines (shown.map fun entry => bucket entry.1 entry.2)

end View

/-- The table of the documents at a given time. -/
def Database.documentsView (db : Database) (now : Millis) : String :=
  String.ofList (View.documents db now)

/-- The dump of the index buckets. -/
def Database.indicesView (db : Database) : String :=
  String.ofList (View.indices db)

/-- Both views, with an empty line between them. -/
def Database.view (db : Database) (now : Millis) : String :=
  db.documentsView now ++ "\n\n" ++ db.indicesView

end DocStore
