/-!
# Paths

The path of a data file and the path of the temporary file beside it.

## Contents
- `DataPath`: the pieces of a path; `DataPath.parse` and `DataPath.text` relate it to its text.
- `DataPath.parts`: the steps of a path, without the pieces that lead nowhere.
- `DataPath.temporary`: the path beside a data file that a save writes first.
-/

namespace DocStore

/-- A path: the pieces of its text between the slashes. -/
structure DataPath where
  pieces : List String
  deriving DecidableEq

namespace DataPath

/-- The path that a text denotes. -/
def parse (text : String) : DataPath :=
  ⟨text.splitOn "/"⟩

/-- The text of a path. -/
def text (path : DataPath) : String :=
  String.intercalate "/" path.pieces

/-- The number of bytes of the text of a path. -/
def byteLength (path : DataPath) : Nat :=
  path.text.utf8ByteSize

/-! ## Steps -/

/-- Whether a piece leads nowhere: it is empty or `.`. -/
def isStill (piece : String) : Bool :=
  piece == "" || piece == "."

/-- The steps among some pieces. -/
def steps (pieces : List String) : List String :=
  pieces.filter fun piece => !isStill piece

/-- The steps of a path: names and `..`. -/
def parts (path : DataPath) : List String :=
  steps path.pieces

/-- Whether a path has no text. Such a path names nothing. -/
def blank (path : DataPath) : Bool :=
  path.text == ""

/-- Whether a path goes from the root. -/
def absolute (path : DataPath) : Bool :=
  path.pieces.head? == some "" && 1 < path.pieces.length

/-- Whether a path asks for a directory by ending in a slash or `.`. -/
def asDirectory (path : DataPath) : Bool :=
  !path.blank && (path.pieces.getLast?.map isStill).getD false

/-! ## The temporary file -/

/-- What the name of a temporary file ends in. -/
def temporaryMark : String := ".tmp"

/-- The pieces up to the last step. Of pieces without a step the first one stays, since it tells the
    root from the current directory. -/
def upToLastStep (pieces : List String) : List String :=
  match pieces.reverse.dropWhile isStill with
  | [] => pieces.take 1
  | last :: above => (last :: above).reverse

/-- Some pieces and a name in the directory they lead to. A slash at their end is not doubled. -/
def attach (pieces : List String) (name : String) : List String :=
  if pieces.getLast? = some "" then pieces.dropLast ++ [name] else pieces ++ [name]

/-- The pieces of the path of a temporary file: it stands beside the last name, or, if the last step
    is not a name, in the directory that the pieces lead to. -/
def temporaryPieces (pieces : List String) : List String :=
  match pieces.reverse.dropWhile isStill with
  | [] => attach pieces temporaryMark
  | name :: above =>
    if name = ".." then attach pieces temporaryMark
    else upToLastStep above.reverse ++ [name ++ temporaryMark]

/-- The path of the temporary file of a data file. -/
def temporary (path : DataPath) : DataPath :=
  ⟨temporaryPieces path.pieces⟩

end DataPath

end DocStore
