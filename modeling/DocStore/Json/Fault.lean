import DocStore.Json.Printer
import DocStore.Text.Quoted
import DocStore.Text.Utf8

/-!
# Faults of JSON texts

Why a text is refused, and where. While a text is read, a place in it is known by the number of bytes
that follow it; a report turns it into a line and a column.

## Contents
- `Found`, `Expected`: what stands in the text and what a reader asked for.
- `Cause`, `Cause.message`: the reasons for a refusal and their wording.
- `Fault`: a cause at a place; `Fault.here` and `Fault.next` are the two places that readers name.
- `Report`: a cause at a line and a column; `Fault.report` computes it from the whole text.
-/

namespace DocStore.Json

open Text (Bytes)

/-! ## Causes -/

/-- What stands in the text: a scalar, or the beginning of a sequence or a map. -/
inductive Found
  | scalar (value : Tree)
  | sequence
  | map
  deriving DecidableEq

/-- What a reader asked for. -/
inductive Expected
  | map
  | sequence
  | string
  | int64
  | struct (name : String)
  deriving DecidableEq

/-- Why a text is refused. -/
inductive Cause
  | eofInList
  | eofInObject
  | eofInString
  | eofInValue
  | expectedColon
  | expectedListCommaOrEnd
  | expectedObjectCommaOrEnd
  | expectedIdent
  | expectedValue
  | invalidEscape
  | invalidNumber
  | numberOutOfRange
  | invalidCodePoint
  | controlCharacter
  | keyNotString
  | loneSurrogate
  | trailingComma
  | trailingCharacters
  | endOfHexEscape
  | recursionLimit
  | invalidType (found : Found) (expected : Expected)
  | invalidValue (found : Found) (expected : Expected)
  | invalidLength (length : Nat) (expected : Expected) (fields : Nat)
  | missingField (name : String)
  | duplicateField (name : String)
  deriving DecidableEq

/-! ## Wording -/

/-- Puts a text between grave accents. -/
def accented (text : String) : String :=
  "`" ++ text ++ "`"

/-- How a message names what stands in the text. -/
def Found.text : Found → String
  | .scalar .null => "null"
  | .scalar (.bool value) => "boolean " ++ accented (if value then "true" else "false")
  | .scalar (.number (.integer value lower upper)) =>
    "integer " ++ accented (String.ofList (Tree.numberText (.integer value lower upper)))
  | .scalar (.number (.binary value finite)) =>
    "floating point " ++ accented (String.ofList (Tree.numberText (.binary value finite)))
  | .scalar (.string value) => "string " ++ String.ofList (Text.Quoted.quote value.toList)
  | .scalar (.array _) | .sequence => "sequence"
  | .scalar (.object _) | .map => "map"

/-- How a message names what was asked for. -/
def Expected.text : Expected → String
  | .map => "a map"
  | .sequence => "a sequence"
  | .string => "a string"
  | .int64 => "i64"
  | .struct name => "struct " ++ name

/-- The wording of a cause. -/
def Cause.message : Cause → String
  | .eofInList => "EOF while parsing a list"
  | .eofInObject => "EOF while parsing an object"
  | .eofInString => "EOF while parsing a string"
  | .eofInValue => "EOF while parsing a value"
  | .expectedColon => "expected " ++ accented ":"
  | .expectedListCommaOrEnd => "expected " ++ accented "," ++ " or " ++ accented "]"
  | .expectedObjectCommaOrEnd => "expected " ++ accented "," ++ " or " ++ accented "\x7d"
  | .expectedIdent => "expected ident"
  | .expectedValue => "expected value"
  | .invalidEscape => "invalid escape"
  | .invalidNumber => "invalid number"
  | .numberOutOfRange => "number out of range"
  | .invalidCodePoint => "invalid unicode code point"
  | .controlCharacter => "control character (\\u0000-\\u001F) found while parsing a string"
  | .keyNotString => "key must be a string"
  | .loneSurrogate => "lone leading surrogate in hex escape"
  | .trailingComma => "trailing comma"
  | .trailingCharacters => "trailing characters"
  | .endOfHexEscape => "unexpected end of hex escape"
  | .recursionLimit => "recursion limit exceeded"
  | .invalidType found expected => "invalid type: " ++ found.text ++ ", expected " ++ expected.text
  | .invalidValue found expected => "invalid value: " ++ found.text ++ ", expected " ++ expected.text
  | .invalidLength length expected fields =>
    "invalid length " ++ toString length ++ ", expected " ++ expected.text ++ " with " ++
      toString fields ++ " elements"
  | .missingField name => "missing field " ++ accented name
  | .duplicateField name => "duplicate field " ++ accented name

/-! ## Places -/

/-- A cause at a place, which is known by the number of bytes that follow it. -/
structure Fault where
  cause : Cause
  left : Nat
  deriving DecidableEq

/-- A fault at the end of what has been read, before the bytes `rest`. -/
def Fault.here (cause : Cause) (rest : Bytes) : Fault :=
  ⟨cause, rest.length⟩

/-- A fault at the next byte, the first of `rest`, or at the end of the text. -/
def Fault.next (cause : Cause) (rest : Bytes) : Fault :=
  ⟨cause, rest.length - 1⟩

/-! ## Reports -/

/-- A cause with the line of its place and the number of bytes before it on that line. -/
structure Report where
  cause : Cause
  line : Nat
  column : Nat
  deriving DecidableEq

/-- The line and the column at the end of the bytes before a place. -/
def lineAndColumn (before : Bytes) : Nat × Nat :=
  before.foldl (fun place b => if b = 0x0a then (place.1 + 1, 0) else (place.1, place.2 + 1)) (1, 0)

/-- The report of a fault in a text. -/
def Fault.report (text : Bytes) (fault : Fault) : Report :=
  let place := lineAndColumn (text.take (text.length - fault.left))
  ⟨fault.cause, place.1, place.2⟩

/-- The wording of a report. -/
def Report.message (report : Report) : String :=
  report.cause.message ++ s!" at line {report.line} column {report.column}"

end DocStore.Json
