import DocStore.Decimal.Literal
import DocStore.Text.Uppercase

/-!
# Command lines

A line is cut into its words. The first one is the verb, in any case of its letters; the others are
the arguments.

## Contents
- `CommandLine`: a line that is not blank; `CommandLine.parse` reads one.
- `joinTokens`: tokens with single blanks between them.
- `PayloadSpan`: the document and the lifetime among the arguments of a line.
-/

namespace DocStore

/-- A line that is not blank: its first word and the words after it. -/
structure CommandLine where
  first : String
  args : List String
  deriving DecidableEq

namespace CommandLine

/-- The words of a line; nothing if it is blank. -/
def parse (line : String) : Option CommandLine :=
  match Text.words line.toList with
  | [] => none
  | word :: rest => some ⟨String.ofList word, rest.map String.ofList⟩

/-- The first word in upper case. -/
def verb (line : CommandLine) : String :=
  String.ofList (Text.uppercase line.first.toList)

/-- All words. -/
def tokens (line : CommandLine) : List String :=
  line.first :: line.args

end CommandLine

/-- Tokens with single blanks between them. -/
def joinTokens (tokens : List String) : String :=
  String.intercalate " " tokens

/-! ## Payloads -/

/-- Whether a token starts a JSON object. -/
def opensObject (token : String) : Bool :=
  token.toList.head? == some '\x7b'

/-- The text of a document and the lifetime that may follow it. -/
structure PayloadSpan where
  json : String
  ttl : Option Binary64
  deriving DecidableEq

/-- The document among some tokens: it goes from the first token that starts an object to the end,
    except for a last token that is a number, which is the lifetime. -/
def PayloadSpan.find? (tokens : List String) : Option PayloadSpan :=
  match tokens.dropWhile fun token => !opensObject token with
  | [] => none
  | first :: rest =>
    let block := first :: rest
    match (block.getLast?).bind fun last => Decimal.parseNumber last.toList with
    | some ttl => some ⟨joinTokens block.dropLast, some ttl⟩
    | none => some ⟨joinTokens block, none⟩

end DocStore
