import DocStore.KeyMap
import DocStore.Json.Fault

/-!
# Commands and replies

## Contents
- `Command`: the five commands, with their names, usages and effects.
- `CommandError`: the ways in which a command fails, and their wording.
- `Reply`: what a line is answered with.
-/

namespace DocStore

/-! ## Commands -/

/-- The commands of a database. -/
inductive Command
  | set
  | get
  | del
  | index
  | range
  deriving DecidableEq

namespace Command

/-- All commands in the order in which they are listed. -/
def all : List Command :=
  [.set, .get, .del, .index, .range]

/-- The name of a command. -/
def name : Command → String
  | .set => "SET"
  | .get => "GET"
  | .del => "DEL"
  | .index => "INDEX"
  | .range => "RANGE"

/-- The command with a name. -/
def lookup (verb : String) : Option Command :=
  all.find? fun command => command.name == verb

/-- The form of a command. -/
def usage : Command → String
  | .set => "SET <key> <jsonObject> [ttlMillis]"
  | .get => "GET <key>"
  | .del => "DEL <key>"
  | .index => "INDEX <baseKey> <field> <value>"
  | .range => "RANGE <field> <start> <end>"

/-- Whether a command may change the database. -/
def isWrite : Command → Bool
  | .get => false
  | _ => true

end Command

/-! ## Errors -/

/-- The ways in which a command fails. -/
inductive CommandError
  | missingArgument (what : String)
  | noObject
  | invalidJson (report : Json.Report)
  | keyNotFound (key : String)
  | baseKeyNotFound (key : String)
  | invalidField (field : String) (allowed : KeySet)
  | invalidValue (value : String) (allowed : KeySet)
  | valueMismatch (field value actual : String)
  | nonNumericRange (low high : String)
  | unknownCommand (verb : String)
  deriving DecidableEq

/-- The members of a set, in order. -/
def listing (texts : KeySet) : String :=
  String.intercalate ", " texts.keys

/-- The wording of an error. -/
def CommandError.message : CommandError → String
  | .missingArgument what => "Missing argument: " ++ what
  | .noObject => "Invalid JSON: no JSON object found"
  | .invalidJson report => "Invalid JSON: " ++ report.message
  | .keyNotFound key => "Key not found: " ++ key
  | .baseKeyNotFound key => "Base key not found: " ++ key
  | .invalidField field allowed =>
    "Invalid field '" ++ field ++ "'. Valid fields: " ++ listing allowed
  | .invalidValue value allowed =>
    "Invalid value '" ++ value ++ "'. Valid values: " ++ listing allowed
  | .valueMismatch field value actual =>
    "Value mismatch: field '" ++ field ++ "' is '" ++ actual ++ "', not '" ++ value ++ "'"
  | .nonNumericRange low high =>
    "Range bounds must be numbers, got '" ++ low ++ "' and '" ++ high ++ "'"
  | .unknownCommand verb => "Unknown command: " ++ verb

/-! ## Replies -/

/-- What a line is answered with: the command, if the verb names one, and its text or error. -/
structure Reply where
  command : Option Command
  result : Except CommandError String

namespace Reply

/-- Whether a reply reports success. -/
def isOk (reply : Reply) : Bool :=
  match reply.result with
  | .ok _ => true
  | .error _ => false

/-- Whether a reply reports the success of a command that may change the database. -/
def mutated (reply : Reply) : Bool :=
  reply.isOk && (reply.command.map Command.isWrite).getD false

/-- A reply as it is shown. -/
def text (reply : Reply) : String :=
  match reply.result with
  | .ok text => text
  | .error error => "Error: " ++ error.message

end Reply

end DocStore
