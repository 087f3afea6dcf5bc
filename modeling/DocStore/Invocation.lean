import DocStore.Decimal.Literal

/-!
# Invocations

What the arguments of the program ask for.

## Contents
- `Config`: the choices for a run.
- `Invocation`: a run, or an answer without one; `Invocation.parse` reads the arguments.
- `usageText`, `versionText`: the answers.
-/

namespace DocStore

/-- The choices for a run: the data file, whether to do without it, and the period in milliseconds at
    which the view is redrawn, zero for never. -/
structure Config where
  data : String
  memory : Bool
  refresh : Nat
  deriving DecidableEq

/-- The choices without arguments. -/
def Config.standard : Config :=
  ⟨"indexkv.json", false, 0⟩

/-- What the arguments ask for: a run, or two texts and an exit code. -/
inductive Invocation
  | run (config : Config)
  | stop (code : Nat) (out err : String)
  deriving DecidableEq

/-- The answer that explains the arguments. -/
def usageText : String :=
  "
IndexKV - An Embeddable JSON Document Store

USAGE:
    indexkv [OPTIONS]

OPTIONS:
    -d, --data <PATH>        Snapshot file (default: indexkv.json)
    -m, --memory             Do not load or save a snapshot
    -r, --refresh-ms <MS>    Redraw the document table every MS milliseconds (default: off)
    -v, --version            Print version information
    -h, --help               Print this help message

COMMANDS:
    SET <key> <jsonObject> [ttlMillis]
    GET <key>
    DEL <key>
    INDEX <baseKey> <field> <value>
    RANGE <field> <start> <end>
    .view  .help  .quit

EXAMPLE:
    > SET user:1 \x7b\"status\": \"active\", \"age\": 30\x7d 60000
    OK
    > INDEX user:1 status active
    Index created.
    > RANGE age 18 40

"

/-- The answer that names the version. -/
def versionText : String :=
  "IndexKV version 0.1.0\n"

/-- The value of a count: digits with an optional plus sign, below 2⁶⁴. -/
def readCount (text : String) : Option Nat :=
  let digits := match text.toList with
    | '+' :: rest => rest
    | chars => chars
  if digits.isEmpty || !digits.all Decimal.isDigit then none
  else
    let value := Decimal.digitsValue digits
    if value < 0x10000000000000000 then some value else none

/-- Reads arguments from left to right, after those that gave `config`. The first argument that is no
    choice ends the reading. -/
def Invocation.parseFrom (config : Config) : List String → Invocation
  | [] => .run config
  | arg :: rest =>
    if arg = "--data" ∨ arg = "-d" then
      match rest with
      | [] => .stop 1 "" "Error: --data requires a path\n"
      | path :: rest => parseFrom { config with data := path } rest
    else if arg = "--memory" ∨ arg = "-m" then parseFrom { config with memory := true } rest
    else if arg = "--refresh-ms" ∨ arg = "-r" then
      match rest with
      | [] => .stop 1 "" "Error: --refresh-ms requires a value\n"
      | count :: rest =>
        match readCount count with
        | none => .stop 1 "" "Error: invalid refresh interval\n"
        | some period => parseFrom { config with refresh := period } rest
    else if arg = "--help" ∨ arg = "-h" then .stop 0 usageText ""
    else if arg = "--version" ∨ arg = "-v" then .stop 0 versionText ""
    else .stop 1 usageText ("Unknown argument: " ++ arg ++ "\n")

/-- What some arguments ask for. -/
def Invocation.parse (args : List String) : Invocation :=
  parseFrom Config.standard args

end DocStore
