import DocStore.Json.Skip

/-!
# Reading particular types

Readers for values of a known type. A value of another type is refused by naming both; a scalar of
another type is read first, so that its own faults win.

## Contents
- `mismatch`: the refusal of a value of another type.
- `text`, `int64`, `optional`, `sequence`, `mapping`: readers for the types.
- `opened`: an array or object with fixed parts, and the places of faults that concern it as a whole.
-/

namespace DocStore.Json.Reader

open Text (Bytes)

/-- Refuses the value that starts with the byte `b`. -/
def mismatch (expected : Expected) (b : UInt8) (rest : Bytes) : Fault :=
  if b = Byte.openBracket then .here (.invalidType .sequence expected) (b :: rest)
  else if b = Byte.openBrace then .here (.invalidType .map expected) (b :: rest)
  else
    match scalar b rest with
    | .error fault => fault
    | .ok (value, rest) => .here (.invalidType (.scalar value.tree) expected) rest

/-! ## Scalars -/

/-- Reads a string. -/
def text (s : Bytes) : Result String :=
  match skipBlanks s with
  | [] => .error (.next .eofInValue [])
  | b :: rest => if b = Byte.quote then string rest else .error (mismatch .string b rest)

/-- Accepts a number that is a signed integer of 64 bits. -/
def asInt64 : Number → Except Cause Int64
  | .integer value lower upper =>
    if value < 0x8000000000000000 then .ok (Int64.ofInt value)
    else .error (.invalidValue (.scalar (.number (.integer value lower upper))) .int64)
  | .binary value finite =>
    .error (.invalidType (.scalar (.number (.binary value finite))) .int64)

/-- Reads a signed integer of 64 bits. -/
def int64 (s : Bytes) : Result Int64 :=
  match skipBlanks s with
  | [] => .error (.next .eofInValue [])
  | b :: rest =>
    if b = Byte.minus ∨ Byte.isDigit b = true then
      match number (b == Byte.minus) (if b = Byte.minus then rest else b :: rest) with
      | .error fault => .error fault
      | .ok (value, rest) =>
        match asInt64 value with
        | .ok n => .ok (n, rest)
        | .error cause => .error (.here cause rest)
    else .error (mismatch .int64 b rest)

/-- Reads `null` as nothing and any other value as something. -/
def optional {α : Type} (item : Bytes → Result α) (s : Bytes) : Result (Option α) :=
  match skipBlanks s with
  | [] => (item []).map fun (value, s) => (some value, s)
  | b :: rest =>
    if b = 0x6e then (word [0x75, 0x6c, 0x6c] rest).map (none, ·)
    else (item (b :: rest)).map fun (value, s) => (some value, s)

/-! ## Sequences and maps -/

/-- Reads an array of items of one type; it opens one of `depth` brackets. -/
def sequence {α : Type} (rounds depth : Nat) (item : Bytes → Result α) (s : Bytes) :
    Result (List α) :=
  match skipBlanks s with
  | [] => .error (.next .eofInValue [])
  | b :: rest =>
    if b = Byte.openBracket then
      if depth = 0 then .error (.next .recursionLimit (b :: rest))
      else arrayOf rounds item rest
    else .error (mismatch .sequence b rest)

/-- Reads an object whose members are of one type; it opens one of `depth` brackets. -/
def mapping {α : Type} (rounds depth : Nat) (item : (depth : Nat) → Bytes → Result α) (s : Bytes) :
    Result (KeyMap α) :=
  match skipBlanks s with
  | [] => .error (.next .eofInValue [])
  | b :: rest =>
    if b = Byte.openBrace then
      match depth with
      | 0 => .error (.next .recursionLimit (b :: rest))
      | depth + 1 => objectOf rounds (item depth) rest
    else .error (mismatch .map b rest)

/-! ## Fixed parts -/

/-- A fault that concerns an array as a whole is placed where its end would be. -/
def afterArray (cause : Cause) (s : Bytes) : Fault :=
  match skipBlanks s with
  | [] => .here cause []
  | b :: rest =>
    if b = Byte.closeBracket then .here cause rest
    else if b = Byte.comma then .here cause (skipBlanks rest)
    else .here cause (b :: rest)

/-- A fault that concerns an object as a whole is placed where its end would be. -/
def afterObject (cause : Cause) (s : Bytes) : Fault :=
  match skipBlanks s with
  | [] => .here cause []
  | b :: rest => if b = Byte.closeBrace then .here cause rest else .here cause (b :: rest)

/-- Reads the next part of an array with fixed parts; nothing if the array ends before it. -/
def part {α : Type} (first : Bool) (item : Bytes → Result α) (s : Bytes) : Result (Option α) :=
  match nextElement first s with
  | .error fault => .error fault
  | .ok none => .ok (none, s)
  | .ok (some s) => (item s).map fun (value, s) => (some value, s)

/-- Reads the value of a field that may be given once. -/
def field {α : Type} (name : String) (seen : Option α) (item : Bytes → Result α) (s : Bytes) :
    Result (Option α) :=
  if seen.isSome then .error (afterObject (.duplicateField name) s)
  else
    match colon s with
    | .error fault => .error fault
    | .ok s => (item s).map fun (value, s) => (some value, s)

/-- Passes over the value of a field that is not known. -/
def unknownField (rounds : Nat) (s : Bytes) : Except Fault Bytes :=
  match colon s with
  | .error fault => .error fault
  | .ok s => skipValue rounds s

/-- Reads a value that is written as an array of its parts or as an object of its fields; it opens one
    of `depth` brackets. -/
def opened {α : Type} (name : String) (depth : Nat) (parts fields : (depth : Nat) → Bytes → Result α)
    (s : Bytes) : Result α :=
  match skipBlanks s with
  | [] => .error (.next .eofInValue [])
  | b :: rest =>
    if b = Byte.openBracket then
      match depth with
      | 0 => .error (.next .recursionLimit (b :: rest))
      | depth + 1 =>
        match parts depth rest with
        | .error fault => .error fault
        | .ok (value, s) => (closeArray s).map (value, ·)
    else if b = Byte.openBrace then
      match depth with
      | 0 => .error (.next .recursionLimit (b :: rest))
      | depth + 1 =>
        match fields depth rest with
        | .error fault => .error fault
        | .ok (value, s) => (closeObject s).map (value, ·)
    else .error (mismatch (.struct name) b rest)

end DocStore.Json.Reader

namespace DocStore.Json

/-- The members of the object that a text denotes. -/
def parseObject (input : Text.Bytes) : Except Report Payload :=
  Reader.parseWith
    (fun rounds => Reader.mapping rounds Reader.maxDepth fun depth => Reader.value rounds depth) input

end DocStore.Json
