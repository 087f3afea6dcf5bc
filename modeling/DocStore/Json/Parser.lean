import DocStore.Json.Lexical

/-!
# Reading JSON values

A value is read by recursion on the number of brackets that may still be opened. The loops over the
items of an array and the members of an object are shared with the readers of particular types; each
round takes at least one byte, so a count of rounds that starts above the length of the text never
runs out.

## Contents
- `nextElement`, `closeArray`, `nextKey`, `colon`, `closeObject`: the steps between values.
- `elements`, `members`: the loops.
- `value`: values, `maxDepth` brackets deep.
- `parseWith`, `Json.parse`: a whole text, and its report when it is refused.
-/

namespace DocStore.Json.Reader

open Text (Bytes)

/-! ## Between values -/

/-- Goes to the next item of an array: the bytes from the item on, or nothing before the closing
    bracket. -/
def nextElement (first : Bool) (s : Bytes) : Except Fault (Option Bytes) :=
  match skipBlanks s with
  | [] => .error (.next .eofInList [])
  | b :: rest =>
    if b = Byte.closeBracket then .ok none
    else if first then .ok (some (b :: rest))
    else if b = Byte.comma then
      match skipBlanks rest with
      | [] => .error (.next .eofInValue [])
      | c :: rest =>
        if c = Byte.closeBracket then .error (.next .trailingComma (c :: rest))
        else .ok (some (c :: rest))
    else .error (.next .expectedListCommaOrEnd (b :: rest))

/-- Takes the closing bracket of an array. -/
def closeArray (s : Bytes) : Except Fault Bytes :=
  match skipBlanks s with
  | [] => .error (.next .eofInList [])
  | b :: rest =>
    if b = Byte.closeBracket then .ok rest
    else if b = Byte.comma then
      match skipBlanks rest with
      | [] => .error (.next .trailingCharacters [])
      | c :: rest =>
        if c = Byte.closeBracket then .error (.next .trailingComma (c :: rest))
        else .error (.next .trailingCharacters (c :: rest))
    else .error (.next .trailingCharacters (b :: rest))

/-- Goes to the next member of an object: its key and the bytes after it, or nothing before the
    closing brace. -/
def nextKey (first : Bool) (s : Bytes) : Except Fault (Option (String × Bytes)) :=
  match skipBlanks s with
  | [] => .error (.next .eofInObject [])
  | b :: rest =>
    if b = Byte.closeBrace then .ok none
    else if first then
      if b = Byte.quote then (string rest).map some
      else .error (.next .keyNotString (b :: rest))
    else if b = Byte.comma then
      match skipBlanks rest with
      | [] => .error (.next .eofInValue [])
      | c :: rest =>
        if c = Byte.quote then (string rest).map some
        else if c = Byte.closeBrace then .error (.next .trailingComma (c :: rest))
        else .error (.next .keyNotString (c :: rest))
    else .error (.next .expectedObjectCommaOrEnd (b :: rest))

/-- Takes the colon after a key. -/
def colon (s : Bytes) : Except Fault Bytes :=
  match skipBlanks s with
  | [] => .error (.next .eofInObject [])
  | b :: rest =>
    if b = Byte.colon then .ok rest else .error (.next .expectedColon (b :: rest))

/-- Takes the closing brace of an object. -/
def closeObject (s : Bytes) : Except Fault Bytes :=
  match skipBlanks s with
  | [] => .error (.next .eofInObject [])
  | b :: rest =>
    if b = Byte.closeBrace then .ok rest
    else if b = Byte.comma then .error (.next .trailingComma (b :: rest))
    else .error (.next .trailingCharacters (b :: rest))

/-! ## Loops -/

/-- Reads the items of an array up to its closing bracket, in at most `rounds` rounds. -/
def elements {α : Type} (element : Bytes → Result α) :
    (rounds : Nat) → (seen : List α) → Bytes → Result (List α)
  | 0, _, s => .error (.next .eofInList s)
  | rounds + 1, seen, s =>
    match nextElement seen.isEmpty s with
    | .error fault => .error fault
    | .ok none => .ok (seen.reverse, s)
    | .ok (some s) =>
      match element s with
      | .error fault => .error fault
      | .ok (item, s) => elements element rounds (item :: seen) s

/-- Reads the members of an object up to its closing brace, in at most `rounds` rounds. Each member
    is read from the bytes after its key, and `state` is what the members so far have given. -/
def members {σ : Type} (member : σ → String → Bytes → Result σ) :
    (rounds : Nat) → (first : Bool) → (state : σ) → Bytes → Result σ
  | 0, _, _, s => .error (.next .eofInObject s)
  | rounds + 1, first, state, s =>
    match nextKey first s with
    | .error fault => .error fault
    | .ok none => .ok (state, s)
    | .ok (some (key, s)) =>
      match member state key s with
      | .error fault => .error fault
      | .ok (state, s) => members member rounds false state s

/-- Reads a member whose value is read alike for every key. -/
def uniformMember {α : Type} (item : Bytes → Result α) (seen : List (String × α)) (key : String)
    (s : Bytes) : Result (List (String × α)) :=
  match colon s with
  | .error fault => .error fault
  | .ok s =>
    match item s with
    | .error fault => .error fault
    | .ok (value, s) => .ok ((key, value) :: seen, s)

/-- Reads an array after its opening bracket. -/
def arrayOf {α : Type} (rounds : Nat) (element : Bytes → Result α) (s : Bytes) :
    Result (List α) :=
  match elements element rounds [] s with
  | .error fault => .error fault
  | .ok (items, s) => (closeArray s).map (items, ·)

/-- Reads an object after its opening brace, all members alike. -/
def objectOf {α : Type} (rounds : Nat) (item : Bytes → Result α) (s : Bytes) :
    Result (KeyMap α) :=
  match members (uniformMember item) rounds true [] s with
  | .error fault => .error fault
  | .ok (seen, s) => (closeObject s).map (KeyMap.ofList seen.reverse, ·)

/-! ## Values -/

/-- How many brackets may be open at once. -/
def maxDepth : Nat := 127

/-- Reads a value, given the reader for the values inside it if brackets may still be opened. -/
def valueWith (rounds : Nat) (inner : Option (Bytes → Result Json)) (s : Bytes) : Result Json :=
  match skipBlanks s with
  | [] => .error (.next .eofInValue [])
  | b :: rest =>
    if b = Byte.openBracket then
      match inner with
      | none => .error (.next .recursionLimit (b :: rest))
      | some item => (arrayOf rounds item rest).map fun (items, s) => (Json.array items, s)
    else if b = Byte.openBrace then
      match inner with
      | none => .error (.next .recursionLimit (b :: rest))
      | some item => (objectOf rounds item rest).map fun (payload, s) => (Json.object payload, s)
    else scalar b rest

/-- Reads a value inside which at most `depth` brackets are open at once. -/
def value (rounds : Nat) : (depth : Nat) → Bytes → Result Json
  | 0 => valueWith rounds none
  | depth + 1 => valueWith rounds (some (value rounds depth))

/-! ## Whole texts -/

/-- Reads a whole text with a reader that is given the number of rounds: nothing but white space may
    follow. -/
def parseWith {α : Type} (reader : Nat → Bytes → Result α) (text : Bytes) : Except Report α :=
  match reader (text.length + 1) text with
  | .error fault => .error (fault.report text)
  | .ok (result, rest) =>
    match skipBlanks rest with
    | [] => .ok result
    | b :: rest => .error ((Fault.next .trailingCharacters (b :: rest)).report text)

end Reader

/-- The value that a text denotes. -/
def parse (text : Text.Bytes) : Except Report Json :=
  Reader.parseWith (fun rounds => Reader.value rounds Reader.maxDepth) text

end DocStore.Json
