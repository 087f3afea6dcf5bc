import DocStore.Json.Parser

/-!
# Skipping values

A value that nobody asked for is passed over. Only its shape is checked: brackets may be nested
without limit, numbers may be of any size, and strings may hold any bytes that are no controls.

## Contents
- `skipNumber`, `skipString`, `skipScalar`: values without brackets.
- `Bracket`: an open bracket that a skipped value has to close.
- `skipFrom`: the loop over the parts of a value; `skipValue`: a whole value.
-/

namespace DocStore.Json.Reader

open Text (Bytes)

/-! ## Scalars -/

/-- Passes over the digits of an exponent, after its letter. -/
def skipExponent (s : Bytes) : Except Fault Bytes :=
  match exponentSign s with
  | (_, []) => .error (.here .invalidNumber [])
  | (_, b :: rest) =>
    if Byte.isDigit b then .ok (skipDigits rest) else .error (.here .invalidNumber rest)

/-- Passes over an exponent if there is one. -/
def skipOptionalExponent (s : Bytes) : Except Fault Bytes :=
  match s with
  | [] => .ok []
  | b :: rest => if Byte.isExponent b then skipExponent rest else .ok (b :: rest)

/-- Passes over the digits after a point. -/
def skipFraction (s : Bytes) : Except Fault Bytes :=
  if startsWithDigit s then skipOptionalExponent (skipDigits s)
  else .error (.next .invalidNumber s)

/-- Passes over what follows the digits before the point. -/
def skipAfterWhole (s : Bytes) : Except Fault Bytes :=
  match s with
  | [] => .ok []
  | b :: rest =>
    if b = Byte.point then skipFraction rest else skipOptionalExponent (b :: rest)

/-- Passes over a number after its sign. -/
def skipNumber (s : Bytes) : Except Fault Bytes :=
  match s with
  | [] => .error (.here .invalidNumber [])
  | b :: rest =>
    if !Byte.isDigit b then .error (.here .invalidNumber rest)
    else if Byte.digitValue b = 0 then
      if startsWithDigit rest then .error (.next .invalidNumber rest) else skipAfterWhole rest
    else skipAfterWhole (skipDigits rest)

/-- Passes over a string after its opening quote. -/
def skipString : Bytes → Except Fault Bytes
  | [] => .error (.here .eofInString [])
  | b :: rest =>
    if b = Byte.quote then .ok rest
    else if b = Byte.backslash then
      match rest with
      | [] => .error (.here .eofInString [])
      | e :: rest =>
        if e = 0x75 then
          match rest with
          | h₁ :: h₂ :: h₃ :: h₄ :: rest =>
            match Byte.hexValue h₁, Byte.hexValue h₂, Byte.hexValue h₃, Byte.hexValue h₄ with
            | some _, some _, some _, some _ => skipString rest
            | _, _, _, _ => .error (.here .invalidEscape rest)
          | _ => .error (.here .eofInString [])
        else if (shortEscape e).isSome then skipString rest
        else .error (.here .invalidEscape rest)
    else if b < 0x20 then .error (.here .controlCharacter (b :: rest))
    else skipString rest

/-- Passes over the value that starts with the byte `b` and is neither array nor object. -/
def skipScalar (b : UInt8) (rest : Bytes) : Except Fault Bytes :=
  if b = 0x6e then word [0x75, 0x6c, 0x6c] rest
  else if b = 0x74 then word [0x72, 0x75, 0x65] rest
  else if b = 0x66 then word [0x61, 0x6c, 0x73, 0x65] rest
  else if b = Byte.minus then skipNumber rest
  else if Byte.isDigit b then skipNumber (b :: rest)
  else if b = Byte.quote then skipString rest
  else .error (.next .expectedValue (b :: rest))

/-! ## Brackets -/

/-- An open bracket. -/
inductive Bracket
  | list
  | object
  deriving DecidableEq

/-- The byte that closes a bracket. -/
def Bracket.closing : Bracket → UInt8
  | .list => Byte.closeBracket
  | .object => Byte.closeBrace

/-- The fault of a text that ends inside a bracket. -/
def Bracket.eof : Bracket → Fault
  | .list => .next .eofInList []
  | .object => .next .eofInObject []

/-- The fault of a value inside a bracket that is followed by neither comma nor closing bracket. -/
def Bracket.noComma (bracket : Bracket) (s : Bytes) : Fault :=
  match bracket with
  | .list => .next .expectedListCommaOrEnd s
  | .object => .next .expectedObjectCommaOrEnd s

/-- Passes over what stands in front of a value: nothing in a list, key and colon in an object. -/
def Bracket.skipKey (bracket : Bracket) (s : Bytes) : Except Fault Bytes :=
  match bracket with
  | .list => .ok s
  | .object =>
    match skipBlanks s with
    | [] => .error (.next .eofInObject [])
    | b :: rest =>
      if b ≠ Byte.quote then .error (.next .keyNotString (b :: rest))
      else
        match skipString rest with
        | .error fault => .error fault
        | .ok s => colon s

/-- What comes next: a value, or what follows one. -/
inductive Awaited
  | value
  | follower
  deriving DecidableEq

/-- Passes over the parts of a value inside open brackets (innermost first) until all are closed, in
    at most `rounds` rounds. -/
def skipFrom : (rounds : Nat) → Awaited → List Bracket → Bytes → Except Fault Bytes
  | 0, _, _, s => .error (.next .eofInValue s)
  | _ + 1, .follower, [], s => .ok s
  | rounds + 1, .follower, bracket :: outer, s =>
    match skipBlanks s with
    | [] => .error bracket.eof
    | b :: rest =>
      if b = Byte.comma then
        match bracket.skipKey rest with
        | .error fault => .error fault
        | .ok s => skipFrom rounds .value (bracket :: outer) s
      else if b = bracket.closing then skipFrom rounds .follower outer rest
      else .error (bracket.noComma (b :: rest))
  | rounds + 1, .value, outer, s =>
    match skipBlanks s with
    | [] => .error (.next .eofInValue [])
    | b :: rest =>
      if b = Byte.openBracket ∨ b = Byte.openBrace then
        let bracket := if b = Byte.openBracket then Bracket.list else Bracket.object
        match skipBlanks rest with
        | [] => .error bracket.eof
        | c :: rest =>
          if c = bracket.closing then skipFrom rounds .follower outer rest
          else
            match bracket.skipKey (c :: rest) with
            | .error fault => .error fault
            | .ok s => skipFrom rounds .value (bracket :: outer) s
      else
        match skipScalar b rest with
        | .error fault => .error fault
        | .ok s => skipFrom rounds .follower outer s

/-- Passes over a value. -/
def skipValue (rounds : Nat) (s : Bytes) : Except Fault Bytes :=
  skipFrom (rounds + 1) .value [] s

end DocStore.Json.Reader
