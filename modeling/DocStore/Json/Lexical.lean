import DocStore.Json.Fault

/-!
# Words, numbers and strings of JSON texts

Readers for the parts of a JSON text that hold no other values. A reader takes the bytes that follow
and gives what it read with the bytes after it.

## Contents
- `skipBlanks`: white space.
- `word`: the rest of a fixed word.
- `number`: numbers. Digits are gathered into 64 bits, and the result is one rounded product or
  quotient with a power of ten.
- `escape`, `string`: strings; `escape_length` says that an escape takes at least one byte.
- `scalar`: the value that starts with a given byte and is neither array nor object.
-/

namespace DocStore.Json.Reader

open Text (Bytes)

/-- What was read and the bytes after it, or a fault. -/
abbrev Result (α : Type) := Except Fault (α × Bytes)

namespace Byte

def quote : UInt8 := 0x22
def plus : UInt8 := 0x2b
def comma : UInt8 := 0x2c
def minus : UInt8 := 0x2d
def point : UInt8 := 0x2e
def colon : UInt8 := 0x3a
def openBracket : UInt8 := 0x5b
def backslash : UInt8 := 0x5c
def closeBracket : UInt8 := 0x5d
def openBrace : UInt8 := 0x7b
def closeBrace : UInt8 := 0x7d

/-- Whether a byte is white space between the parts of a text. -/
def isBlank (b : UInt8) : Bool :=
  b == 0x20 || b == 0x0a || b == 0x09 || b == 0x0d

/-- Whether a byte is one of the ten digits. -/
def isDigit (b : UInt8) : Bool :=
  0x30 ≤ b && b ≤ 0x39

/-- The value of a digit. -/
def digitValue (b : UInt8) : Nat :=
  b.toNat - 0x30

/-- Whether a byte starts the exponent of a number. -/
def isExponent (b : UInt8) : Bool :=
  b == 0x65 || b == 0x45

/-- The value of a hexadecimal digit. -/
def hexValue (b : UInt8) : Option Nat :=
  if isDigit b then some (digitValue b)
  else if 0x61 ≤ b && b ≤ 0x66 then some (b.toNat - 0x61 + 10)
  else if 0x41 ≤ b && b ≤ 0x46 then some (b.toNat - 0x41 + 10)
  else none

end Byte

/-! ## Blanks and words -/

/-- The bytes after leading white space. -/
def skipBlanks : Bytes → Bytes
  | [] => []
  | b :: rest => if Byte.isBlank b then skipBlanks rest else b :: rest

/-- Reads the given bytes. -/
def word : (expected : Bytes) → Bytes → Except Fault Bytes
  | [], rest => .ok rest
  | _ :: _, [] => .error (.here .eofInValue [])
  | e :: expected, b :: rest =>
    if b = e then word expected rest else .error (.here .expectedIdent rest)

/-! ## Numbers -/

/-- Digits that fit stay below this bound: 2⁶⁴. -/
def significandLimit : Nat := 0x10000000000000000

/-- Exponents that fit stay below this bound: 2³¹. -/
def exponentLimit : Nat := 0x80000000

/-- The bytes after leading digits. -/
def skipDigits : Bytes → Bytes
  | [] => []
  | b :: rest => if Byte.isDigit b then skipDigits rest else b :: rest

/-- Gathers digits before the point. The first digit that does not fit and all after it are dropped
    and counted. -/
def gatherWhole (significand dropped : Nat) : Bytes → Nat × Nat × Bytes
  | [] => (significand, dropped, [])
  | b :: rest =>
    if Byte.isDigit b then
      let longer := 10 * significand + Byte.digitValue b
      if dropped = 0 ∧ longer < significandLimit then gatherWhole longer 0 rest
      else gatherWhole significand (dropped + 1) rest
    else (significand, dropped, b :: rest)

/-- Gathers digits after the point and counts those that were taken. The first digit that does not
    fit and all after it are dropped. -/
def gatherFraction (significand taken : Nat) : Bytes → Nat × Nat × Bytes
  | [] => (significand, taken, [])
  | b :: rest =>
    if Byte.isDigit b then
      let longer := 10 * significand + Byte.digitValue b
      if longer < significandLimit then gatherFraction longer (taken + 1) rest
      else (significand, taken, skipDigits rest)
    else (significand, taken, b :: rest)

/-- Divides by a power of ten, in steps while its exponent is above 308. -/
def divideByPower (x : Binary64) (exponent : Nat) : Binary64 :=
  if exponent ≤ 308 then x.div (Binary64.powerOfTen exponent)
  else if x.isZero then x
  else divideByPower (x.div (Binary64.powerOfTen 308)) (exponent - 308)
termination_by exponent

/-- The magnitude of a significand with a power of ten: the significand is rounded, and then the
    product or the quotient. Nothing if the product is too large. -/
def scaled (significand : Nat) (exponent : Int) : Option Binary64 :=
  let x := Binary64.ofInt significand
  match exponent with
  | .ofNat e =>
    if e ≤ 308 then
      let product := x.mul (Binary64.powerOfTen e)
      if product.isInfinite then none else some product
    else if x.isZero then some x
    else none
  | .negSucc e => some (divideByPower x (e + 1))

/-- The number of a sign, a significand and a power of ten, read before the bytes `rest`. -/
def finishNumber (negative : Bool) (significand : Nat) (exponent : Int) (rest : Bytes) :
    Result Number :=
  match scaled significand exponent with
  | none => .error (.here .numberOutOfRange rest)
  | some x =>
    if h : (x.withSign negative).isFinite = true then .ok (.binary (x.withSign negative) h, rest)
    else .error (.here .numberOutOfRange rest)

/-- Gathers the digits of an exponent. If they do not fit, the bytes after the digit that is too many
    are given instead. -/
def gatherExponent (exponent : Nat) : Bytes → Except Bytes (Nat × Bytes)
  | [] => .ok (exponent, [])
  | b :: rest =>
    if Byte.isDigit b then
      let longer := 10 * exponent + Byte.digitValue b
      if longer < exponentLimit then gatherExponent longer rest else .error rest
    else .ok (exponent, b :: rest)

/-- Takes the sign of an exponent: whether it is a minus, and the bytes after it. -/
def exponentSign : Bytes → Bool × Bytes
  | [] => (false, [])
  | b :: rest =>
    if b = Byte.minus then (true, rest)
    else if b = Byte.plus then (false, rest)
    else (false, b :: rest)

/-- Reads the exponent of a number after its letter. An exponent beyond all bounds leaves zero or
    nothing. -/
def exponentPart (negative : Bool) (significand : Nat) (start : Int) (s : Bytes) : Result Number :=
  match exponentSign s with
  | (_, []) => .error (.here .eofInValue [])
  | (down, b :: rest) =>
    if !Byte.isDigit b then .error (.here .invalidNumber rest)
    else
      match gatherExponent (Byte.digitValue b) rest with
      | .ok (exponent, rest) =>
        finishNumber negative significand (if down then start - exponent else start + exponent) rest
      | .error rest =>
        if significand ≠ 0 ∧ down = false then .error (.here .numberOutOfRange rest)
        else finishNumber negative 0 0 (skipDigits rest)

/-- Reads the exponent of a number if there is one. -/
def optionalExponent (negative : Bool) (significand : Nat) (exponent : Int) (s : Bytes) :
    Result Number :=
  match s with
  | [] => finishNumber negative significand exponent []
  | b :: rest =>
    if Byte.isExponent b then exponentPart negative significand exponent rest
    else finishNumber negative significand exponent (b :: rest)

/-- Reads the fraction of a number after its point. -/
def fractionPart (negative : Bool) (significand : Nat) (exponent : Int) (s : Bytes) :
    Result Number :=
  match s with
  | [] => .error (.next .eofInValue [])
  | b :: rest =>
    if !Byte.isDigit b then .error (.next .invalidNumber (b :: rest))
    else
      let (significand, taken, rest) := gatherFraction significand 0 (b :: rest)
      optionalExponent negative significand (exponent - taken) rest

/-- A number without fraction and exponent: an integer if it has a form of 64 bits. -/
def wholeNumber (negative : Bool) (significand : Nat) (rest : Bytes) : Result Number :=
  if negative then
    if h : 0 < significand ∧ significand ≤ 0x8000000000000000 then
      .ok (.integer (-(significand : Int)) (by omega) (by omega), rest)
    else finishNumber true significand 0 rest
  else if h : significand < 0x10000000000000000 then
    .ok (.integer significand (by omega) (by omega), rest)
  else finishNumber false significand 0 rest

/-- Reads what follows the digits before the point. -/
def afterWhole (negative : Bool) (significand dropped : Nat) (s : Bytes) : Result Number :=
  match s with
  | [] =>
    if dropped = 0 then wholeNumber negative significand []
    else finishNumber negative significand dropped []
  | b :: rest =>
    if b = Byte.point then fractionPart negative significand dropped rest
    else if Byte.isExponent b then exponentPart negative significand dropped rest
    else if dropped = 0 then wholeNumber negative significand (b :: rest)
    else finishNumber negative significand dropped (b :: rest)

/-- Whether the next byte is a digit. -/
def startsWithDigit : Bytes → Bool
  | [] => false
  | b :: _ => Byte.isDigit b

/-- Reads a number after its sign. Only a lone zero may start with zero. -/
def number (negative : Bool) (s : Bytes) : Result Number :=
  match s with
  | [] => .error (.here .eofInValue [])
  | b :: rest =>
    if !Byte.isDigit b then .error (.here .invalidNumber rest)
    else if Byte.digitValue b = 0 then
      if startsWithDigit rest then .error (.next .invalidNumber rest)
      else afterWhole negative 0 0 rest
    else
      let (significand, dropped, rest) := gatherWhole (Byte.digitValue b) 0 rest
      afterWhole negative significand dropped rest

/-! ## Strings -/

/-- Reads four hexadecimal digits. -/
def hexDigits : Bytes → Result Nat
  | a :: b :: c :: d :: rest =>
    match Byte.hexValue a, Byte.hexValue b, Byte.hexValue c, Byte.hexValue d with
    | some a, some b, some c, some d => .ok (((a * 16 + b) * 16 + c) * 16 + d, rest)
    | _, _, _, _ => .error (.here .invalidEscape rest)
  | _ => .error (.here .eofInString [])

/-- Reads the second half of a pair of surrogates. -/
def trailingSurrogate (leading : Nat) (s : Bytes) : Result Char :=
  match s with
  | [] => .error (.here .eofInString [])
  | b :: rest =>
    if b ≠ Byte.backslash then .error (.here .endOfHexEscape rest)
    else
      match rest with
      | [] => .error (.here .eofInString [])
      | u :: rest =>
        if u ≠ 0x75 then .error (.here .endOfHexEscape rest)
        else
          match hexDigits rest with
          | .error fault => .error fault
          | .ok (trailing, rest) =>
            if 0xDC00 ≤ trailing ∧ trailing ≤ 0xDFFF then
              .ok (Char.ofNat (0x10000 + (leading - 0xD800) * 0x400 + (trailing - 0xDC00)), rest)
            else .error (.here .loneSurrogate rest)

/-- Reads the number of a character, or of the two surrogates that make one. -/
def unicodeEscape (s : Bytes) : Result Char :=
  match hexDigits s with
  | .error fault => .error fault
  | .ok (n, rest) =>
    if 0xDC00 ≤ n ∧ n ≤ 0xDFFF then .error (.here .loneSurrogate rest)
    else if 0xD800 ≤ n ∧ n ≤ 0xDBFF then trailingSurrogate n rest
    else .ok (Char.ofNat n, rest)

/-- The character of a short escape. -/
def shortEscape (b : UInt8) : Option Char :=
  if b = 0x22 then some '"'
  else if b = 0x5c then some '\\'
  else if b = 0x2f then some '/'
  else if b = 0x62 then some '\x08'
  else if b = 0x66 then some '\x0c'
  else if b = 0x6e then some '\n'
  else if b = 0x72 then some '\r'
  else if b = 0x74 then some '\t'
  else none

/-- Reads an escape after its backslash. -/
def escape (s : Bytes) : Result Char :=
  match s with
  | [] => .error (.here .eofInString [])
  | b :: rest =>
    if b = 0x75 then unicodeEscape rest
    else
      match shortEscape b with
      | some c => .ok (c, rest)
      | none => .error (.here .invalidEscape rest)

theorem hexDigits_length {s rest : Bytes} {n : Nat} (h : hexDigits s = .ok (n, rest)) :
    rest.length < s.length := by
  unfold hexDigits at h
  split at h
  · split at h
    · cases h
      simp only [List.length_cons]
      omega
    · exact nomatch h
  · exact nomatch h

theorem trailingSurrogate_length {leading : Nat} {s rest : Bytes} {c : Char}
    (h : trailingSurrogate leading s = .ok (c, rest)) : rest.length < s.length := by
  unfold trailingSurrogate at h
  split at h
  · exact nomatch h
  split at h
  · exact nomatch h
  split at h
  · exact nomatch h
  split at h
  · exact nomatch h
  split at h
  · exact nomatch h
  rename_i hdigits
  split at h
  · simp only [Except.ok.injEq, Prod.mk.injEq] at h
    obtain ⟨_, rfl⟩ := h
    have := hexDigits_length hdigits
    simp only [List.length_cons]
    omega
  · exact nomatch h

/-- An escape takes at least one byte. -/
theorem escape_length {s rest : Bytes} {c : Char} (h : escape s = .ok (c, rest)) :
    rest.length < s.length := by
  unfold escape at h
  split at h
  · exact nomatch h
  rename_i b tail
  split at h
  · unfold unicodeEscape at h
    split at h
    · exact nomatch h
    rename_i hdigits
    have hlt := hexDigits_length hdigits
    split at h
    · exact nomatch h
    split at h
    · have := trailingSurrogate_length h
      simp only [List.length_cons]
      omega
    · simp only [Except.ok.injEq, Prod.mk.injEq] at h
      obtain ⟨_, rfl⟩ := h
      simp only [List.length_cons]
      omega
  · split at h
    · cases h
      simp
    · exact nomatch h

/-- Reads the bytes of a string after those already `seen` (last one first), up to its closing quote.
    Escapes are replaced by the bytes of their characters. -/
def stringBytes (seen : Bytes) (s : Bytes) : Result Bytes :=
  match s with
  | [] => .error (.here .eofInString [])
  | b :: rest =>
    if b = Byte.quote then .ok (seen.reverse, rest)
    else if b = Byte.backslash then
      match h : escape rest with
      | .error fault => .error fault
      | .ok (c, after) =>
        have : after.length < rest.length + 1 := Nat.lt_succ_of_lt (escape_length h)
        stringBytes ((Text.Utf8.encodeChar c).reverse ++ seen) after
    else if b < 0x20 then .error (.here .controlCharacter rest)
    else stringBytes (b :: seen) rest
termination_by s.length

/-- Reads a string after its opening quote. Bytes that are no text are reported behind the first of them,
    which is found by counting back from the end of the string. -/
def string (s : Bytes) : Result String :=
  match stringBytes [] s with
  | .error fault => .error fault
  | .ok (bytes, rest) =>
    match Text.Utf8.decode bytes with
    | .ok text => .ok (String.ofList text, rest)
    | .error flaw => .error ⟨.invalidCodePoint, rest.length + (bytes.length - flaw.index)⟩

/-! ## Scalars -/

/-- Reads the value that starts with the byte `b` and is neither array nor object. -/
def scalar (b : UInt8) (rest : Bytes) : Result Json :=
  if b = 0x6e then (word [0x75, 0x6c, 0x6c] rest).map (Json.null, ·)
  else if b = 0x74 then (word [0x72, 0x75, 0x65] rest).map (Json.bool true, ·)
  else if b = 0x66 then (word [0x61, 0x6c, 0x73, 0x65] rest).map (Json.bool false, ·)
  else if b = Byte.minus then (number true rest).map fun (value, rest) => (Json.number value, rest)
  else if Byte.isDigit b then
    (number false (b :: rest)).map fun (value, rest) => (Json.number value, rest)
  else if b = Byte.quote then (string rest).map fun (value, rest) => (Json.string value, rest)
  else .error (.next .expectedValue (b :: rest))

end DocStore.Json.Reader
