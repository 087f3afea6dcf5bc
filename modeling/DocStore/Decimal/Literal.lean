import DocStore.Binary64.Rounding
import DocStore.Text.Blank

/-!
# Number literals

The numbers that a command may give: decimal literals and infinities, with a sign, between blanks.
The number is the one nearest to the exact value of the literal.

## Contents
- `Unsigned`: the parts of a literal without its sign, and `Unsigned.value`, its exact value.
- `readUnsigned`: the parts of a text that is such a literal.
- `parseNumber`: the number that a text denotes.
-/

namespace DocStore.Decimal

/-! ## Digit runs -/

/-- Whether a character is one of the ten digits. -/
def isDigit (c : Char) : Bool :=
  '0' ≤ c && c ≤ '9'

/-- The number written by a run of digits. -/
def digitsValue (ds : List Char) : Nat :=
  ds.foldl (fun n c => 10 * n + (c.toNat - '0'.toNat)) 0

/-! ## Signs -/

/-- Takes one sign off a text: whether it is a minus, and what follows. -/
def splitSign : List Char → Bool × List Char
  | '-' :: rest => (true, rest)
  | '+' :: rest => (false, rest)
  | text => (false, text)

/-! ## Unsigned literals -/

/-- The digits before and after the point, and the power of ten. -/
structure Unsigned where
  whole : List Char
  fraction : List Char
  exponent : Int

/-- The number nearest to the value of a literal with the given sign. -/
def Unsigned.value (negative : Bool) (literal : Unsigned) : Binary64 :=
  Binary64.ofDecimal negative (digitsValue (literal.whole ++ literal.fraction))
    (literal.exponent - literal.fraction.length)

/-- The exponent part that ends a literal: nothing, or a letter, an optional sign and digits. -/
def readExponent : List Char → Option Int
  | [] => some 0
  | c :: rest =>
    if c = 'e' ∨ c = 'E' then
      let (negative, ds) := splitSign rest
      if ds.isEmpty || !ds.all isDigit then none
      else some (if negative then -(digitsValue ds : Int) else digitsValue ds)
    else none

/-- The parts of a text that is an unsigned literal: digits with an optional point, at least one of
    them before or after it, and an optional exponent. -/
def readUnsigned (text : List Char) : Option Unsigned :=
  let whole := text.takeWhile isDigit
  let (fraction, tail) :=
    match text.dropWhile isDigit with
    | '.' :: rest => (rest.takeWhile isDigit, rest.dropWhile isDigit)
    | rest => ([], rest)
  if whole.isEmpty && fraction.isEmpty then none
  else (readExponent tail).map fun exponent => ⟨whole, fraction, exponent⟩

/-! ## Literals -/

/-- The number that a text denotes, without the blanks around it. -/
def parseNumber (text : List Char) : Option Binary64 :=
  let (negative, body) := splitSign (Text.trim text)
  if body = "Infinity".toList then some (Binary64.infinity negative)
  else (readUnsigned body).map (Unsigned.value negative)

end DocStore.Decimal
