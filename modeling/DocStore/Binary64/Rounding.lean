import DocStore.Binary64.Basic

/-!
# Rounding to binary64

The binary64 number nearest to an exact value. Of two numbers equally near, the one with the even
code is taken; what lies half a step or more above the largest finite number becomes infinity.

## Contents
- `roundHalfEven`: a quotient of natural numbers, rounded to the nearest one.
- `ofRatio`: the number nearest to a quotient.
- `ofInt`: the number nearest to an integer.
- `mul`, `div`: product and quotient of finite numbers, rounded once.
- `powerOfTen`, `ofDecimal`: decimal values.
-/

namespace DocStore.Binary64

/-- The natural number nearest to a quotient; a tie goes to the even one. -/
def roundHalfEven (num den : Nat) : Nat :=
  let whole := num / den
  let rest := num % den
  if 2 * rest < den then whole
  else if den < 2 * rest then whole + 1
  else whole + whole % 2

/-- The code nearest to `num / den` units. The step between codes there is `2 ^ shift` units, and the
    codes of a binade follow each other, so a significand that rounds up to the next binade needs no
    care. -/
def roundUnits (num den : Nat) : Nat :=
  let shift := (num / den).log2 - 52
  shift * binade + roundHalfEven num (den * Nat.pow 2 shift)

/-- The number with the given sign nearest to a quotient. -/
def ofRatio (negative : Bool) (num den : Nat) : Binary64 :=
  ⟨negative, min (roundUnits (num * unitsPerOne) den) infinityCode,
    Nat.lt_of_le_of_lt (Nat.min_le_right _ _) infinityCode_lt⟩

/-- The number nearest to an integer. -/
def ofInt (value : Int) : Binary64 :=
  ofRatio (value < 0) value.natAbs 1

/-! ## Arithmetic -/

/-- The product of two finite numbers. -/
def mul (x y : Binary64) : Binary64 :=
  ofRatio (x.negative != y.negative) (units x.code * units y.code) (unitsPerOne * unitsPerOne)

/-- The quotient of two finite numbers, of which the second is not zero. -/
def div (x y : Binary64) : Binary64 :=
  ofRatio (x.negative != y.negative) (units x.code) (units y.code)

/-! ## Decimal values -/

/-- The number nearest to a power of ten. -/
def powerOfTen (exponent : Nat) : Binary64 :=
  ofRatio false (Nat.pow 10 exponent) 1

/-- The number nearest to `significand * 10 ^ exponent`. Values so large or so small that every
    significand of the same length gives infinity or zero are decided without the power. -/
def ofDecimal (negative : Bool) (significand : Nat) (exponent : Int) : Binary64 :=
  if significand = 0 then zero negative
  else
    match exponent with
    | .ofNat e =>
      if 310 ≤ e then infinity negative else ofRatio negative (significand * Nat.pow 10 e) 1
    | .negSucc e =>
      if significand.log2 + 331 ≤ e then zero negative
      else ofRatio negative significand (Nat.pow 10 (e + 1))

end DocStore.Binary64
