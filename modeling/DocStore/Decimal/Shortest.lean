import DocStore.Binary64.Basic

/-!
# Shortest decimals

The decimal with the fewest digits that reads back as a given binary64 number, and of those the
nearest to it. Everything is counted in units of 10⁻¹⁰⁷⁴, of which every finite number has a whole
count.

## Contents
- `Decimal`: a significand and a power of ten.
- `Tie`: which of two equally near decimals is taken.
- `Range`: a number with the values that round to it; `Range.holds` is the test.
- `Range.pick`: the nearest admitted multiple of a power of ten, if there is one.
- `shortest`: the first that is found from the coarsest power of ten downwards.
-/

namespace DocStore

/-- The value `significand * 10 ^ exponent`. -/
structure Decimal where
  significand : Nat
  exponent : Int
  deriving DecidableEq, Repr

namespace Decimal

/-- Which of two equally near decimals is taken: the larger one, or the one with an even
    significand. -/
inductive Tie
  | up
  | even
  deriving DecidableEq

/-! ## The values that round to a number -/

/-- The units of 10⁻¹⁰⁷⁴ in one unit of 2⁻¹⁰⁷⁴. -/
def refinement : Nat := Nat.pow 5 1074

/-- A positive number and the interval of the values that round to it, in units of 10⁻¹⁰⁷⁴; the
    ends of the interval are doubled, and they belong to it if `closed`. -/
structure Range where
  value : Nat
  doubledLow : Nat
  doubledHigh : Nat
  closed : Bool

/-- The interval of a code: it ends halfway to both neighbours, and a tie goes to the even code. -/
def Range.ofCode (code : Nat) : Range :=
  let value := Binary64.units code * refinement
  { value := value
    doubledLow := Binary64.units (code - 1) * refinement + value
    doubledHigh := value + Binary64.units (code + 1) * refinement
    closed := code % 2 == 0 }

/-- Whether a value rounds to the number. -/
def Range.holds (range : Range) (value : Nat) : Bool :=
  if range.closed then range.doubledLow ≤ 2 * value && 2 * value ≤ range.doubledHigh
  else range.doubledLow < 2 * value && 2 * value < range.doubledHigh

/-! ## Choosing the digits -/

/-- The multiplier of `step` that is nearest to the number among the two around it, if one of them
    rounds to the number. -/
def Range.pick (tie : Tie) (range : Range) (step : Nat) : Option Nat :=
  let below := range.value / step
  let above := below + 1
  match range.holds (below * step), range.holds (above * step) with
  | true, false => some below
  | false, true => some above
  | false, false => none
  | true, true =>
    let rest := 2 * (range.value % step)
    if rest < step then some below
    else if step < rest then some above
    else match tie with
      | .up => some above
      | .even => some (below + below % 2)

/-- The decimal at the coarsest power of ten up to `10 ^ places` units that has one. At single units
    the number itself is a decimal. -/
def Range.search (tie : Tie) (range : Range) : Nat → Decimal
  | 0 => ⟨range.value, -1074⟩
  | places + 1 =>
    match range.pick tie (Nat.pow 10 (places + 1)) with
    | some significand => ⟨significand, places + 1 - 1074⟩
    | none => range.search tie places

/-- A power of ten that no value of the interval reaches: 2¹³⁵⁹ < 10⁴¹⁰ bounds the digits by the
    bits. -/
def Range.start (range : Range) : Nat :=
  range.value.log2 * 410 / 1359 + 2

/-- The shortest decimal that reads back as the positive finite number with the given code. -/
def shortest (tie : Tie) (code : Nat) : Decimal :=
  let range := Range.ofCode code
  range.search tie range.start

end Decimal

end DocStore
