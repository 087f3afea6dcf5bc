import DocStore.Decimal.Shortest

/-!
# Number texts

A number is written with its shortest digits, either in positional form or with a power of ten. The
two places where numbers are written differ in four decisions, which a `Layout` records.

## Contents
- `Layout`: the decisions; `Layout.plain` for texts that are compared, `Layout.json` for documents.
- `Layout.magnitude`: the text of the digits at their place.
- `Layout.finite`: the text of a finite number.
- `formatNumber`: the plain text of any number.
-/

namespace DocStore.Decimal

/-! ## Digits -/

/-- The decimal digits of a natural number. -/
def digits (n : Nat) : List Char :=
  Nat.toDigits 10 n

/-- The decimal text of an integer. -/
def intText (n : Int) : List Char :=
  if n < 0 then '-' :: digits n.natAbs else digits n.natAbs

/-! ## Layouts -/

/-- How number texts are written: the exponents of the first digit for which the form is positional,
    what follows a number without a fraction, and which way an exact tie between two shortest
    decimals goes. -/
structure Layout where
  leastFixed : Int
  greatestFixed : Int
  wholeMark : List Char
  tie : Tie

/-- Texts that are compared: positional from 10⁻⁶ up to below 10²¹, and whole numbers are bare. -/
def Layout.plain : Layout :=
  ⟨-6, 20, [], .up⟩

/-- Numbers inside documents: positional from 10⁻⁵ up to below 10¹⁶, and whole numbers carry a
    fraction that tells them from integers. -/
def Layout.json : Layout :=
  ⟨-5, 15, ['.', '0'], .even⟩

/-- Digits with a power of ten: one digit before the point, and an exponent with its sign. -/
def scientific (ds : List Char) (exponent : Int) : List Char :=
  let fraction := ds.drop 1
  let point := if fraction.isEmpty then [] else '.' :: fraction
  let sign := if exponent < 0 then '-' else '+'
  ds.take 1 ++ point ++ 'e' :: sign :: digits exponent.natAbs

/-- The text of the value `0.ds * 10 ^ point`, for digits of which the first is not zero. -/
def Layout.magnitude (layout : Layout) (ds : List Char) (point : Int) : List Char :=
  if point ≤ layout.leastFixed ∨ layout.greatestFixed < point - 1 then scientific ds (point - 1)
  else if point ≤ 0 then '0' :: '.' :: (List.replicate (-point).toNat '0' ++ ds)
  else if point < ds.length then ds.take point.toNat ++ '.' :: ds.drop point.toNat
  else ds ++ List.replicate (point - ds.length).toNat '0' ++ layout.wholeMark

/-- The text of a decimal that is not zero. -/
def Layout.decimal (layout : Layout) (value : Decimal) : List Char :=
  let ds := digits value.significand
  layout.magnitude ds (value.exponent + ds.length)

/-- The text of a finite magnitude. -/
def Layout.code (layout : Layout) (code : Nat) : List Char :=
  if code = 0 then '0' :: layout.wholeMark else layout.decimal (shortest layout.tie code)

/-- The text of a finite number, with its sign. -/
def Layout.finite (layout : Layout) (x : Binary64) : List Char :=
  if x.negative then '-' :: layout.code x.code else layout.code x.code

/-- The plain text of a number. Both zeros are written alike, and what is no number has a name. -/
def formatNumber (x : Binary64) : List Char :=
  if x.isNaN then "NaN".toList
  else if x.isInfinite then
    if x.negative then "-Infinity".toList else "Infinity".toList
  else if x.isZero then ['0']
  else Layout.plain.finite x

end DocStore.Decimal
