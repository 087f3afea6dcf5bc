/-!
# Binary64 numbers

The 64-bit binary floating point numbers, held exactly: a sign and a magnitude code. The codes of
the finite magnitudes count them in ascending order from zero, the next code is infinity, and the
codes after it are no numbers. Every finite magnitude is a whole number of units of 2⁻¹⁰⁷⁴.

## Contents
- `Binary64`: the type, with `ofBits` and `toBits`.
- `units`: the exact magnitude of a code; `units_lt_units`: it grows with the code.
- `le`: the order, in which the two zeros are equal and what is no number is below and above
  nothing.
- `truncate`: the whole part as a 64-bit integer, clamped to its range.
-/

namespace DocStore

/-- A binary floating point number of 64 bits. -/
structure Binary64 where
  negative : Bool
  code : Nat
  code_lt : code < 0x8000000000000000
  deriving DecidableEq

namespace Binary64

/-! ## Codes -/

/-- The number of codes that share one exponent. -/
def binade : Nat := 0x10000000000000

/-- The code of infinity, the first that stands for no finite magnitude. -/
def infinityCode : Nat := 2047 * binade

theorem infinityCode_lt : infinityCode < 0x8000000000000000 := by decide

/-- The magnitude of a code in units of 2⁻¹⁰⁷⁴. The first two binades count single units; each later
    binade counts in steps twice as large as the one before it. -/
def units (code : Nat) : Nat :=
  if code < binade then code
  else (binade + code % binade) * Nat.pow 2 (code / binade - 1)

/-- The number of units in one. -/
def unitsPerOne : Nat := Nat.pow 2 1074

/-! ## Kinds of numbers -/

/-- The number zero with the given sign. -/
def zero (negative : Bool) : Binary64 :=
  ⟨negative, 0, by decide⟩

/-- Infinity with the given sign. -/
def infinity (negative : Bool) : Binary64 :=
  ⟨negative, infinityCode, infinityCode_lt⟩

/-- Whether a value is no number. -/
def isNaN (x : Binary64) : Bool :=
  decide (infinityCode < x.code)

/-- Whether a value is one of the two infinities. -/
def isInfinite (x : Binary64) : Bool :=
  x.code == infinityCode

/-- Whether a value is a finite number. -/
def isFinite (x : Binary64) : Bool :=
  decide (x.code < infinityCode)

/-- Whether a value is one of the two zeros. -/
def isZero (x : Binary64) : Bool :=
  x.code == 0

/-- The same magnitude with the given sign. -/
def withSign (negative : Bool) (x : Binary64) : Binary64 :=
  { x with negative := negative }

/-! ## Bits -/

/-- The number with the given 64 bits; higher bits are ignored. -/
def ofBits (bits : Nat) : Binary64 :=
  ⟨bits / 0x8000000000000000 % 2 == 1, bits % 0x8000000000000000, Nat.mod_lt _ (by decide)⟩

/-- The 64 bits of a number: the sign above the code. -/
def toBits (x : Binary64) : Nat :=
  (if x.negative then 0x8000000000000000 else 0) + x.code

theorem ofBits_toBits (x : Binary64) : ofBits x.toBits = x := by
  obtain ⟨negative, code, code_lt⟩ := x
  cases negative with
  | false =>
      have hsign : (0 + code) / 0x8000000000000000 % 2 = 0 := by omega
      have hcode : (0 + code) % 0x8000000000000000 = code := by omega
      simp only [ofBits, toBits, Bool.false_eq_true, if_false, mk.injEq, hsign, hcode, and_true]
      rfl
  | true =>
      have hsign : (0x8000000000000000 + code) / 0x8000000000000000 % 2 = 1 := by omega
      have hcode : (0x8000000000000000 + code) % 0x8000000000000000 = code := by omega
      simp only [ofBits, toBits, if_true, mk.injEq, hsign, hcode, and_true]
      rfl

/-! ## Order -/

/-- The place of a number in the order, in which both zeros have one place. -/
def rank (x : Binary64) : Int :=
  if x.negative then -(x.code : Int) else x.code

/-- The order of numbers; what is no number is related to nothing. -/
def le (x y : Binary64) : Bool :=
  !x.isNaN && !y.isNaN && decide (x.rank ≤ y.rank)

/-- The magnitude grows with the code. -/
theorem units_lt_succ (code : Nat) : units code < units (code + 1) := by
  simp only [units, show binade = 4503599627370496 from rfl]
  by_cases h : code + 1 < 4503599627370496
  · rw [if_pos (by omega), if_pos h]
    omega
  · rw [if_neg h]
    by_cases h' : code < 4503599627370496
    · have hc : code + 1 = 4503599627370496 := by omega
      rw [if_pos h', hc]
      simp
      omega
    · rw [if_neg h']
      by_cases hm : code % 4503599627370496 + 1 = 4503599627370496
      · have hmod : (code + 1) % 4503599627370496 = 0 := by omega
        have hdiv : (code + 1) / 4503599627370496 = code / 4503599627370496 + 1 := by omega
        obtain ⟨k, hk⟩ : ∃ k, code / 4503599627370496 = k + 1 :=
          ⟨code / 4503599627370496 - 1, by omega⟩
        have hnext : Nat.pow 2 (k + 1) = Nat.pow 2 k * 2 := rfl
        rw [hmod, hdiv, hk, Nat.add_zero, Nat.add_sub_cancel, Nat.add_sub_cancel, hnext]
        have hpos : 0 < Nat.pow 2 k := Nat.two_pow_pos k
        calc (4503599627370496 + code % 4503599627370496) * Nat.pow 2 k
            < 4503599627370496 * 2 * Nat.pow 2 k := Nat.mul_lt_mul_of_pos_right (by omega) hpos
          _ = 4503599627370496 * (Nat.pow 2 k * 2) := by rw [Nat.mul_assoc, Nat.mul_comm 2]
      · have hmod : (code + 1) % 4503599627370496 = code % 4503599627370496 + 1 := by omega
        have hdiv : (code + 1) / 4503599627370496 = code / 4503599627370496 := by omega
        rw [hmod, hdiv]
        exact Nat.mul_lt_mul_of_pos_right (by omega) (Nat.two_pow_pos _)

/-- A larger code has a larger magnitude. -/
theorem units_lt_units {a b : Nat} (h : a < b) : units a < units b := by
  induction b with
  | zero => exact absurd h (Nat.not_lt_zero _)
  | succ b ih =>
      rcases Nat.lt_succ_iff_lt_or_eq.mp h with h | rfl
      · exact Nat.lt_trans (ih h) (units_lt_succ b)
      · exact units_lt_succ a

/-! ## Whole part -/

/-- The whole part of a number, rounded toward zero and clamped to the range of 64-bit integers. What
    is no number counts as zero. -/
def truncate (x : Binary64) : Int64 :=
  if x.isNaN then 0
  else
    let whole : Int := units x.code / unitsPerOne
    Int64.ofIntClamp (if x.negative then -whole else whole)

end Binary64

end DocStore
