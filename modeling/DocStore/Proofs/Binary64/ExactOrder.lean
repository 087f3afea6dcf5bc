import DocStore.Proofs.Binary64.CorrectRounding
import Mathlib.Order.WithBotTop

/-!
# Order and exact values

Rounding keeps the order of exact values, whether they are rational or infinite, and it keeps every value
that is a number itself. So comparing rounded values says what comparing the exact ones would say, except
that values which are rounded to one number count as equal.

## Contents
- `Extended`, `exactValue`: rational and infinite values, and those of numbers.
- `RoundsTo`: the number to which a value is rounded; `roundsTo_ofInt`, `roundsTo_ofDecimal`.
- `roundsTo_exactValue`: a number is rounded to itself.
- `RoundsTo.rank_le`, `RoundsTo.le`: **rounding keeps the order**.
- `Representable`, `RoundsTo.le_iff`: **values that are numbers are compared exactly**.
-/

namespace DocStore

/-- The rational values with both infinities. -/
abbrev Extended := WithBotTop ℚ

/-- Infinity with a sign. -/
def Extended.infinity (negative : Bool) : Extended :=
  if negative then ⊥ else ⊤

/-- A rational value with a sign. -/
def Extended.signed (negative : Bool) (magnitude : ℚ) : Extended :=
  ((if negative then -magnitude else magnitude : ℚ) : Extended)

namespace Binary64

/-! ## Exact values -/

/-- The exact value of a number. -/
def exactValue (x : Binary64) : Extended :=
  if x.isInfinite then Extended.infinity x.negative else Extended.signed x.negative (magnitude x.code)

theorem magnitude_nonneg (code : Nat) : 0 ≤ magnitude code :=
  div_nonneg (Nat.cast_nonneg _) (Nat.cast_nonneg _)

theorem magnitude_zero : magnitude 0 = 0 := by
  rw [magnitude, show units 0 = 0 from rfl, Nat.cast_zero, zero_div]

theorem magnitude_lt_magnitude {a b : Nat} (h : a < b) : magnitude a < magnitude b :=
  div_lt_div_of_pos_right (Nat.cast_lt.mpr (units_lt_units h)) (Nat.cast_pos.mpr unitsPerOne_pos)

/-- The magnitude of a code is nearest to the code. -/
theorem nearest_magnitude {code : Nat} (h : code ≤ infinityCode) : Nearest (magnitude code) code where
  le_infinity := h
  lower := by
    intro hpos
    have hless : magnitude (code - 1) < magnitude code := magnitude_lt_magnitude (by omega)
    have hmid : midpoint (code - 1) < magnitude code := by
      rw [midpoint, Nat.sub_add_cancel hpos]
      linarith
    exact ⟨le_of_lt hmid, fun heq => absurd heq.symm (ne_of_lt hmid)⟩
  upper := by
    intro _
    have hless : magnitude code < magnitude (code + 1) := magnitude_lt_magnitude (Nat.lt_succ_self _)
    have hmid : magnitude code < midpoint code := by
      rw [midpoint]
      linarith
    exact ⟨le_of_lt hmid, fun heq => absurd heq (ne_of_lt hmid)⟩

/-! ## Rounded values -/

/-- Whether a number is the one to which a value is rounded. A rational value keeps its sign, and zero may
    have either; an infinite value is infinite. -/
inductive RoundsTo : Extended → Binary64 → Prop
  | rational {value : ℚ} {x : Binary64} (nearest : Nearest |value| x.code)
      (sign : if x.negative then value ≤ 0 else 0 ≤ value) : RoundsTo (value : Extended) x
  | infinite (negative : Bool) : RoundsTo (Extended.infinity negative) (infinity negative)

theorem roundsTo_signed {x : Binary64} {value : ℚ} (hvalue : 0 ≤ value) (h : Nearest value x.code) :
    RoundsTo (Extended.signed x.negative value) x := by
  refine .rational ?_ ?_
  · cases x.negative with
    | true => rwa [if_pos rfl, abs_neg, abs_of_nonneg hvalue]
    | false => rwa [if_neg Bool.false_ne_true, abs_of_nonneg hvalue]
  · cases x.negative with
    | true => exact neg_nonpos.mpr hvalue
    | false => exact hvalue

/-- An integer is rounded. -/
theorem roundsTo_ofInt (value : Int) : RoundsTo ((value : ℚ) : Extended) (ofInt value) := by
  have hnearest := nearest_ofRatio (value < 0) value.natAbs Nat.one_pos
  rw [Nat.cast_one, div_one] at hnearest
  have habs : |(value : ℚ)| = (value.natAbs : ℚ) := by
    rw [← Int.cast_abs, Int.abs_eq_natAbs, Int.cast_natCast]
  refine .rational (habs ▸ hnearest) ?_
  show if decide (value < 0) = true then (value : ℚ) ≤ 0 else 0 ≤ (value : ℚ)
  split
  · rename_i hneg
    exact_mod_cast le_of_lt (of_decide_eq_true hneg)
  · rename_i hneg
    exact_mod_cast not_lt.mp fun h => hneg (decide_eq_true h)

/-- A decimal with a sign is rounded. -/
theorem roundsTo_ofDecimal (negative : Bool) (significand : Nat) (exponent : Int) :
    RoundsTo (Extended.signed negative (significand * 10 ^ exponent))
      (ofDecimal negative significand exponent) := by
  have hvalue : (0 : ℚ) ≤ significand * 10 ^ exponent :=
    mul_nonneg (Nat.cast_nonneg _) (zpow_nonneg (by norm_num) _)
  have hrounds := roundsTo_signed hvalue (nearest_ofDecimal negative significand exponent)
  rwa [negative_ofDecimal] at hrounds

/-- A number is rounded to itself. -/
theorem roundsTo_exactValue {x : Binary64} (h : x.isNaN = false) : RoundsTo x.exactValue x := by
  have hle : x.code ≤ infinityCode := Nat.not_lt.mp (of_decide_eq_false h)
  unfold exactValue
  split
  · rename_i hinfinite
    have hx : x = infinity x.negative := ext_code rfl (beq_iff_eq.mp hinfinite)
    rw [hx]
    exact .infinite _
  · exact roundsTo_signed (magnitude_nonneg _) (nearest_magnitude hle)

/-! ## Order -/

namespace RoundsTo

variable {v w : Extended} {x y : Binary64}

theorem code_le (h : RoundsTo v x) : x.code ≤ infinityCode := by
  cases h with
  | rational nearest sign => exact nearest.le_infinity
  | infinite negative => exact Nat.le_refl _

theorem isNaN (h : RoundsTo v x) : x.isNaN = false :=
  decide_eq_false (Nat.not_lt.mpr h.code_le)

/-- The places of the infinities are the ends of the order. -/
theorem rank_bounds (h : RoundsTo v x) :
    -(infinityCode : Int) ≤ x.rank ∧ x.rank ≤ (infinityCode : Int) := by
  have hle : (x.code : Int) ≤ infinityCode := Int.ofNat_le.mpr h.code_le
  unfold rank
  split <;> omega

/-- Rounding keeps the order of rational values: that of magnitudes on the side of each sign. -/
theorem rank_le_of_rational {value other : ℚ} (hx : Nearest |value| x.code)
    (hxsign : if x.negative then value ≤ 0 else 0 ≤ value) (hy : Nearest |other| y.code)
    (hysign : if y.negative then other ≤ 0 else 0 ≤ other) (h : value ≤ other) : x.rank ≤ y.rank := by
  unfold rank
  cases hxneg : x.negative <;> cases hyneg : y.negative <;>
    simp only [hxneg, hyneg, if_true, if_false, Bool.false_eq_true] at hxsign hysign ⊢
  · rw [abs_of_nonneg hxsign] at hx
    rw [abs_of_nonneg hysign] at hy
    exact Int.ofNat_le.mpr (hx.mono hy h)
  · -- both values are zero
    have hvalue : value = 0 := le_antisymm (le_trans h hysign) hxsign
    have hother : other = 0 := le_antisymm hysign (le_trans hxsign h)
    rw [hvalue, abs_zero] at hx
    rw [hother, abs_zero] at hy
    rw [hx.unique Nearest.zero, hy.unique Nearest.zero]
    decide
  · omega
  · rw [abs_of_nonpos hxsign] at hx
    rw [abs_of_nonpos hysign] at hy
    exact neg_le_neg (Int.ofNat_le.mpr (hy.mono hx (neg_le_neg h)))

/-- **Rounding keeps the order** of exact values. -/
theorem rank_le (hx : RoundsTo v x) (hy : RoundsTo w y) (h : v ≤ w) : x.rank ≤ y.rank := by
  have hxbounds := hx.rank_bounds
  have hybounds := hy.rank_bounds
  cases hx with
  | rational hx hxsign =>
      cases hy with
      | rational hy hysign =>
          exact rank_le_of_rational hx hxsign hy hysign (WithTop.coe_le_coe.mp (WithBot.coe_le_coe.mp h))
      | infinite negative =>
          cases negative with
          | true => exact absurd h (not_le.mpr (WithBot.bot_lt_coe _))
          | false => exact hxbounds.2
  | infinite negative =>
      cases negative with
      | true => exact hybounds.1
      | false =>
          obtain rfl : w = ⊤ := top_le_iff.mp h
          generalize hw : (⊤ : Extended) = w at hy
          cases hy with
          | rational => exact absurd hw.symm (WithBot.coe_injective.ne (WithTop.coe_ne_top))
          | infinite negative =>
              cases negative with
              | true => exact absurd hw top_ne_bot
              | false => exact le_refl _

theorem le (hx : RoundsTo v x) (hy : RoundsTo w y) (h : v ≤ w) : x.le y = true := by
  rw [Binary64.le, hx.isNaN, hy.isNaN]
  exact decide_eq_true (hx.rank_le hy h)

/-- Two numbers to which a value is rounded have one place in the order. -/
theorem rank_eq (hx : RoundsTo v x) (hy : RoundsTo v y) : x.rank = y.rank :=
  le_antisymm (hx.rank_le hy (le_refl v)) (hy.rank_le hx (le_refl v))

end RoundsTo

/-! ## Values that are numbers -/

/-- Whether a value is the exact value of a number. -/
def Representable (v : Extended) : Prop :=
  ∃ x : Binary64, x.isNaN = false ∧ x.exactValue = v

/-- The exact value of a number depends on its place in the order only. -/
theorem exactValue_eq_of_rank {x y : Binary64} (h : x.rank = y.rank) : x.exactValue = y.exactValue := by
  have hcode : x.code = y.code := by
    unfold rank at h
    split at h <;> split at h <;> omega
  unfold exactValue isInfinite
  rw [hcode]
  by_cases hzero : y.code = 0
  · rw [hzero, if_neg (by decide), if_neg (by decide), magnitude_zero]
    cases x.negative <;> cases y.negative <;> simp [Extended.signed]
  · have hnegative : x.negative = y.negative := by
      unfold rank at h
      cases hx : x.negative <;> cases hy : y.negative <;>
        simp only [hx, hy, if_true, if_false, Bool.false_eq_true] at h ⊢ <;> omega
    rw [hnegative]

/-- Numbers are ordered as their exact values. -/
theorem le_iff_exactValue {x y : Binary64} (hx : x.isNaN = false) (hy : y.isNaN = false) :
    x.le y = true ↔ x.exactValue ≤ y.exactValue := by
  constructor
  · intro h
    by_contra hlt
    have hback := (roundsTo_exactValue hy).rank_le (roundsTo_exactValue hx) (le_of_not_ge hlt)
    have hrank : x.rank ≤ y.rank := by
      rw [Binary64.le, hx, hy] at h
      exact of_decide_eq_true h
    exact hlt (le_of_eq (exactValue_eq_of_rank (le_antisymm hrank hback)))
  · exact (roundsTo_exactValue hx).le (roundsTo_exactValue hy)

/-- A value that is a number is rounded to itself. -/
theorem RoundsTo.exactValue_eq {v : Extended} {x : Binary64} (h : RoundsTo v x) (hv : Representable v) :
    x.exactValue = v := by
  obtain ⟨y, hy, rfl⟩ := hv
  exact exactValue_eq_of_rank (h.rank_eq (roundsTo_exactValue hy))

/-- **Values that are numbers are compared exactly.** -/
theorem RoundsTo.le_iff {v w : Extended} {x y : Binary64} (hx : RoundsTo v x) (hy : RoundsTo w y)
    (hv : Representable v) (hw : Representable w) : x.le y = true ↔ v ≤ w := by
  rw [le_iff_exactValue hx.isNaN hy.isNaN, hx.exactValue_eq hv, hy.exactValue_eq hw]

end Binary64

end DocStore
