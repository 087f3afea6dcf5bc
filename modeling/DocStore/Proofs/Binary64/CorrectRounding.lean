import DocStore.Proofs.Binary64.Finite
import Mathlib.Algebra.Order.Field.Rat
import Mathlib.Data.Rat.Cast.Order
import Mathlib.Tactic.FieldSimp

/-!
# The number nearest to an exact value

An exact value that is not negative is rounded to the number nearest to it. It lies between the midpoints
to both neighbours of that number, and a midpoint belongs to the number with the even code. What reaches
the last midpoint is infinite. No value is nearest to two numbers, so this says all about a rounded number
except its sign.

## Contents
- `magnitude`, `midpoint`: exact values of codes, and what lies halfway between two of them.
- `Nearest`: the specification of rounding; `Nearest.mono`, `Nearest.unique`, `Nearest.convex`.
- `nearest_ofRatio`, `nearest_ofDecimal`: **quotients and decimals are rounded correctly**.
- `ofDecimal_eq`: the number of a decimal whose nearest code is known.
-/

namespace DocStore.Binary64

/-! ## Exact values of codes -/

/-- The exact magnitude of a code. Infinity counts as the number that would come after the largest one. -/
def magnitude (code : Nat) : ℚ :=
  units code / unitsPerOne

/-- What lies halfway between the magnitude of a code and that of the next one. -/
def midpoint (code : Nat) : ℚ :=
  (magnitude code + magnitude (code + 1)) / 2

theorem magnitude_le_magnitude {a b : Nat} (h : a ≤ b) : magnitude a ≤ magnitude b :=
  div_le_div_of_nonneg_right (Nat.cast_le.mpr (units_le_units h)) (Nat.cast_nonneg _)

theorem midpoint_eq (code : Nat) :
    midpoint code = ((units code + units (code + 1) : Nat) : ℚ) / ((2 * unitsPerOne : Nat) : ℚ) := by
  unfold midpoint magnitude
  push_cast
  rw [← add_div, div_div, mul_comm (unitsPerOne : ℚ)]

theorem two_units_pos : (0 : ℚ) < ((2 * unitsPerOne : Nat) : ℚ) :=
  Nat.cast_pos.mpr (Nat.mul_pos (by decide) unitsPerOne_pos)

theorem midpoint_lt_midpoint {a b : Nat} (h : a < b) : midpoint a < midpoint b := by
  rw [midpoint_eq, midpoint_eq, div_lt_div_iff_of_pos_right two_units_pos]
  exact Nat.cast_lt.mpr (Nat.add_lt_add (units_lt_units h) (units_lt_units (Nat.succ_lt_succ h)))

theorem midpoint_le_midpoint {a b : Nat} (h : a ≤ b) : midpoint a ≤ midpoint b := by
  rcases Nat.eq_or_lt_of_le h with rfl | h
  · exact le_refl _
  · exact le_of_lt (midpoint_lt_midpoint h)

section Quotients

variable {num den code : Nat}

/-- A midpoint below a quotient, counted in units. -/
theorem midpoint_le_iff (hden : 0 < den) :
    midpoint code ≤ (num : ℚ) / den ↔
      (units code + units (code + 1)) * den ≤ 2 * (num * unitsPerOne) := by
  rw [midpoint_eq, div_le_div_iff₀ two_units_pos (Nat.cast_pos.mpr hden), ← Nat.cast_mul, ← Nat.cast_mul,
    Nat.cast_le, ← Nat.mul_assoc num, Nat.mul_left_comm 2 num, ← Nat.mul_assoc num]

/-- A midpoint above a quotient, counted in units. -/
theorem le_midpoint_iff (hden : 0 < den) :
    (num : ℚ) / den ≤ midpoint code ↔
      2 * (num * unitsPerOne) ≤ (units code + units (code + 1)) * den := by
  rw [midpoint_eq, div_le_div_iff₀ (Nat.cast_pos.mpr hden) two_units_pos, ← Nat.cast_mul, ← Nat.cast_mul,
    Nat.cast_le, ← Nat.mul_assoc num, Nat.mul_left_comm 2 num, ← Nat.mul_assoc num]

theorem eq_midpoint_iff (hden : 0 < den) :
    (num : ℚ) / den = midpoint code ↔
      (units code + units (code + 1)) * den = 2 * (num * unitsPerOne) := by
  rw [le_antisymm_iff, le_midpoint_iff hden, midpoint_le_iff hden]
  omega

end Quotients

/-! ## The nearest number -/

/-- Whether the number with a code is the one nearest to a value, for values that are not negative. -/
structure Nearest (value : ℚ) (code : Nat) : Prop where
  le_infinity : code ≤ infinityCode
  lower : 0 < code → midpoint (code - 1) ≤ value ∧ (value = midpoint (code - 1) → code % 2 = 0)
  upper : code < infinityCode → value ≤ midpoint code ∧ (value = midpoint code → code % 2 = 0)

namespace Nearest

variable {value other : ℚ} {code a b : Nat}

/-- A larger value is not nearest to a smaller number: at most the midpoint between two neighbours could be
    nearest to both, and it belongs to the even code. -/
theorem mono (ha : Nearest value a) (hb : Nearest other b) (h : value ≤ other) : a ≤ b := by
  by_contra hlt
  have hlt : b < a := Nat.lt_of_not_le hlt
  obtain ⟨hhigh, heven⟩ := hb.upper (Nat.lt_of_lt_of_le hlt ha.le_infinity)
  obtain ⟨hlow, heven'⟩ := ha.lower (Nat.zero_lt_of_lt hlt)
  have hmid := midpoint_le_midpoint (show b ≤ a - 1 by omega)
  have hother : other = midpoint b := le_antisymm hhigh (le_trans hmid (le_trans hlow h))
  have hvalue : value = midpoint (a - 1) := le_antisymm (le_trans h (le_trans hhigh hmid)) hlow
  have hneighbours : ¬ b < a - 1 := fun hless =>
    absurd (hvalue ▸ hother ▸ h) (not_le.mpr (midpoint_lt_midpoint hless))
  have := heven hother
  have := heven' hvalue
  omega

/-- No value is nearest to two numbers. -/
theorem unique (ha : Nearest value a) (hb : Nearest value b) : a = b :=
  Nat.le_antisymm (ha.mono hb (le_refl value)) (hb.mono ha (le_refl value))

/-- What lies between two values nearest to a number is nearest to it too. -/
theorem convex (ha : Nearest value code) (hb : Nearest other code) {middle : ℚ}
    (hlow : value ≤ middle) (hhigh : middle ≤ other) : Nearest middle code where
  le_infinity := ha.le_infinity
  lower := by
    intro hpos
    obtain ⟨hle, heven⟩ := ha.lower hpos
    refine ⟨le_trans hle hlow, fun hmid => heven (le_antisymm ?_ hle)⟩
    exact le_trans hlow (le_of_eq hmid)
  upper := by
    intro hfin
    obtain ⟨hle, heven⟩ := hb.upper hfin
    refine ⟨le_trans hhigh hle, fun hmid => heven (le_antisymm hle ?_)⟩
    exact le_trans (le_of_eq hmid.symm) hhigh

/-- Zero is nearest to zero. -/
theorem zero : Nearest 0 0 where
  le_infinity := Nat.zero_le _
  lower := fun h => absurd h (Nat.lt_irrefl 0)
  upper := by
    intro _
    have hmid : 0 ≤ midpoint 0 := by
      rw [midpoint_eq]
      exact div_nonneg (Nat.cast_nonneg _) (Nat.cast_nonneg _)
    exact ⟨hmid, fun _ => rfl⟩

/-- What is nearer to zero than to the next number. -/
theorem zero_of_lt (h : value < midpoint 0) : Nearest value 0 where
  le_infinity := Nat.zero_le _
  lower := fun h => absurd h (Nat.lt_irrefl 0)
  upper := fun _ => ⟨le_of_lt h, fun _ => rfl⟩

/-- What is beyond the magnitude of infinity. -/
theorem infinity_of_le (h : magnitude infinityCode ≤ value) : Nearest value infinityCode where
  le_infinity := Nat.le_refl _
  lower := by
    have hmid : midpoint (infinityCode - 1) ≤ magnitude infinityCode := by
      have hle := magnitude_le_magnitude (Nat.sub_le infinityCode 1)
      have hnext : infinityCode - 1 + 1 = infinityCode := by decide
      rw [midpoint, hnext]
      linarith
    exact fun _ => ⟨le_trans hmid h, fun _ => by decide⟩
  upper := fun h => absurd h (Nat.lt_irrefl _)

end Nearest

/-! ## Rounded quotients -/

/-- **A quotient is rounded to the number nearest to it.** -/
theorem nearest_ofRatio (negative : Bool) (num : Nat) {den : Nat} (hden : 0 < den) :
    Nearest (num / den) (ofRatio negative num den).code := by
  show Nearest (num / den) (min (roundUnits (num * unitsPerOne) den) infinityCode)
  have hupper := two_mul_le_midpoint (num * unitsPerOne) hden
  have hlower := midpoint_le_two_mul (num * unitsPerOne) hden
  have heven := even_of_upper_midpoint (num * unitsPerOne) hden
  have heven' := even_of_lower_midpoint (num * unitsPerOne) hden
  generalize roundUnits (num * unitsPerOne) den = code at *
  rcases Nat.lt_or_ge infinityCode code with hover | hle
  · -- the code would be beyond infinity, and so is the value
    rw [Nat.min_eq_right (Nat.le_of_lt hover)]
    have hmid : midpoint (code - 1) ≤ num / den := by
      rw [midpoint_le_iff hden, Nat.sub_add_cancel (Nat.zero_lt_of_lt hover)]
      exact hlower (Nat.zero_lt_of_lt hover)
    have hself : magnitude infinityCode ≤ magnitude (code - 1) := magnitude_le_magnitude (by omega)
    have hnext : magnitude infinityCode ≤ magnitude (code - 1 + 1) :=
      magnitude_le_magnitude (by omega)
    refine Nearest.infinity_of_le (le_trans ?_ hmid)
    rw [midpoint]
    linarith
  · rw [Nat.min_eq_left hle]
    refine ⟨hle, fun hpos => ?_, fun _ => ?_⟩
    · rw [midpoint_le_iff hden, eq_midpoint_iff hden, Nat.sub_add_cancel hpos]
      exact ⟨hlower hpos, heven' hpos⟩
    · rw [le_midpoint_iff hden, eq_midpoint_iff hden]
      exact ⟨hupper, heven⟩

/-! ## Rounded decimals -/

/-- A power of ten so large that every multiple of it is infinite. -/
theorem magnitude_infinity_le {significand e : Nat} (hpos : 0 < significand) (he : 310 ≤ e) :
    magnitude infinityCode ≤ ((significand * 10 ^ e : Nat) : ℚ) := by
  -- the bound has a variable exponent, so that its power is never evaluated
  obtain ⟨k, hk, hbound⟩ : ∃ k ≤ 310, units infinityCode ≤ 10 ^ k * unitsPerOne :=
    ⟨309, by decide, Nat.le_of_lt units_infinityCode_lt⟩
  have hpow : 10 ^ k ≤ significand * 10 ^ e := by
    calc 10 ^ k ≤ 10 ^ e := Nat.pow_le_pow_right (by decide) (by omega)
      _ ≤ significand * 10 ^ e := Nat.le_mul_of_pos_left _ hpos
  have hunits : units infinityCode ≤ significand * 10 ^ e * unitsPerOne :=
    Nat.le_trans hbound (Nat.mul_le_mul_right _ hpow)
  unfold magnitude
  rw [div_le_iff₀ (Nat.cast_pos.mpr unitsPerOne_pos), ← Nat.cast_mul]
  exact Nat.cast_le.mpr hunits

/-- A power of ten so small that every significand with so many bits gives zero. -/
theorem lt_midpoint_zero {significand e : Nat} (he : significand.log2 + 331 ≤ e) :
    (significand : ℚ) / ((10 ^ (e + 1) : Nat) : ℚ) < midpoint 0 := by
  rw [← not_le, midpoint_le_iff (Nat.pow_pos (by decide)), Nat.not_le]
  have hbits : significand < 10 ^ (significand.log2 + 1) :=
    Nat.lt_of_lt_of_le Nat.lt_log2_self (Nat.pow_le_pow_left (by decide) _)
  obtain ⟨k, hk, htwice⟩ : ∃ k ≤ 331, 2 * unitsPerOne ≤ 10 ^ k :=
    ⟨331, by decide, by decide +kernel⟩
  have hunits : units 0 + units (0 + 1) = 1 := by decide
  calc 2 * (significand * unitsPerOne) = significand * (2 * unitsPerOne) := by ring
    _ < 10 ^ (significand.log2 + 1) * 10 ^ k :=
        Nat.mul_lt_mul_of_lt_of_le hbits htwice (Nat.pow_pos (by decide))
    _ = 10 ^ (significand.log2 + 1 + k) := (pow_add _ _ _).symm
    _ ≤ 10 ^ (e + 1) := Nat.pow_le_pow_right (by decide) (by omega)
    _ = (units 0 + units (0 + 1)) * 10 ^ (e + 1) := by rw [hunits, Nat.one_mul]

/-- **A decimal is rounded to the number nearest to it**, also where its power of ten is not computed. -/
theorem nearest_ofDecimal (negative : Bool) (significand : Nat) (exponent : Int) :
    Nearest (significand * 10 ^ exponent) (ofDecimal negative significand exponent).code := by
  unfold ofDecimal
  split
  · rename_i hzero
    rw [hzero, Nat.cast_zero, zero_mul]
    exact Nearest.zero
  rename_i hne
  split
  · rename_i e
    have hvalue : (significand : ℚ) * 10 ^ (Int.ofNat e) = ((significand * 10 ^ e : Nat) : ℚ) := by
      push_cast
      rfl
    rw [hvalue]
    split
    · rename_i hlarge
      exact Nearest.infinity_of_le (magnitude_infinity_le (Nat.pos_of_ne_zero hne) hlarge)
    · have hnearest := nearest_ofRatio negative (significand * 10 ^ e) Nat.one_pos
      rwa [Nat.cast_one, div_one] at hnearest
  · rename_i e
    have hvalue : (significand : ℚ) * 10 ^ (Int.negSucc e) =
        (significand : ℚ) / ((10 ^ (e + 1) : Nat) : ℚ) := by
      rw [zpow_negSucc, ← div_eq_mul_inv]
      push_cast
      rfl
    rw [hvalue]
    split
    · rename_i hsmall
      exact Nearest.zero_of_lt (lt_midpoint_zero hsmall)
    · exact nearest_ofRatio negative significand (Nat.pow_pos (by decide))

theorem negative_ofDecimal (negative : Bool) (significand : Nat) (exponent : Int) :
    (ofDecimal negative significand exponent).negative = negative := by
  unfold ofDecimal
  split
  · rfl
  split
  · split
    · rfl
    · rfl
  · split
    · rfl
    · rfl

/-- Numbers with the same sign and the same code are equal. -/
theorem ext_code {x y : Binary64} (hnegative : x.negative = y.negative) (hcode : x.code = y.code) :
    x = y := by
  cases x
  cases y
  simp_all

/-- The number of a decimal whose nearest code is known. -/
theorem ofDecimal_eq {x : Binary64} {significand : Nat} {exponent : Int}
    (h : Nearest (significand * 10 ^ exponent) x.code) :
    ofDecimal x.negative significand exponent = x :=
  ext_code (negative_ofDecimal _ _ _) ((nearest_ofDecimal _ _ _).unique h)

end DocStore.Binary64
