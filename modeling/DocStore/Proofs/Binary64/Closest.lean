import DocStore.Proofs.Binary64.ExactOrder
import Mathlib.Algebra.Order.Ring.Abs

/-!
# The closest number

Rounding as it is commonly described, by distances: a value becomes the finite number at the least distance
from it, of two such numbers the one with the even code, and it becomes infinite if it reaches the midpoint
above the largest finite number. That is the number of which the specification by midpoints speaks, so there
is exactly one.

## Contents
- `CorrectlyRounded`: rounding by distances.
- `midpoint_largest`, `midpoint_zero`: where values become infinite, and where they become zero.
- `correctlyRounded_iff_nearest`: **the closest number is the nearest one**.
- `CorrectlyRounded.unique`, `eq_infinity_iff`, `eq_zero_iff`: there is one, and when it is infinite or zero.
- `correctlyRounded_ofDecimal`: decimals are rounded in this way.
-/

namespace DocStore.Binary64

/-- Whether a number is what rounding makes of a magnitude with a sign. From the midpoint above the largest
    finite number on, it is infinite. Otherwise no finite number is closer, and if another one is as close,
    the code is even. -/
structure CorrectlyRounded (negative : Bool) (value : ℚ) (x : Binary64) : Prop where
  sign : x.negative = negative
  number : x.isNaN = false
  infinite : x.isInfinite = true ↔ 2 ^ 1024 - 2 ^ 970 ≤ value
  closest : x.isFinite = true → ∀ code < infinityCode,
    |value - magnitude x.code| ≤ |value - magnitude code|
  tie : x.isFinite = true → ∀ code < infinityCode, code ≠ x.code →
    |value - magnitude x.code| = |value - magnitude code| → x.code % 2 = 0

/-! ## Distances -/

section Distances

variable {a b : ℚ} (value : ℚ)

/-- Of two values, the larger one is closer from the middle on. -/
theorem closer_upper_iff (h : a < b) : |value - b| ≤ |value - a| ↔ (a + b) / 2 ≤ value := by
  have hfactor : (value - a) ^ 2 - (value - b) ^ 2 = (b - a) * (2 * value - (a + b)) := by ring
  rw [← sq_le_sq, ← sub_nonneg, hfactor, mul_nonneg_iff_of_pos_left (sub_pos.mpr h), sub_nonneg,
    div_le_iff₀ two_pos, mul_comm]

/-- Of two values, the smaller one is closer up to the middle. -/
theorem closer_lower_iff (h : a < b) : |value - a| ≤ |value - b| ↔ value ≤ (a + b) / 2 := by
  have hfactor : (value - b) ^ 2 - (value - a) ^ 2 = (b - a) * (a + b - 2 * value) := by ring
  rw [← sq_le_sq, ← sub_nonneg, hfactor, mul_nonneg_iff_of_pos_left (sub_pos.mpr h), sub_nonneg,
    le_div_iff₀ two_pos, mul_comm]

theorem same_distance_iff (h : a < b) : |value - b| = |value - a| ↔ value = (a + b) / 2 := by
  rw [le_antisymm_iff, closer_upper_iff value h, closer_lower_iff value h, le_antisymm_iff, and_comm]

end Distances

/-! ## The ends of the finite numbers -/

/-- What lies halfway between the largest finite number and the one that would come next. -/
theorem midpoint_largest : midpoint (infinityCode - 1) = 2 ^ 1024 - 2 ^ 970 := by
  have hunits : units (infinityCode - 1) + units (infinityCode - 1 + 1) =
      (2 ^ 1024 - 2 ^ 970) * (2 * unitsPerOne) := by decide +kernel
  -- the exponents are variables, so that the powers are never evaluated
  have hle : ∀ m n : Nat, m ≤ n → 2 ^ m ≤ 2 ^ n := fun m n => Nat.pow_le_pow_right two_pos
  rw [midpoint_eq, hunits, Nat.cast_mul, mul_div_cancel_right₀ _ (ne_of_gt two_units_pos),
    Nat.cast_sub (hle 970 1024 (by decide)), Nat.cast_pow, Nat.cast_pow, Nat.cast_two]

/-- What lies halfway between zero and the smallest number. -/
theorem midpoint_zero : midpoint 0 = 1 / 2 ^ 1075 := by
  have hunits : units 0 + units (0 + 1) = 1 := by decide
  have hdouble : 2 * unitsPerOne = 2 ^ 1075 := by decide +kernel
  rw [midpoint_eq, hunits, hdouble, Nat.cast_one, Nat.cast_pow, Nat.cast_two]

/-! ## Nearest numbers are closest -/

section Neighbours

variable {a b : Nat}

/-- The midpoint below a number is as far up as the middle between it and any smaller one. -/
theorem middle_le_midpoint (h : a < b) : (magnitude a + magnitude b) / 2 ≤ midpoint (b - 1) := by
  have hle : magnitude a ≤ magnitude (b - 1) := magnitude_le_magnitude (Nat.le_sub_one_of_lt h)
  rw [midpoint, Nat.sub_add_cancel (Nat.zero_lt_of_lt h)]
  linarith

theorem midpoint_le_middle (h : a < b) : midpoint a ≤ (magnitude a + magnitude b) / 2 := by
  have hle : magnitude (a + 1) ≤ magnitude b := magnitude_le_magnitude h
  rw [midpoint]
  linarith

end Neighbours

variable {negative : Bool} {value : ℚ} {x y : Binary64} {code other : Nat}

theorem Nearest.closest (h : Nearest value code) (hcode : code < infinityCode) (other : Nat) :
    |value - magnitude code| ≤ |value - magnitude other| := by
  rcases Nat.lt_trichotomy other code with hlt | rfl | hlt
  · have hlower := (h.lower (Nat.zero_lt_of_lt hlt)).1
    exact (closer_upper_iff value (magnitude_lt_magnitude hlt)).mpr (le_trans (middle_le_midpoint hlt) hlower)
  · exact le_refl _
  · have hupper := (h.upper hcode).1
    exact (closer_lower_iff value (magnitude_lt_magnitude hlt)).mpr (le_trans hupper (midpoint_le_middle hlt))

/-- A number that is as close as the nearest one is next to it, and the midpoint belongs to the even code. -/
theorem Nearest.tie (h : Nearest value code) (hcode : code < infinityCode) (hne : other ≠ code)
    (hsame : |value - magnitude code| = |value - magnitude other|) : code % 2 = 0 := by
  rcases Nat.lt_or_gt_of_ne hne with hlt | hlt
  · obtain ⟨hlower, heven⟩ := h.lower (Nat.zero_lt_of_lt hlt)
    have hmiddle := (same_distance_iff value (magnitude_lt_magnitude hlt)).mp hsame
    exact heven (le_antisymm (hmiddle ▸ middle_le_midpoint hlt) hlower)
  · obtain ⟨hupper, heven⟩ := h.upper hcode
    have hmiddle := (same_distance_iff value (magnitude_lt_magnitude hlt)).mp hsame.symm
    exact heven (le_antisymm hupper (hmiddle ▸ midpoint_le_middle hlt))

/-- The last midpoint belongs to infinity, since the largest finite code is odd. -/
theorem Nearest.eq_infinityCode_iff (h : Nearest value code) :
    code = infinityCode ↔ 2 ^ 1024 - 2 ^ 970 ≤ value := by
  rw [← midpoint_largest]
  constructor
  · rintro rfl
    exact (h.lower (by decide)).1
  · intro hlarge
    refine Nat.le_antisymm h.le_infinity (Nat.not_lt.mp fun hlt => ?_)
    obtain ⟨hupper, heven⟩ := h.upper hlt
    have hle : midpoint code ≤ midpoint (infinityCode - 1) :=
      midpoint_le_midpoint (Nat.le_sub_one_of_lt hlt)
    have hlast : ¬ code < infinityCode - 1 := fun hless =>
      absurd (le_trans hlarge hupper) (not_le.mpr (midpoint_lt_midpoint hless))
    have hodd : infinityCode % 2 = 0 := by decide
    have := heven (le_antisymm hupper (le_trans hle hlarge))
    omega

/-- The first midpoint belongs to zero. -/
theorem Nearest.eq_zero_iff (h : Nearest value code) : code = 0 ↔ value ≤ 1 / 2 ^ 1075 := by
  rw [← midpoint_zero]
  constructor
  · rintro rfl
    exact (h.upper (by decide)).1
  · intro hsmall
    by_contra hne
    have hpos : 0 < code := Nat.pos_of_ne_zero hne
    obtain ⟨hlower, heven⟩ := h.lower hpos
    have hfirst : ¬ 0 < code - 1 := fun hless =>
      absurd (le_trans hlower hsmall) (not_le.mpr (midpoint_lt_midpoint hless))
    have hone : code - 1 = 0 := by omega
    have := heven (le_antisymm (hone ▸ hsmall) hlower)
    omega

/-! ## The closest number is the nearest one -/

theorem CorrectlyRounded.nearest (h : CorrectlyRounded negative value x) : Nearest value x.code where
  le_infinity := Nat.not_lt.mp (of_decide_eq_false h.number)
  lower := by
    intro hpos
    by_cases hfinite : x.code < infinityCode
    · have hlt : x.code - 1 < x.code := Nat.sub_lt hpos Nat.one_pos
      have hbelow : x.code - 1 < infinityCode := Nat.lt_trans hlt hfinite
      have hcloser := closer_upper_iff value (magnitude_lt_magnitude hlt)
      have hsame := same_distance_iff value (magnitude_lt_magnitude hlt)
      have hdistance := h.closest (decide_eq_true hfinite) _ hbelow
      have htie := h.tie (decide_eq_true hfinite) _ hbelow (Nat.ne_of_lt hlt)
      rw [midpoint, Nat.sub_add_cancel hpos]
      exact ⟨hcloser.mp hdistance, fun hmiddle => htie (hsame.mpr hmiddle)⟩
    · have hle : x.code ≤ infinityCode := Nat.not_lt.mp (of_decide_eq_false h.number)
      have hcode : x.code = infinityCode := Nat.le_antisymm hle (Nat.not_lt.mp hfinite)
      rw [hcode, midpoint_largest]
      exact ⟨h.infinite.mp (beq_iff_eq.mpr hcode), fun _ => by decide⟩
  upper := by
    intro hfinite
    have hlt : x.code < x.code + 1 := Nat.lt_succ_self _
    by_cases hnext : x.code + 1 < infinityCode
    · have hcloser := closer_lower_iff value (magnitude_lt_magnitude hlt)
      have hsame := same_distance_iff value (magnitude_lt_magnitude hlt)
      have hdistance := h.closest (decide_eq_true hfinite) _ hnext
      have htie := h.tie (decide_eq_true hfinite) _ hnext (Nat.ne_of_gt hlt)
      exact ⟨hcloser.mp hdistance, fun hmiddle => htie (hsame.mpr hmiddle).symm⟩
    · -- the largest finite number, whose upper midpoint is infinite already
      have hcode : x.code = infinityCode - 1 := by omega
      have hsmall : value < 2 ^ 1024 - 2 ^ 970 := by
        rw [← not_le, ← h.infinite]
        exact fun hinfinite => Nat.ne_of_lt hfinite (beq_iff_eq.mp hinfinite)
      rw [hcode, midpoint_largest]
      exact ⟨le_of_lt hsmall, fun hmiddle => absurd hmiddle (ne_of_lt hsmall)⟩

/-- **The closest number is the nearest one.** -/
theorem correctlyRounded_iff_nearest :
    CorrectlyRounded negative value x ↔ x.negative = negative ∧ Nearest value x.code := by
  constructor
  · exact fun h => ⟨h.sign, h.nearest⟩
  · rintro ⟨hsign, hnearest⟩
    exact {
      sign := hsign
      number := decide_eq_false (Nat.not_lt.mpr hnearest.le_infinity)
      infinite := by rw [isInfinite, beq_iff_eq, hnearest.eq_infinityCode_iff]
      closest := fun hfinite other _ => hnearest.closest (of_decide_eq_true hfinite) other
      tie := fun hfinite _ _ hne hsame => hnearest.tie (of_decide_eq_true hfinite) hne hsame }

/-- There is one closest number. -/
theorem CorrectlyRounded.unique (hx : CorrectlyRounded negative value x)
    (hy : CorrectlyRounded negative value y) : x = y :=
  ext_code (hx.sign.trans hy.sign.symm) (hx.nearest.unique hy.nearest)

/-- From the midpoint above the largest finite number on, a value becomes infinite. -/
theorem CorrectlyRounded.eq_infinity_iff (h : CorrectlyRounded negative value x) :
    x = infinity negative ↔ 2 ^ 1024 - 2 ^ 970 ≤ value := by
  rw [← h.nearest.eq_infinityCode_iff]
  exact ⟨fun hinfinite => by rw [hinfinite, infinity], fun hcode => ext_code h.sign hcode⟩

/-- Up to the midpoint above zero, a value becomes zero. -/
theorem CorrectlyRounded.eq_zero_iff (h : CorrectlyRounded negative value x) :
    x = zero negative ↔ value ≤ 1 / 2 ^ 1075 := by
  rw [← h.nearest.eq_zero_iff]
  exact ⟨fun hzero => by rw [hzero, zero], fun hcode => ext_code h.sign hcode⟩

/-- **Decimals become the closest numbers.** -/
theorem correctlyRounded_ofDecimal (negative : Bool) (significand : Nat) (exponent : Int) :
    CorrectlyRounded negative (significand * 10 ^ exponent) (ofDecimal negative significand exponent) :=
  correctlyRounded_iff_nearest.mpr
    ⟨negative_ofDecimal negative significand exponent, nearest_ofDecimal negative significand exponent⟩

end DocStore.Binary64
