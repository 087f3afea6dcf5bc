import DocStore.Proofs.Decimal.FewestDigits
import Mathlib.Algebra.Order.Field.Basic
import Mathlib.Data.List.Induction
import Mathlib.Tactic.IntervalCases

/-!
# Shortest digits

Of the decimals with the fewest digits that round to a number, the shortest one is the nearest. Another one
lies on the same grid, of which the nearest value was taken, unless the one that was found is the power of
ten itself. That power is then so close to the number that no digit below it is closer.

## Contents
- `Range.pick_closest`, `Range.search_closest`: what is chosen is the nearest on its grid.
- `power_above_small`, `power_above_le`, `power_closest`: a power of ten above a number.
- `shortest_closest`: **no decimal with as many digits is nearer**.
- `scientificValue`: the value of digits from where the first of them stands.
- `ShortestDigits`, `shortestDigits_shortest`: **the digits of the shortest decimal**.
-/

namespace DocStore.Decimal

open Binary64

/-! ## The nearest of the shortest -/

namespace Range

variable {range : Range} {tie : Tie}

/-- Of the multiples of a step that round to the number, none is nearer than the one that is chosen. -/
theorem pick_closest (hself : range.holds range.value = true) {step significand m : Nat} (hpos : 0 < step)
    (hpick : range.pick tie step = some significand) (h : range.holds (m * step) = true) :
    (((significand * step : Nat) : Int) - range.value).natAbs ≤
      (((m * step : Nat) : Int) - range.value).natAbs := by
  have hbelow : range.value / step * step ≤ range.value := Nat.div_mul_le_self _ _
  have hsucc : (range.value / step + 1) * step = range.value / step * step + step := by
    rw [Nat.add_mul, Nat.one_mul]
  have habove : range.value < range.value / step * step + step := Nat.lt_div_mul_add hpos
  have hrest : range.value / step * step + range.value % step = range.value := Nat.div_add_mod' _ _
  have hsides := holds_next hself hpos h
  simp only [pick] at hpick
  split at hpick
  · rename_i _ hfalse
    obtain rfl := Option.some.inj hpick
    rcases hsides with ⟨hle, -⟩ | ⟨-, htrue⟩
    · omega
    · rw [hfalse] at htrue
      cases htrue
  · rename_i hfalse _
    obtain rfl := Option.some.inj hpick
    rcases hsides with ⟨-, htrue⟩ | ⟨hle, -⟩
    · rw [hfalse] at htrue
      cases htrue
    · omega
  · cases hpick
  split at hpick
  · obtain rfl := Option.some.inj hpick
    omega
  split at hpick
  · obtain rfl := Option.some.inj hpick
    omega
  · cases tie with
    | up =>
        obtain rfl := Option.some.inj hpick
        omega
    | even =>
        obtain rfl := Option.some.inj hpick
        rcases Nat.mod_two_eq_zero_or_one (range.value / step) with heven | hodd
        · rw [heven, Nat.add_zero]
          omega
        · rw [hodd]
          omega

/-- Of the multiples of the grid that the search ends on, none that rounds to the number is nearer. -/
theorem search_closest (hself : range.holds range.value = true) {places k m : Nat}
    (hexp : (range.search tie places).exponent = k - 1074) (h : range.holds (m * 10 ^ k) = true) :
    ((((range.search tie places).significand * 10 ^ k : Nat) : Int) - range.value).natAbs ≤
      (((m * 10 ^ k : Nat) : Int) - range.value).natAbs := by
  induction places with
  | zero =>
      -- on the finest grid the number itself is found
      have hvalue : (range.search tie 0).significand = range.value := rfl
      have hzero : (range.search tie 0).exponent = -1074 := rfl
      obtain rfl : k = 0 := by omega
      rw [hvalue, pow_zero, Nat.mul_one, Int.sub_self]
      exact Nat.zero_le _
  | succ places ih =>
      have hpow : Nat.pow 10 (places + 1) = 10 ^ (places + 1) := rfl
      unfold search at hexp ⊢
      rw [hpow] at hexp ⊢
      cases hpick : range.pick tie (10 ^ (places + 1)) with
      | some significand =>
          rw [hpick] at hexp
          obtain rfl : k = places + 1 := by
            dsimp only at hexp
            omega
          exact pick_closest hself (Nat.pow_pos (by decide)) hpick h
      | none =>
          rw [hpick] at hexp
          exact ih hexp

end Range

section Closest

variable {code : Nat}

/-- The magnitude counted in small units. -/
theorem magnitude_eq_div (code : Nat) :
    magnitude code = ((Range.ofCode code).value : ℚ) / smallUnitsPerOne := by
  have hrefinement : (refinement : ℚ) ≠ 0 := Nat.cast_ne_zero.mpr (Nat.ne_of_gt refinement_pos)
  unfold magnitude smallUnitsPerOne Range.ofCode
  rw [Nat.cast_mul, Nat.cast_mul, mul_div_mul_right _ _ hrefinement]

/-- Distances counted in small units. -/
theorem abs_sub_small (a b : Nat) :
    |(a : ℚ) / smallUnitsPerOne - b / smallUnitsPerOne| =
      ((((a : Int) - b).natAbs : Nat) : ℚ) / smallUnitsPerOne := by
  have hpos : (0 : ℚ) < smallUnitsPerOne := Nat.cast_pos.mpr smallUnitsPerOne_pos
  rw [← sub_div, abs_div, abs_of_pos hpos, Nat.cast_natAbs, Int.cast_abs]
  push_cast
  rfl

/-- On its own grid no decimal that rounds to the number is nearer than the shortest one. -/
theorem shortest_closest_of_grid (tie : Tie) (hpos : 0 < code) (hfin : code < infinityCode)
    {other : Decimal} (h : Nearest other.exact code)
    (hgrid : other.exponent = (shortest tie code).exponent) :
    |(shortest tie code).exact - magnitude code| ≤ |other.exact - magnitude code| := by
  obtain ⟨k, hexp, -, -⟩ := shortest_spec tie hpos
  rw [exact_eq_div (hgrid.trans hexp)] at h ⊢
  have hholds := (holds_iff_nearest hpos hfin _).mpr h
  have hclosest := Range.search_closest (ofCode_holds_value hpos) hexp hholds
  rw [exact_eq_div hexp, magnitude_eq_div, abs_sub_small, abs_sub_small]
  exact div_le_div_of_nonneg_right (Nat.cast_le.mpr hclosest) (Nat.cast_nonneg _)

/-- The first power of ten above one of the nine smallest numbers is known: if it rounds to the number, it is
    larger by one part in twenty at most. -/
theorem power_above_small {r k : Nat} (hpos : 0 < r) (hsmall : r < 10) (hlt : r * refinement < 10 ^ k)
    (hend : 2 * 10 ^ k ≤ r * refinement + (r + 1) * refinement) :
    19 * 10 ^ k ≤ 20 * (r * refinement) := by
  obtain ⟨n, hone, hthree, hthree', hforty, hnineteen⟩ : ∃ n, 10 ^ n ≤ refinement ∧
      3 * refinement < 2 * 10 ^ (n + 1) ∧ 10 ^ (n + 1) ≤ 3 * refinement ∧
      19 * 10 ^ (n + 1) ≤ 40 * refinement ∧ 19 * refinement < 2 * 10 ^ (n + 2) :=
    ⟨750, by decide +kernel⟩
  have hself : refinement ≤ r * refinement := Nat.le_mul_of_pos_left _ hpos
  have hn : n < k := (Nat.pow_lt_pow_iff_right (by decide : 1 < 10)).mp
    (Nat.lt_of_le_of_lt (Nat.le_trans hone hself) hlt)
  rcases Nat.eq_or_lt_of_le (Nat.succ_le_of_lt hn) with rfl | hnext
  · interval_cases r <;> omega
  · -- the later powers of ten are beyond the interval
    have hpow : 10 ^ (n + 2) ≤ 10 ^ k := Nat.pow_le_pow_right (by decide) hnext
    have hupper : (r + 1) * refinement ≤ 10 * refinement := Nat.mul_le_mul_right _ hsmall
    have hlower : r * refinement ≤ 9 * refinement := Nat.mul_le_mul_right _ (by omega)
    omega

/-- A power of ten that rounds to a smaller number is larger by one part in twenty at most. -/
theorem power_above_le (hpos : 0 < code) {k : Nat} (hlt : (Range.ofCode code).value < 10 ^ k)
    (h : (Range.ofCode code).holds (10 ^ k) = true) : 19 * 10 ^ k ≤ 20 * (Range.ofCode code).value := by
  have hend := (Range.bounds_of_holds h).2
  obtain ⟨shift, r, rfl, hlow, -, hself, hnext⟩ := units_form code
  simp only [Range.ofCode, hself, hnext] at hlt hend ⊢
  rcases Nat.lt_or_ge r 10 with hsmall | hlarge
  · -- a significand so small belongs to the first binade
    obtain rfl : shift = 0 := by
      by_contra hshift
      have hlarge := hlow (Nat.pos_of_ne_zero hshift)
      have hbinade : 10 ≤ binade := by decide
      omega
    rw [Nat.zero_mul, Nat.zero_add] at hpos
    rw [pow_zero, Nat.mul_one] at hlt ⊢
    rw [pow_zero, Nat.mul_one, Nat.mul_one] at hend
    exact power_above_small hpos hsmall hlt hend
  · -- the interval is narrow for its number
    have hstep : (r + 1) * 2 ^ shift * refinement = r * 2 ^ shift * refinement + 2 ^ shift * refinement := by
      ring
    have hten : 10 * (2 ^ shift * refinement) ≤ r * 2 ^ shift * refinement := by
      rw [Nat.mul_assoc r]
      exact Nat.mul_le_mul_right _ hlarge
    omega

/-- The same for decimals: the power of ten above a number is nearer than every digit on a finer grid. -/
theorem power_closest (hpos : 0 < code) (hfin : code < infinityCode) {e : Int} (he : -1074 ≤ e)
    (hpower : Nearest (exact ⟨1, e⟩) code) {other : Decimal} (hdigit : other.significand ≤ 9)
    (hfiner : other.exponent < e) (hother : other.exact ≤ 10 ^ e) :
    |exact ⟨1, e⟩ - magnitude code| ≤ |other.exact - magnitude code| := by
  rcases le_or_gt (exact ⟨1, e⟩) (magnitude code) with hbelow | habove
  · -- the number is not below the power of ten, and the digit is not above it
    rw [exact_power] at hbelow ⊢
    rw [abs_sub_comm, abs_sub_comm other.exact, abs_of_nonneg (sub_nonneg.mpr hbelow),
      abs_of_nonneg (sub_nonneg.mpr (le_trans hother hbelow))]
    linarith
  · have htwentieth : 19 * exact ⟨1, e⟩ ≤ 20 * magnitude code := by
      obtain ⟨k, hk⟩ : ∃ k : Nat, e = k - 1074 := ⟨(e + 1074).toNat, by omega⟩
      have hsmall : (0 : ℚ) < smallUnitsPerOne := Nat.cast_pos.mpr smallUnitsPerOne_pos
      rw [exact_eq_div hk, Nat.one_mul] at hpower habove ⊢
      rw [magnitude_eq_div, div_lt_div_iff_of_pos_right hsmall, Nat.cast_lt] at habove
      have hle := power_above_le hpos habove ((holds_iff_nearest hpos hfin _).mpr hpower)
      rw [magnitude_eq_div, ← mul_div_assoc, ← mul_div_assoc, div_le_div_iff_of_pos_right hsmall]
      exact_mod_cast hle
    -- the digit is below nine tenths of the power of ten
    have hdigit' : (other.significand : ℚ) ≤ 9 := by exact_mod_cast hdigit
    have hninth : 10 * other.exact ≤ 9 * exact ⟨1, e⟩ := by
      calc 10 * other.exact = other.significand * (10 ^ other.exponent * 10) := by
            unfold exact
            ring
        _ = other.significand * 10 ^ (other.exponent + 1) := by rw [zpow_add_one₀ (by norm_num)]
        _ ≤ 9 * 10 ^ e :=
            mul_le_mul hdigit' (zpow_le_zpow_right₀ (by norm_num) (by omega))
              (zpow_nonneg (by norm_num) _) (by norm_num)
        _ = 9 * exact ⟨1, e⟩ := by rw [exact_power]
    rw [abs_of_nonneg (sub_nonneg.mpr (le_of_lt habove)), abs_sub_comm]
    refine le_trans ?_ (le_abs_self _)
    linarith

/-- **No decimal with as many digits that rounds to the number is nearer** than the shortest one. -/
theorem shortest_closest (tie : Tie) (hpos : 0 < code) (hfin : code < infinityCode) {other : Decimal}
    (h : Nearest other.exact code) {d : Nat} (hlow : 10 ^ d ≤ (shortest tie code).significand)
    (hd : other.significand < 10 ^ (d + 1)) :
    |(shortest tie code).exact - magnitude code| ≤ |other.exact - magnitude code| := by
  rcases Int.lt_or_eq_of_le (exponent_le_shortest tie hpos hfin h) with hfiner | hgrid
  swap
  · exact shortest_closest_of_grid tie hpos hfin h hgrid
  -- on a finer grid it is below a power of ten that is not above the shortest decimal
  have hother : other.exact ≤ 10 ^ ((shortest tie code).exponent + d) :=
    exact_le_power (Nat.le_of_lt hd) (by push_cast; omega)
  have hbetween := nearest_power_between tie hpos hfin h hother (power_le_exact hlow (le_refl _))
  obtain rfl : d = 0 := by
    have hle := exponent_le_shortest tie hpos hfin hbetween
    dsimp only at hle
    omega
  rw [Int.natCast_zero, Int.add_zero] at hother hbetween
  obtain ⟨k, hexp, -, -⟩ := shortest_spec tie hpos
  have hgrid : ∀ e, (Decimal.mk 1 e).exponent = e := fun _ => rfl
  calc |(shortest tie code).exact - magnitude code|
      ≤ |exact ⟨1, (shortest tie code).exponent⟩ - magnitude code| :=
        shortest_closest_of_grid tie hpos hfin hbetween (hgrid _)
    _ ≤ |other.exact - magnitude code| :=
        power_closest hpos hfin (by omega) hbetween (by omega) hfiner hother

end Closest

/-! ## The digits of a number -/

/-- Digits are worth less than the power of ten with so many zeros. -/
theorem digitsValue_lt {ds : List Char} (h : ∀ c ∈ ds, isDigit c = true) :
    digitsValue ds < 10 ^ ds.length := by
  have hdigit : ∀ c : Char, isDigit c = true → c.toNat - '0'.toNat < 10 := by
    intro c hc
    have hle : c.toNat ≤ 57 := by
      simp only [isDigit, Bool.and_eq_true, decide_eq_true_eq] at hc
      exact hc.2
    have hzero : '0'.toNat = 48 := rfl
    omega
  -- from the last digit on, as the value is built up
  induction ds using List.reverseRecOn with
  | nil => exact Nat.one_pos
  | append_singleton ds c ih =>
      obtain ⟨hds, hc⟩ := List.forall_mem_append.mp h
      have hlast := hdigit c (hc c List.mem_cons_self)
      have hvalue : digitsValue (ds ++ [c]) = 10 * digitsValue ds + (c.toNat - '0'.toNat) := by
        unfold digitsValue
        rw [List.foldl_append]
        rfl
      have hfront := ih hds
      rw [hvalue, List.length_append, List.length_singleton, pow_succ]
      omega

/-- The value of digits of which the first stands for tens to the given power. -/
def scientificValue (ds : List Char) (exponent : Int) : ℚ :=
  digitsValue ds * 10 ^ (exponent - ds.length + 1)

theorem scientificValue_eq (ds : List Char) (exponent : Int) :
    scientificValue ds exponent = exact ⟨digitsValue ds, exponent - ds.length + 1⟩ := rfl

/-- The value of a decimal from its digits. -/
theorem scientificValue_digits (value : Decimal) :
    scientificValue (digits value.significand)
      (value.exponent + (digits value.significand).length - 1) = value.exact := by
  have hvalue : digitsValue (digits value.significand) = value.significand := digits_value _
  have hexponent : ∀ e k : Int, e + k - 1 - k + 1 = e := by
    intro e k
    omega
  rw [scientificValue, hvalue, hexponent]
  rfl

/-- A number is not below the power of ten of its first digit. -/
theorem power_le_of_digits {n : Nat} (hpos : 0 < n) : 10 ^ ((digits n).length - 1) ≤ n := by
  rcases Nat.eq_zero_or_pos ((digits n).length - 1) with hone | hmore
  · rw [hone, pow_zero]
    exact hpos
  · by_contra hlt
    have hlength := (Nat.length_toDigits_le_iff (by decide) hmore).mpr (Nat.not_le.mp hlt)
    unfold digits at hmore hlength
    omega

/-- Whether digits, of which the first stands for tens to the given power, are the shortest that round to
    a magnitude, and no others of the same number are nearer to it. -/
structure ShortestDigits (code : Nat) (ds : List Char) (exponent : Int) : Prop where
  digit : ∀ c ∈ ds, isDigit c = true
  head : ∃ d rest, ds = d :: rest ∧ d ≠ '0'
  nearest : Nearest (scientificValue ds exponent) code
  least : ∀ other place, (∀ c ∈ other, isDigit c = true) →
    Nearest (scientificValue other place) code → ds.length ≤ other.length
  closest : ∀ other place, (∀ c ∈ other, isDigit c = true) →
    Nearest (scientificValue other place) code → other.length = ds.length →
    |scientificValue ds exponent - magnitude code| ≤ |scientificValue other place - magnitude code|

/-- **The digits of the shortest decimal are the shortest**, and the nearest of those. -/
theorem shortestDigits_shortest (tie : Tie) {code : Nat} (hpos : 0 < code) (hfin : code < infinityCode) :
    ShortestDigits code (digits (shortest tie code).significand)
      ((shortest tie code).exponent + (digits (shortest tie code).significand).length - 1) where
  digit := mem_digits
  head := digits_head (shortest_pos tie hpos)
  nearest := by
    rw [scientificValue_digits]
    exact nearest_shortest tie hpos hfin
  least := by
    intro other place hother hnearest
    rw [scientificValue_eq] at hnearest
    have hlt := shortest_least tie hpos hfin hnearest (digitsValue_lt hother)
    rcases Nat.eq_zero_or_pos other.length with hzero | hlength
    · rw [hzero] at hlt
      exact absurd (Nat.lt_one_iff.mp hlt) (Nat.ne_of_gt (shortest_pos tie hpos))
    · exact (Nat.length_toDigits_le_iff (by decide) hlength).mpr hlt
  closest := by
    intro other place hother hnearest hlength
    have hdigits : 0 < (digits (shortest tie code).significand).length :=
      List.length_pos_of_ne_nil (digits_ne_nil _)
    have hlt := digitsValue_lt hother
    rw [hlength, ← Nat.sub_add_cancel hdigits] at hlt
    rw [scientificValue_eq other] at hnearest ⊢
    rw [scientificValue_digits]
    exact shortest_closest tie hpos hfin hnearest (power_le_of_digits (shortest_pos tie hpos)) hlt

end DocStore.Decimal
