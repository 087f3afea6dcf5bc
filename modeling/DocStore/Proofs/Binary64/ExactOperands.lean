import DocStore.Proofs.Binary64.ExactOrder

/-!
# Operands without error

A product or a quotient of numbers is rounded once, so it is correctly rounded if its operands are exact. An
integer of 53 bits is a number, and so is a power of ten whose odd part has so many bits.

## Contents
- `nearest_mul`, `nearest_div`: products and quotients of numbers are rounded once.
- `exists_form`, `magnitude_ofRatio_one`: integers of 53 bits with a power of two are numbers.
- `magnitude_ofInt`, `magnitude_powerOfTen`: **exact operands**.
- `isFinite_of_nearest`, `code_mul_one`: results that stay finite, and products with one.
-/

namespace DocStore.Binary64

/-! ## One rounding -/

/-- A product of numbers is rounded once. -/
theorem nearest_mul (x y : Binary64) :
    Nearest (magnitude x.code * magnitude y.code) (x.mul y).code := by
  have hnearest := nearest_ofRatio (x.negative != y.negative) (units x.code * units y.code)
    (Nat.mul_pos unitsPerOne_pos unitsPerOne_pos)
  rwa [Nat.cast_mul, Nat.cast_mul, ← div_mul_div_comm] at hnearest

/-- A quotient of numbers is rounded once. -/
theorem nearest_div (x : Binary64) {y : Binary64} (hy : 0 < units y.code) :
    Nearest (magnitude x.code / magnitude y.code) (x.div y).code := by
  have hunit : (unitsPerOne : ℚ) ≠ 0 := Nat.cast_ne_zero.mpr (Nat.ne_of_gt unitsPerOne_pos)
  have hnearest := nearest_ofRatio (x.negative != y.negative) (units x.code) hy
  rwa [magnitude, magnitude, div_div_div_cancel_right₀ hunit]

/-! ## Exact integers -/

/-- A significand of 53 bits with a power of two has the form of a code: it is doubled, as far as the power
    allows, until it fills its binade. By induction on the power. -/
theorem exists_form (power : Nat) : ∀ m ≤ 2 * binade, ∃ shift r, shift ≤ power ∧ r ≤ 2 * binade ∧
    (0 < shift → binade ≤ r) ∧ r * 2 ^ shift = m * 2 ^ power := by
  induction power with
  | zero => exact fun m hm => ⟨0, m, Nat.le_refl _, hm, fun h => absurd h (Nat.lt_irrefl 0), rfl⟩
  | succ power ih =>
      intro m hm
      rcases Nat.lt_or_ge m binade with hlow | hfull
      · obtain ⟨shift, r, hshift, hr, hbinade, hvalue⟩ := ih (2 * m) (by omega)
        refine ⟨shift, r, Nat.le_succ_of_le hshift, hr, hbinade, ?_⟩
        rw [hvalue, pow_succ]
        ring
      · exact ⟨power + 1, m, Nat.le_refl _, hm, fun _ => hfull, rfl⟩

/-- One is a power of two of units. -/
theorem unitsPerOne_eq_pow : ∃ unit ≤ 1074, unitsPerOne = 2 ^ unit := by
  -- the exponent is a variable, so that its power is never evaluated
  obtain ⟨shift, hshift⟩ : ∃ shift, shift = 1022 := ⟨1022, rfl⟩
  have hcode : 1023 * binade = shift * binade + binade := by rw [hshift, ← Nat.succ_mul]
  have hbinade : binade = 2 ^ 52 := by decide
  refine ⟨52 + shift, by omega, ?_⟩
  rw [← units_one, hcode, units_shift (fun _ => Nat.le_refl _) (by omega), pow_add, ← hbinade]

/-- A significand of 53 bits with a power of two is the magnitude of a code. -/
theorem exists_magnitude {m power : Nat} (hm : m ≤ 2 * binade) (hpower : power ≤ 970) :
    ∃ code < infinityCode, magnitude code = ((m * 2 ^ power : Nat) : ℚ) := by
  obtain ⟨unit, hle, hunit⟩ := unitsPerOne_eq_pow
  obtain ⟨shift, r, hshift, hr, hbinade, hvalue⟩ := exists_form (power + unit) m hm
  have hunits : units (shift * binade + r) = m * 2 ^ power * unitsPerOne := by
    rw [units_shift hbinade hr, hvalue, hunit, pow_add, Nat.mul_assoc]
  refine ⟨shift * binade + r, ?_, ?_⟩
  · simp only [infinityCode, show binade = 4503599627370496 from rfl] at *
    omega
  · rw [magnitude, hunits, Nat.cast_mul]
    exact mul_div_cancel_right₀ _ (Nat.cast_ne_zero.mpr (Nat.ne_of_gt unitsPerOne_pos))

/-- A significand of 53 bits with a power of two is not changed by rounding. -/
theorem magnitude_ofRatio_one (negative : Bool) {m power : Nat} (hm : m ≤ 2 * binade)
    (hpower : power ≤ 970) :
    magnitude (ofRatio negative (m * 2 ^ power) 1).code = ((m * 2 ^ power : Nat) : ℚ) := by
  obtain ⟨code, hcode, hmagnitude⟩ := exists_magnitude hm hpower
  have hnearest := nearest_ofRatio negative (m * 2 ^ power) Nat.one_pos
  rw [Nat.cast_one, div_one, ← hmagnitude] at hnearest
  rw [hnearest.unique (nearest_magnitude (Nat.le_of_lt hcode)), hmagnitude]

/-- An integer of 53 bits is a number. -/
theorem magnitude_ofInt {n : Nat} (h : n ≤ 2 * binade) : magnitude (ofInt n).code = n := by
  have hexact := magnitude_ofRatio_one (decide ((n : Int) < 0)) h (Nat.zero_le 970)
  rwa [pow_zero, Nat.mul_one] at hexact

/-- A power of ten up to the twenty-second is a number: its odd part has 53 bits. -/
theorem magnitude_powerOfTen {exponent : Nat} (h : exponent ≤ 22) :
    magnitude (powerOfTen exponent).code = 10 ^ exponent := by
  have hodd : 5 ^ exponent ≤ 2 * binade :=
    Nat.le_trans (Nat.pow_le_pow_right (by decide) h) (by decide)
  have hsplit : 5 ^ exponent * 2 ^ exponent = Nat.pow 10 exponent := (Nat.mul_pow 5 2 exponent).symm
  have hexact := magnitude_ofRatio_one false hodd (Nat.le_trans h (by decide))
  rw [hsplit] at hexact
  rw [powerOfTen, hexact]
  exact Nat.cast_pow 10 exponent

/-- What is nearest to no more than such a power of two is finite. -/
theorem isFinite_of_nearest {value : ℚ} {x : Binary64} (h : Nearest value x.code) {power : Nat}
    (hpower : power ≤ 970) (hvalue : value ≤ ((2 ^ power : Nat) : ℚ)) : x.isFinite = true := by
  obtain ⟨bound, hbound, hmagnitude⟩ := exists_magnitude (show 1 ≤ 2 * binade by decide) hpower
  rw [Nat.one_mul] at hmagnitude
  have hle := h.mono (nearest_magnitude (Nat.le_of_lt hbound)) (hmagnitude ▸ hvalue)
  exact decide_eq_true (Nat.lt_of_le_of_lt hle hbound)

/-- A product with one is not changed. -/
theorem code_mul_one {x : Binary64} (h : x.code ≤ infinityCode) : (x.mul (powerOfTen 0)).code = x.code := by
  have hnearest := nearest_mul x (powerOfTen 0)
  rw [magnitude_powerOfTen (Nat.zero_le 22), pow_zero, mul_one] at hnearest
  exact hnearest.unique (nearest_magnitude h)

end DocStore.Binary64
