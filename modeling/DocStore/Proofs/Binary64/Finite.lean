import DocStore.Proofs.Binary64.Nearest

/-!
# Results that stay finite

When a rounded integer, quotient or product is a finite number. The largest finite magnitude and the
code after it fix the bounds; rounding a factor costs one part in `2 ^ 53`.

## Contents
- `largestCode`, `units_top`: the largest finite code, and how the codes below it are spaced.
- `ofInt_isFinite`: integers of 64 bits.
- `powerOfTen_ge_one`, `div_powerOfTen_le`: quotients by a power of ten do not grow.
- `ofRatio_one_relative`: the relative error of a rounded integer.
- `mul_isFinite`: products below the midpoint above the largest finite number.
- `mul_ofRatio_isFinite`: products of rounded integers.
-/

namespace DocStore.Binary64

/-! ## The largest numbers -/

/-- The largest code of a finite number. -/
def largestCode : Nat := infinityCode - 1

/-- The codes below infinity are equally spaced through a whole binade. -/
theorem units_top : ∃ step, 0 < step ∧ ∀ below ≤ binade,
    units (infinityCode - below) = (2 * binade - below) * step := by
  -- the exponent is a variable, so that its power is never evaluated
  obtain ⟨shift, hshift⟩ : ∃ shift, shift = 2045 := ⟨2045, rfl⟩
  refine ⟨2 ^ shift, Nat.two_pow_pos shift, ?_⟩
  intro below h
  have hcode : infinityCode - below = shift * binade + (2 * binade - below) := by
    simp only [infinityCode, hshift, show binade = 4503599627370496 from rfl] at *
    omega
  rw [hcode]
  exact units_shift (fun _ => by omega) (Nat.sub_le _ _)

theorem units_infinityCode {step : Nat}
    (h : ∀ below ≤ binade, units (infinityCode - below) = (2 * binade - below) * step) :
    units infinityCode = 2 * binade * step := by
  have hzero := h 0 (Nat.zero_le _)
  rwa [Nat.sub_zero, Nat.sub_zero] at hzero

/-- Every finite magnitude is below this power of ten. -/
theorem units_infinityCode_lt : units infinityCode < 10 ^ 309 * unitsPerOne := by decide +kernel

theorem isFinite_of_code_le {x : Binary64} (h : x.code ≤ largestCode) : x.isFinite = true := by
  have hlt : largestCode < infinityCode := by decide
  exact decide_eq_true (Nat.lt_of_le_of_lt h hlt)

/-! ## Integers and powers of ten -/

theorem unitsPerOne_pos : 0 < unitsPerOne := by decide +kernel

theorem ofRatio_code_le (negative : Bool) (num den : Nat) :
    (ofRatio negative num den).code ≤ roundUnits (num * unitsPerOne) den :=
  Nat.min_le_left _ _

/-- The code of the number one. -/
theorem units_one : units (1023 * binade) = unitsPerOne := by decide +kernel

/-- An integer of 64 bits is rounded to a finite number. -/
theorem ofInt_isFinite {n : Nat} (h : n < 0x10000000000000000) :
    (ofInt n).isFinite = true := by
  have hbound : units (1087 * binade) = 0x10000000000000000 * unitsPerOne := by decide +kernel
  have hle : roundUnits (n * unitsPerOne) 1 ≤ 1087 * binade := by
    refine roundUnits_le Nat.one_pos ?_
    rw [hbound, Nat.mul_one]
    exact Nat.mul_le_mul_right _ (Nat.le_of_lt h)
  refine isFinite_of_code_le (Nat.le_trans (ofRatio_code_le _ _ _) ?_)
  rw [Int.natAbs_natCast]
  exact Nat.le_trans hle (by decide)

/-- A power of ten is not rounded below one. -/
theorem powerOfTen_ge_one (exponent : Nat) : unitsPerOne ≤ units (powerOfTen exponent).code := by
  rw [← units_one]
  refine units_le_units (Nat.le_min.mpr ⟨?_, by decide⟩)
  refine le_roundUnits Nat.one_pos ?_
  rw [units_one, Nat.mul_one]
  exact Nat.le_mul_of_pos_left _ (Nat.pow_pos (by decide))

/-- A quotient by a power of ten is not larger than the dividend. -/
theorem div_powerOfTen_le (x : Binary64) (exponent : Nat) :
    (x.div (powerOfTen exponent)).code ≤ x.code := by
  have hpower := powerOfTen_ge_one exponent
  refine Nat.le_trans (ofRatio_code_le _ _ _) (roundUnits_le ?_ ?_)
  · exact Nat.lt_of_lt_of_le unitsPerOne_pos hpower
  · exact Nat.mul_le_mul_left _ hpower

/-- Rounding a positive integer adds at most one part in `2 ^ 53`. -/
theorem ofRatio_one_relative (negative : Bool) {n : Nat} (hpos : 0 < n) :
    2 * binade * units (ofRatio negative n 1).code ≤ (2 * binade + 1) * (n * unitsPerOne) := by
  have hlarge : binade * 1 ≤ n * unitsPerOne := by
    rw [Nat.mul_comm binade]
    exact Nat.mul_le_mul hpos (by decide +kernel)
  have hrel := roundUnits_relative Nat.one_pos hlarge
  rw [Nat.mul_one] at hrel
  exact Nat.le_trans (Nat.mul_le_mul_left _ (units_le_units (ofRatio_code_le _ _ _))) hrel

/-! ## Products -/

/-- A product that is nearer to the largest finite number than to infinity is rounded to a finite
    number. -/
theorem mul_isFinite {x y : Binary64}
    (h : 2 * (units x.code * units y.code) <
      (units largestCode + units infinityCode) * unitsPerOne) : (x.mul y).isFinite = true := by
  refine isFinite_of_code_le (Nat.le_trans (ofRatio_code_le _ _ _) ?_)
  refine roundUnits_le_of_midpoint (Nat.mul_pos unitsPerOne_pos unitsPerOne_pos) ?_
  have hnext : largestCode + 1 = infinityCode := by decide
  rw [hnext]
  calc 2 * (units x.code * units y.code * unitsPerOne)
      = 2 * (units x.code * units y.code) * unitsPerOne := by ring
    _ < (units largestCode + units infinityCode) * unitsPerOne * unitsPerOne :=
        Nat.mul_lt_mul_of_pos_right h unitsPerOne_pos
    _ = (units largestCode + units infinityCode) * (unitsPerOne * unitsPerOne) := by ring

/-- Two factors, each rounded up by one part in `2 * k + 4`, do not carry a product over a distance of
    six parts in twice as many. -/
private theorem mul_lt_of_relative {k x y m n unit step : Nat} (hunit : 0 < unit) (hstep : 0 < step)
    (hx : (2 * k + 4) * x ≤ (2 * k + 5) * (m * unit))
    (hy : (2 * k + 4) * y ≤ (2 * k + 5) * (n * unit))
    (hmn : 2 * (m * n * unit) ≤ (4 * k + 1) * step) :
    2 * (x * y) < (4 * k + 7) * step * unit := by
  have hxy := Nat.mul_le_mul hx hy
  have hsmall : (2 * k + 5) * (2 * k + 5) * (4 * k + 1) < (2 * k + 4) * (2 * k + 4) * (4 * k + 7) := by
    nlinarith
  have hpos : 0 < step * unit := Nat.mul_pos hstep hunit
  refine Nat.lt_of_mul_lt_mul_left (a := (2 * k + 4) * (2 * k + 4)) ?_
  calc (2 * k + 4) * (2 * k + 4) * (2 * (x * y))
      = 2 * ((2 * k + 4) * x * ((2 * k + 4) * y)) := by ring
    _ ≤ 2 * ((2 * k + 5) * (m * unit) * ((2 * k + 5) * (n * unit))) := Nat.mul_le_mul_left _ hxy
    _ = (2 * k + 5) * (2 * k + 5) * unit * (2 * (m * n * unit)) := by ring
    _ ≤ (2 * k + 5) * (2 * k + 5) * unit * ((4 * k + 1) * step) := Nat.mul_le_mul_left _ hmn
    _ = (2 * k + 5) * (2 * k + 5) * (4 * k + 1) * (step * unit) := by ring
    _ < (2 * k + 4) * (2 * k + 4) * (4 * k + 7) * (step * unit) :=
        Nat.mul_lt_mul_of_pos_right hsmall hpos
    _ = (2 * k + 4) * (2 * k + 4) * ((4 * k + 7) * step * unit) := by ring

/-- The rounded product of two rounded integers is finite if the exact one is below the fourth largest
    number or not far above it. -/
theorem mul_ofRatio_isFinite (s t : Bool) {m n : Nat} (hm : 0 < m) (hn : 0 < n)
    (h : 2 * (m * n * unitsPerOne) ≤ units (infinityCode - 4) + units (infinityCode - 3)) :
    ((ofRatio s m 1).mul (ofRatio t n 1)).isFinite = true := by
  obtain ⟨step, hstep, htop⟩ := units_top
  obtain ⟨k, hk⟩ : ∃ k, binade = k + 2 := ⟨binade - 2, by decide⟩
  have hbound : 2 * (m * n * unitsPerOne) ≤ (4 * k + 1) * step := by
    rw [htop 4 (by decide), htop 3 (by decide), ← Nat.add_mul] at h
    have hparts : 2 * binade - 4 + (2 * binade - 3) = 4 * k + 1 := by omega
    rwa [hparts] at h
  have hends : units largestCode + units infinityCode = (4 * k + 7) * step := by
    have hparts : 2 * binade - 1 + 2 * binade = 4 * k + 7 := by omega
    rw [units_infinityCode htop, largestCode, htop 1 (by decide), ← Nat.add_mul, hparts]
  have htwice : 2 * binade = 2 * k + 4 := by omega
  have hx := ofRatio_one_relative s hm
  have hy := ofRatio_one_relative t hn
  rw [htwice] at hx hy
  refine mul_isFinite ?_
  rw [hends]
  exact mul_lt_of_relative unitsPerOne_pos hstep hx hy hbound

end DocStore.Binary64
