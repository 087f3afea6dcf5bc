import DocStore.Binary64.Rounding
import Mathlib.Tactic.Linarith
import Mathlib.Tactic.Ring

/-!
# Rounding is to the nearest

`roundUnits` computes a code by shifts and one rounded quotient. This module says what that code is:
the exact value lies between the midpoints to the two neighbouring magnitudes. Everything that later
proofs need about rounding follows from the two midpoint bounds and the growth of `units`.

## Contents
- `roundHalfEven_spec`, `roundHalfEven_tie`: a rounded quotient is off by at most one half, and it is even
  if it is off by one half.
- `units_shift`: the magnitude of a significand with a shift.
- `Form`, `roundUnits_form`: the shift and the significand behind a rounded code.
- `two_mul_le_midpoint`, `midpoint_le_two_mul`: **the midpoint bounds**.
- `even_of_upper_midpoint`, `even_of_lower_midpoint`: a midpoint is rounded to the even code.
- `roundUnits_le_of_midpoint`, `roundUnits_le`, `le_roundUnits`: comparisons with a given code.
- `roundUnits_relative`: the relative error upwards.
-/

namespace DocStore.Binary64

/-! ## Quotients -/

/-- A rounded quotient is off by at most one half, upwards and downwards. -/
theorem roundHalfEven_spec {num den : Nat} (h : 0 < den) :
    2 * (roundHalfEven num den * den) ≤ 2 * num + den ∧
      2 * num ≤ 2 * (roundHalfEven num den * den) + den := by
  have hdiv : den * (num / den) + num % den = num := Nat.div_add_mod num den
  have hmod : num % den < den := Nat.mod_lt _ h
  rw [Nat.mul_comm den] at hdiv
  simp only [roundHalfEven]
  split
  · omega
  split
  · rw [Nat.add_mul]
    omega
  · -- a tie: the quotient is followed by one half exactly
    rw [Nat.add_mul]
    rcases Nat.mod_two_eq_zero_or_one (num / den) with he | he <;> rw [he] <;> omega

/-- A quotient right between two natural numbers is rounded to the even one. -/
theorem roundHalfEven_tie {num den : Nat} (h : 0 < den)
    (htie : 2 * num = 2 * (roundHalfEven num den * den) + den ∨
      2 * num + den = 2 * (roundHalfEven num den * den)) : roundHalfEven num den % 2 = 0 := by
  have hdiv : den * (num / den) + num % den = num := Nat.div_add_mod num den
  have hmod : num % den < den := Nat.mod_lt _ h
  rw [Nat.mul_comm den] at hdiv
  revert htie
  simp only [roundHalfEven]
  split
  · omega
  split
  · rw [Nat.add_mul]
    omega
  · intro _
    rcases Nat.mod_two_eq_zero_or_one (num / den) with he | he <;> omega

/-! ## Magnitudes -/

theorem units_le_units {a b : Nat} (h : a ≤ b) : units a ≤ units b := by
  rcases Nat.eq_or_lt_of_le h with rfl | h
  · exact Nat.le_refl _
  · exact Nat.le_of_lt (units_lt_units h)

theorem units_pos {code : Nat} (h : 0 < code) : 0 < units code :=
  Nat.lt_of_le_of_lt (Nat.zero_le _) (units_lt_units h)

/-- The magnitude of a significand with a shift. At the upper end the code belongs to the next
    binade. -/
theorem units_shift {shift r : Nat} (hlow : 0 < shift → binade ≤ r) (hhigh : r ≤ 2 * binade) :
    units (shift * binade + r) = r * 2 ^ shift := by
  simp only [show binade = 4503599627370496 from rfl, units] at *
  have hpow : ∀ k, Nat.pow 2 k = 2 ^ k := fun _ => rfl
  by_cases hr : r < 4503599627370496
  · have hs : shift = 0 := Nat.eq_zero_of_not_pos fun hpos => absurd (hlow hpos) (by omega)
    subst hs
    rw [if_pos (by omega)]
    omega
  rw [if_neg (by omega)]
  by_cases hr2 : r = 2 * 4503599627370496
  · have hdiv : (shift * 4503599627370496 + r) / 4503599627370496 = shift + 2 := by omega
    have hmod : (shift * 4503599627370496 + r) % 4503599627370496 = 0 := by omega
    have hexp : shift + 2 - 1 = shift + 1 := by omega
    rw [hdiv, hmod, hpow, hexp, hr2, pow_succ]
    ring
  · have hdiv : (shift * 4503599627370496 + r) / 4503599627370496 = shift + 1 := by omega
    have hmod : (shift * 4503599627370496 + r) % 4503599627370496 = r - 4503599627370496 := by omega
    have hexp : shift + 1 - 1 = shift := by omega
    have hsum : 4503599627370496 + (r - 4503599627370496) = r := by omega
    rw [hdiv, hmod, hpow, hexp, hsum]

/-! ## Rounded codes -/

/-- How a code `shift * binade + r` stands for a quotient: `r` counts steps of `den * 2 ^ shift`, the
    quotient is off by at most half a step, and only unshifted significands may be short. -/
structure Form (num den shift r : Nat) : Prop where
  low : 0 < shift → binade * (den * 2 ^ shift) ≤ num
  high : num < 2 * binade * (den * 2 ^ shift)
  above : 2 * (r * (den * 2 ^ shift)) ≤ 2 * num + den * 2 ^ shift
  below : 2 * num ≤ 2 * (r * (den * 2 ^ shift)) + den * 2 ^ shift

namespace Form

variable {num den shift r : Nat}

/-- A shifted significand fills its binade. -/
theorem low_r (hden : 0 < den) (form : Form num den shift r) (h : 0 < shift) : binade ≤ r := by
  have hstep : 0 < den * 2 ^ shift := Nat.mul_pos hden (Nat.two_pow_pos _)
  by_contra hlt
  have hr : r + 1 ≤ binade := by omega
  have hmul := Nat.mul_le_mul_right (den * 2 ^ shift) hr
  rw [Nat.add_mul, Nat.one_mul] at hmul
  have := form.low h
  have := form.below
  omega

theorem high_r (hden : 0 < den) (form : Form num den shift r) : r ≤ 2 * binade := by
  have hstep : 0 < den * 2 ^ shift := Nat.mul_pos hden (Nat.two_pow_pos _)
  by_contra hlt
  have hr : 2 * binade + 1 ≤ r := by omega
  have hmul := Nat.mul_le_mul_right (den * 2 ^ shift) hr
  rw [Nat.add_mul, Nat.one_mul] at hmul
  have := form.high
  have := form.above
  omega

/-- The magnitude of the code, in the unit of the quotient. -/
theorem units_mul (hden : 0 < den) (form : Form num den shift r) :
    units (shift * binade + r) * den = r * (den * 2 ^ shift) := by
  rw [units_shift (form.low_r hden) (form.high_r hden)]
  ring

/-- The next magnitude, unless the significand was rounded up to the end of its binade. -/
theorem units_succ_mul (hden : 0 < den) (form : Form num den shift r) (h : r < 2 * binade) :
    units (shift * binade + r + 1) * den = r * (den * 2 ^ shift) + den * 2 ^ shift := by
  have hlow : 0 < shift → binade ≤ r + 1 := fun hs => Nat.le_succ_of_le (form.low_r hden hs)
  rw [Nat.add_assoc, units_shift hlow h]
  ring

/-- The previous magnitude, unless the significand is the first one of its binade. -/
theorem units_pred_mul (form : Form num den shift r) (hpos : 0 < r)
    (h : 0 < shift → binade < r) (hhigh : r ≤ 2 * binade) :
    units (shift * binade + r - 1) * den + den * 2 ^ shift = r * (den * 2 ^ shift) := by
  obtain ⟨k, rfl⟩ : ∃ k, r = k + 1 := ⟨r - 1, by omega⟩
  have hsub : shift * binade + (k + 1) - 1 = shift * binade + k := by omega
  rw [hsub, units_shift (fun hs => Nat.le_of_lt_succ (h hs)) (Nat.le_of_succ_le hhigh)]
  ring

end Form

variable {num den : Nat}

/-- The shift and the significand behind a rounded code. If the value is half a step off, the significand
    is even. -/
theorem roundUnits_form (num : Nat) (hden : 0 < den) :
    ∃ shift r, Form num den shift r ∧ roundUnits num den = shift * binade + r ∧
      (2 * num = 2 * (r * (den * 2 ^ shift)) + den * 2 ^ shift ∨
        2 * num + den * 2 ^ shift = 2 * (r * (den * 2 ^ shift)) → r % 2 = 0) := by
  have hpos : 0 < den * 2 ^ ((num / den).log2 - 52) := Nat.mul_pos hden (Nat.two_pow_pos _)
  refine ⟨(num / den).log2 - 52, roundHalfEven num (den * 2 ^ ((num / den).log2 - 52)),
    ⟨?_, ?_, (roundHalfEven_spec hpos).1, (roundHalfEven_spec hpos).2⟩, rfl, roundHalfEven_tie hpos⟩
  · intro hshift
    have hlog : (num / den).log2 = 52 + ((num / den).log2 - 52) := by omega
    have hne : num / den ≠ 0 := by
      intro hzero
      rw [hzero, Nat.log2_zero] at hshift
      exact absurd hshift (by decide)
    have hle : 2 ^ (num / den).log2 ≤ num / den := Nat.log2_self_le hne
    rw [hlog, pow_add] at hle
    have hmul := (Nat.le_div_iff_mul_le hden).mp hle
    calc binade * (den * 2 ^ ((num / den).log2 - 52))
        = 2 ^ 52 * 2 ^ ((num / den).log2 - 52) * den := by
          rw [show binade = 2 ^ 52 by decide]; ring
      _ ≤ num := hmul
  · have hlt : num / den < 2 ^ ((num / den).log2 + 1) := Nat.lt_log2_self
    have hle : 2 ^ ((num / den).log2 + 1) ≤ 2 ^ (53 + ((num / den).log2 - 52)) :=
      Nat.pow_le_pow_right (by decide) (by omega)
    have hmul := (Nat.div_lt_iff_lt_mul hden).mp (Nat.lt_of_lt_of_le hlt hle)
    calc num < 2 ^ (53 + ((num / den).log2 - 52)) * den := hmul
      _ = 2 * binade * (den * 2 ^ ((num / den).log2 - 52)) := by
          rw [show 2 * binade = 2 ^ 53 by decide, pow_add]; ring

/-- **Upper midpoint.** The exact value is at most halfway to the next magnitude. -/
theorem two_mul_le_midpoint (num : Nat) (hden : 0 < den) :
    2 * num ≤ (units (roundUnits num den) + units (roundUnits num den + 1)) * den := by
  obtain ⟨shift, r, form, hcode, -⟩ := roundUnits_form num hden
  rw [hcode, Nat.add_mul, form.units_mul hden]
  have hbelow := form.below
  by_cases hr : r < 2 * binade
  · rw [form.units_succ_mul hden hr]
    omega
  · -- the significand was rounded up to the next binade, so the value is below the code itself
    have hend : r = 2 * binade := Nat.le_antisymm (form.high_r hden) (Nat.not_lt.mp hr)
    have hlt := form.high
    have hmono := Nat.mul_le_mul_right den (units_le_units (Nat.le_add_right (shift * binade + r) 1))
    rw [form.units_mul hden] at hmono
    rw [← hend] at hlt
    omega

/-- **Lower midpoint.** The exact value is at least halfway from the previous magnitude. -/
theorem midpoint_le_two_mul (num : Nat) (hden : 0 < den) (hpos : 0 < roundUnits num den) :
    (units (roundUnits num den - 1) + units (roundUnits num den)) * den ≤ 2 * num := by
  obtain ⟨shift, r, form, hcode, -⟩ := roundUnits_form num hden
  rw [hcode] at hpos ⊢
  rw [Nat.add_mul, form.units_mul hden]
  have habove := form.above
  by_cases hfirst : 0 < shift ∧ r = binade
  · -- the first significand of a binade: the value is not below it
    have hlow := form.low hfirst.1
    have hmono := Nat.mul_le_mul_right den (units_le_units (Nat.sub_le (shift * binade + r) 1))
    rw [form.units_mul hden] at hmono
    rw [← hfirst.2] at hlow
    omega
  · have hlow : 0 < shift → binade < r := fun hs =>
      Nat.lt_of_le_of_ne (form.low_r hden hs) fun h => hfirst ⟨hs, h.symm⟩
    have hr : 0 < r := by
      rcases Nat.eq_zero_or_pos shift with hs | hs
      · rw [hs, Nat.zero_mul, Nat.zero_add] at hpos
        exact hpos
      · exact Nat.lt_of_le_of_lt (Nat.zero_le _) (hlow hs)
    have := form.units_pred_mul hr hlow (form.high_r hden)
    omega

/-- The parity of a code is that of its significand. -/
theorem code_mod_two (shift r : Nat) : (shift * binade + r) % 2 = r % 2 := by
  simp only [show binade = 4503599627370496 from rfl]
  omega

/-- A value halfway to the next magnitude is rounded to the even code. -/
theorem even_of_upper_midpoint (num : Nat) (hden : 0 < den)
    (h : (units (roundUnits num den) + units (roundUnits num den + 1)) * den = 2 * num) :
    roundUnits num den % 2 = 0 := by
  obtain ⟨shift, r, form, hcode, htie⟩ := roundUnits_form num hden
  rw [hcode, Nat.add_mul, form.units_mul hden] at h
  rw [hcode, code_mod_two]
  by_cases hr : r < 2 * binade
  · rw [form.units_succ_mul hden hr] at h
    exact htie (Or.inl (by omega))
  · -- a significand at the end of its binade was rounded up, so the value is below it
    have hend : r = 2 * binade := Nat.le_antisymm (form.high_r hden) (Nat.not_lt.mp hr)
    have hlt := form.high
    have hmono := Nat.mul_le_mul_right den (units_le_units (Nat.le_add_right (shift * binade + r) 1))
    rw [form.units_mul hden] at hmono
    rw [← hend] at hlt
    omega

/-- A value halfway from the previous magnitude is rounded to the even code. -/
theorem even_of_lower_midpoint (num : Nat) (hden : 0 < den) (hpos : 0 < roundUnits num den)
    (h : (units (roundUnits num den - 1) + units (roundUnits num den)) * den = 2 * num) :
    roundUnits num den % 2 = 0 := by
  obtain ⟨shift, r, form, hcode, htie⟩ := roundUnits_form num hden
  rw [hcode] at hpos
  rw [hcode, Nat.add_mul, form.units_mul hden] at h
  rw [hcode, code_mod_two]
  have hless : units (shift * binade + r - 1) * den < r * (den * 2 ^ shift) := by
    rw [← form.units_mul hden]
    exact Nat.mul_lt_mul_of_pos_right (units_lt_units (Nat.sub_lt hpos Nat.one_pos)) hden
  by_cases hfirst : 0 < shift ∧ r = binade
  · -- the first significand of a binade: the value is not below it
    have hlow := form.low hfirst.1
    rw [← hfirst.2] at hlow
    omega
  · have hlow : 0 < shift → binade < r := fun hs =>
      Nat.lt_of_le_of_ne (form.low_r hden hs) fun h => hfirst ⟨hs, h.symm⟩
    have hr : 0 < r := by
      rcases Nat.eq_zero_or_pos r with rfl | hr
      · rw [Nat.zero_mul] at hless
        exact absurd hless (Nat.not_lt_zero _)
      · exact hr
    have := form.units_pred_mul hr hlow (form.high_r hden)
    exact htie (Or.inr (by omega))

/-! ## Comparisons -/

/-- A value nearer to a code than to the next one is not rounded above it. -/
theorem roundUnits_le_of_midpoint (hden : 0 < den) {code : Nat}
    (h : 2 * num < (units code + units (code + 1)) * den) : roundUnits num den ≤ code := by
  by_contra hlt
  have hlt : code + 1 ≤ roundUnits num den := Nat.lt_of_not_le hlt
  have hmid := midpoint_le_two_mul num hden (by omega)
  have hprev : units code ≤ units (roundUnits num den - 1) := units_le_units (by omega)
  have hself : units (code + 1) ≤ units (roundUnits num den) := units_le_units hlt
  exact absurd (Nat.lt_of_lt_of_le h (Nat.mul_le_mul_right den (Nat.add_le_add hprev hself)))
    (Nat.not_lt.mpr hmid)

theorem roundUnits_le (hden : 0 < den) {code : Nat} (h : num ≤ units code * den) :
    roundUnits num den ≤ code := by
  refine roundUnits_le_of_midpoint hden ?_
  have hlt : units code * den < units (code + 1) * den :=
    Nat.mul_lt_mul_of_pos_right (units_lt_succ code) hden
  rw [Nat.add_mul]
  omega

theorem le_roundUnits (hden : 0 < den) {code : Nat} (h : units code * den ≤ num) :
    code ≤ roundUnits num den := by
  by_contra hlt
  have hlt : roundUnits num den + 1 ≤ code := Nat.lt_of_not_le hlt
  have hmid := two_mul_le_midpoint num hden
  have hnext := Nat.mul_le_mul_right den (units_le_units hlt)
  have hself := Nat.mul_lt_mul_of_pos_right (units_lt_succ (roundUnits num den)) hden
  rw [Nat.add_mul] at hmid
  omega

/-- The relative error upwards of a value in the range of full significands: one part in `2 ^ 53`. -/
theorem roundUnits_relative (hden : 0 < den) (h : binade * den ≤ num) :
    2 * binade * (units (roundUnits num den) * den) ≤ (2 * binade + 1) * num := by
  obtain ⟨shift, r, form, hcode, -⟩ := roundUnits_form num hden
  have hstep : binade * (den * 2 ^ shift) ≤ num := by
    rcases Nat.eq_zero_or_pos shift with hs | hs
    · rw [hs, pow_zero, Nat.mul_one]
      exact h
    · exact form.low hs
  have habove := form.above
  rw [hcode, form.units_mul hden]
  nlinarith

end DocStore.Binary64
