import DocStore.Proofs.Binary64.CorrectRounding
import DocStore.Proofs.Decimal.Shortest
import DocStore.Proofs.Decimal.Texts

/-!
# Shortest decimals have the fewest digits

The search starts on a grid that is coarser than any value of the interval and goes on to finer ones, so no
grid coarser than the one it ends on has a value that rounds to the number. A decimal with fewer digits
would lie on such a grid, or it would have a power of ten between itself and the decimal that was found.

## Contents
- `holds_iff_nearest`, `nearest_shortest`: **the shortest decimal rounds to its number**, exactly.
- `Range.holds_next`, `Range.search_coarser`, `not_holds_coarser`, `exponent_le_shortest`: the grids that the
  search passed have no value that rounds to the number.
- `nearest_power_between`: what stands between a decimal and the shortest one.
- `shortest_least`: **no decimal with fewer digits rounds to the number**.
-/

namespace DocStore.Decimal

open Binary64

/-! ## The interval of a code -/

/-- The units of 10⁻¹⁰⁷⁴ in one. -/
def smallUnitsPerOne : Nat := unitsPerOne * refinement

theorem smallUnitsPerOne_pos : 0 < smallUnitsPerOne := Nat.mul_pos unitsPerOne_pos refinement_pos

/-- A decimal counted in small units. -/
theorem exact_eq_div {value : Decimal} {k : Nat} (h : value.exponent = k - 1074) :
    value.exact = ((value.significand * 10 ^ k : Nat) : ℚ) / smallUnitsPerOne := by
  -- the exponent is a variable, so that its power is never evaluated
  obtain ⟨least, hleast, hunits⟩ : ∃ least : Nat, (least : Int) = 1074 ∧ smallUnitsPerOne = 10 ^ least :=
    ⟨1074, rfl, by decide +kernel⟩
  have hten : (10 : ℚ) ≠ 0 := by norm_num
  unfold exact
  rw [h, ← hleast, hunits, zpow_sub₀ hten, zpow_natCast, zpow_natCast, ← mul_div_assoc]
  push_cast
  rfl

/-- Both sides of a comparison with a midpoint have the units of one as a factor. -/
theorem midpoint_mul_small (code : Nat) : (units code + units (code + 1)) * smallUnitsPerOne =
    (units code * refinement + units (code + 1) * refinement) * unitsPerOne := by
  unfold smallUnitsPerOne
  ring

theorem midpoint_le_small_iff (code value : Nat) :
    midpoint code ≤ (value : ℚ) / smallUnitsPerOne ↔
      units code * refinement + units (code + 1) * refinement ≤ 2 * value := by
  rw [midpoint_le_iff smallUnitsPerOne_pos, midpoint_mul_small, ← Nat.mul_assoc 2]
  exact Nat.mul_le_mul_right_iff unitsPerOne_pos

theorem small_le_midpoint_iff (code value : Nat) :
    (value : ℚ) / smallUnitsPerOne ≤ midpoint code ↔
      2 * value ≤ units code * refinement + units (code + 1) * refinement := by
  rw [le_midpoint_iff smallUnitsPerOne_pos, midpoint_mul_small, ← Nat.mul_assoc 2]
  exact Nat.mul_le_mul_right_iff unitsPerOne_pos

/-- The ends of the interval are the midpoints to both neighbours, and they belong to even codes. -/
theorem nearest_iff_ends {code : Nat} (hpos : 0 < code) (hfin : code < infinityCode) (value : Nat) :
    Nearest ((value : ℚ) / smallUnitsPerOne) code ↔
      ((Range.ofCode code).doubledLow ≤ 2 * value ∧
        (2 * value ≤ (Range.ofCode code).doubledLow → code % 2 = 0)) ∧
      2 * value ≤ (Range.ofCode code).doubledHigh ∧
        ((Range.ofCode code).doubledHigh ≤ 2 * value → code % 2 = 0) := by
  have hlow := midpoint_le_small_iff (code - 1) value
  have hlow' := small_le_midpoint_iff (code - 1) value
  rw [Nat.sub_add_cancel hpos] at hlow hlow'
  simp only [Range.ofCode, ← hlow, ← hlow', ← small_le_midpoint_iff code, ← midpoint_le_small_iff code]
  constructor
  · intro h
    obtain ⟨hle, heven⟩ := h.lower hpos
    obtain ⟨hle', heven'⟩ := h.upper hfin
    exact ⟨⟨hle, fun hge => heven (le_antisymm hge hle)⟩, hle', fun hge => heven' (le_antisymm hle' hge)⟩
  · rintro ⟨⟨hle, heven⟩, hle', heven'⟩
    exact ⟨Nat.le_of_lt hfin, fun _ => ⟨hle, fun heq => heven (le_of_eq heq)⟩,
      fun _ => ⟨hle', fun heq => heven' (le_of_eq heq.symm)⟩⟩

/-- The interval of a code holds the values that are nearest to it. -/
theorem holds_iff_nearest {code : Nat} (hpos : 0 < code) (hfin : code < infinityCode) (value : Nat) :
    (Range.ofCode code).holds value = true ↔ Nearest ((value : ℚ) / smallUnitsPerOne) code := by
  have hclosed : (Range.ofCode code).closed = true ↔ code % 2 = 0 := beq_iff_eq
  rw [nearest_iff_ends hpos hfin]
  unfold Range.holds
  split
  · rename_i h
    have heven := hclosed.mp h
    simp only [Bool.and_eq_true, decide_eq_true_eq]
    omega
  · rename_i h
    have hodd := mt hclosed.mpr h
    simp only [Bool.and_eq_true, decide_eq_true_eq]
    omega

/-- **The shortest decimal rounds to its number.** -/
theorem nearest_shortest (tie : Tie) {code : Nat} (hpos : 0 < code) (hfin : code < infinityCode) :
    Nearest (shortest tie code).exact code := by
  obtain ⟨k, hexp, hholds, -⟩ := shortest_spec tie hpos
  rw [exact_eq_div hexp]
  exact (holds_iff_nearest hpos hfin _).mp hholds

/-! ## The grids that the search passed -/

namespace Range

variable {range : Range} {tie : Tie}

/-- What lies between two values that round to the number rounds to it too. -/
theorem holds_between {a b middle : Nat} (ha : range.holds a = true) (hb : range.holds b = true)
    (hlow : a ≤ middle) (hhigh : middle ≤ b) : range.holds middle = true := by
  unfold holds at ha hb ⊢
  cases hclosed : range.closed <;> simp only [hclosed, Bool.false_eq_true, if_false, if_true,
    Bool.and_eq_true, decide_eq_true_eq] at ha hb ⊢ <;> omega

/-- If a multiple of a step rounds to the number, so does the one next to the number on its side. -/
theorem holds_next (hself : range.holds range.value = true) {step m : Nat} (hpos : 0 < step)
    (h : range.holds (m * step) = true) :
    (m * step ≤ range.value / step * step ∧ range.holds (range.value / step * step) = true) ∨
      ((range.value / step + 1) * step ≤ m * step ∧
        range.holds ((range.value / step + 1) * step) = true) := by
  have hbelow : range.value / step * step ≤ range.value := Nat.div_mul_le_self _ _
  have habove : range.value ≤ (range.value / step + 1) * step := by
    rw [Nat.add_mul, Nat.one_mul]
    exact Nat.le_of_lt (Nat.lt_div_mul_add hpos)
  rcases Nat.lt_or_ge (range.value / step) m with hlt | hge
  · have hmul := Nat.mul_le_mul_right step (Nat.succ_le_of_lt hlt)
    exact Or.inr ⟨hmul, holds_between hself h habove hmul⟩
  · have hmul := Nat.mul_le_mul_right step hge
    exact Or.inl ⟨hmul, holds_between h hself hmul hbelow⟩

/-- A grid with a multiple that rounds to the number has one that is chosen. -/
theorem pick_isSome_of_holds (hself : range.holds range.value = true) {step m : Nat} (hpos : 0 < step)
    (h : range.holds (m * step) = true) : (range.pick tie step).isSome = true :=
  pick_isSome_of_next ((holds_next hself hpos h).imp And.right And.right)

/-- The search ends on the coarsest grid that has a decimal. -/
theorem search_coarser {places j : Nat} (hj : j ≤ places)
    (h : (range.search tie places).exponent < j - 1074) : range.pick tie (10 ^ j) = none := by
  induction places with
  | zero =>
      obtain rfl := Nat.le_zero.mp hj
      exact absurd h (Int.lt_irrefl _)
  | succ places ih =>
      have hpow : Nat.pow 10 (places + 1) = 10 ^ (places + 1) := rfl
      unfold search at h
      rw [hpow] at h
      cases hpick : range.pick tie (10 ^ (places + 1)) with
      | some significand =>
          rw [hpick] at h
          dsimp only at h
          omega
      | none =>
          rw [hpick] at h
          rcases Nat.eq_or_lt_of_le hj with rfl | hlt
          · exact hpick
          · exact ih (Nat.lt_succ_iff.mp hlt) h

end Range

section OfCode

variable {code : Nat}

/-- The interval ends below the power of ten with which the search starts. -/
theorem ofCode_doubledHigh_lt (hpos : 0 < code) :
    (Range.ofCode code).doubledHigh < 2 * 10 ^ ((Range.ofCode code).start + 1) := by
  have hhigh : (Range.ofCode code).doubledHigh ≤ 3 * (Range.ofCode code).value := by
    have hnext := Nat.mul_le_mul_right refinement (units_succ_le hpos)
    simp only [Range.ofCode]
    rw [Nat.mul_assoc] at hnext
    omega
  generalize (Range.ofCode code).doubledHigh = doubledHigh at hhigh
  unfold Range.start
  generalize (Range.ofCode code).value = value at hhigh
  have htwo : value < 2 ^ (value.log2 + 1) := Nat.lt_log2_self
  generalize value.log2 = bits at htwo
  have hpow : 2 ^ (bits + 2) ≤ 10 ^ (bits * 410 / 1359 + 2 + 1) := two_pow_le_ten_pow (by omega)
  rw [pow_succ] at htwo hpow
  rw [pow_succ] at hpow
  omega

/-- No grid that is coarser than the one of the shortest decimal has a value that rounds to the number. -/
theorem not_holds_coarser {tie : Tie} (hpos : 0 < code) {j : Nat}
    (hj : (shortest tie code).exponent < j - 1074) (m : Nat) :
    (Range.ofCode code).holds (m * 10 ^ j) = false := by
  by_contra h
  have hholds := Bool.eq_true_of_not_eq_false h
  rcases Nat.lt_or_ge (Range.ofCode code).start j with hlarge | hle
  · -- such a grid has only zero below the end of the interval
    rcases Nat.eq_zero_or_pos m with rfl | hm
    · rw [Nat.zero_mul, ofCode_holds_zero hpos] at hholds
      cases hholds
    · have hend := (Range.bounds_of_holds hholds).2
      have hlt := ofCode_doubledHigh_lt hpos
      have hpow : 10 ^ ((Range.ofCode code).start + 1) ≤ m * 10 ^ j :=
        Nat.le_trans (Nat.pow_le_pow_right (by decide) hlarge) (Nat.le_mul_of_pos_left _ hm)
      omega
  · have hsome : ((Range.ofCode code).pick tie (10 ^ j)).isSome = true :=
      Range.pick_isSome_of_holds (ofCode_holds_value hpos) (Nat.pow_pos (by decide)) hholds
    rw [Range.search_coarser hle hj] at hsome
    cases hsome

/-- Only grids at least as fine as the one of the shortest decimal have decimals that round to the number. -/
theorem exponent_le_shortest (tie : Tie) (hpos : 0 < code) (hfin : code < infinityCode) {other : Decimal}
    (h : Nearest other.exact code) : other.exponent ≤ (shortest tie code).exponent := by
  obtain ⟨k, hexp, -, -⟩ := shortest_spec tie hpos
  by_contra hcoarser
  have hj : other.exponent = (other.exponent + 1074).toNat - 1074 := by omega
  have hlt : (shortest tie code).exponent < (other.exponent + 1074).toNat - 1074 := by omega
  rw [exact_eq_div hj, ← holds_iff_nearest hpos hfin, not_holds_coarser hpos hlt] at h
  cases h

/-! ## The fewest digits -/

/-- A decimal is below the power of ten that follows its digits. -/
theorem exact_le_power {value : Decimal} {d : Nat} {e : Int} (hd : value.significand ≤ 10 ^ d)
    (he : value.exponent + d ≤ e) : value.exact ≤ 10 ^ e := by
  have hsignificand : (value.significand : ℚ) ≤ 10 ^ d := by exact_mod_cast hd
  calc value.exact = value.significand * 10 ^ value.exponent := rfl
    _ ≤ 10 ^ d * 10 ^ value.exponent :=
        mul_le_mul_of_nonneg_right hsignificand (zpow_nonneg (by norm_num) _)
    _ = 10 ^ (value.exponent + d) := by rw [zpow_add₀ (by norm_num), zpow_natCast, mul_comm]
    _ ≤ 10 ^ e := zpow_le_zpow_right₀ (by norm_num) he

/-- A decimal is not below the power of ten of its first digit. -/
theorem power_le_exact {value : Decimal} {d : Nat} {e : Int} (hd : 10 ^ d ≤ value.significand)
    (he : e ≤ value.exponent + d) : (10 : ℚ) ^ e ≤ value.exact := by
  have hsignificand : (10 : ℚ) ^ d ≤ value.significand := by exact_mod_cast hd
  calc (10 : ℚ) ^ e ≤ 10 ^ (value.exponent + d) := zpow_le_zpow_right₀ (by norm_num) he
    _ = 10 ^ d * 10 ^ value.exponent := by rw [zpow_add₀ (by norm_num), zpow_natCast, mul_comm]
    _ ≤ value.significand * 10 ^ value.exponent :=
        mul_le_mul_of_nonneg_right hsignificand (zpow_nonneg (by norm_num) _)

theorem exact_power (e : Int) : exact ⟨1, e⟩ = 10 ^ e := by
  rw [exact, Nat.cast_one, one_mul]

/-- A power of ten between a decimal that rounds to the number and the shortest one rounds to it too. -/
theorem nearest_power_between (tie : Tie) (hpos : 0 < code) (hfin : code < infinityCode)
    {other : Decimal} (h : Nearest other.exact code) {e : Int} (hlow : other.exact ≤ 10 ^ e)
    (hhigh : (10 : ℚ) ^ e ≤ (shortest tie code).exact) : Nearest (exact ⟨1, e⟩) code := by
  rw [exact_power]
  exact h.convex (nearest_shortest tie hpos hfin) hlow hhigh

/-- **No decimal with fewer digits rounds to the number.** -/
theorem shortest_least (tie : Tie) (hpos : 0 < code) (hfin : code < infinityCode) {other : Decimal}
    (h : Nearest other.exact code) {d : Nat} (hd : other.significand < 10 ^ d) :
    (shortest tie code).significand < 10 ^ d := by
  by_contra hlarge
  have hlarge := Nat.not_lt.mp hlarge
  have hle := exponent_le_shortest tie hpos hfin h
  rcases Nat.eq_zero_or_pos d with rfl | hdpos
  · -- without digits the value is zero, which rounds to no positive number
    have hzero : other.exact = 0 := by
      unfold exact
      rw [Nat.lt_one_iff.mp hd, Nat.cast_zero, zero_mul]
    rw [hzero] at h
    exact absurd (h.unique Nearest.zero) (Nat.ne_of_gt hpos)
  · -- a power of ten stands between the two decimals, on a coarser grid than the one that was found
    have hbetween := nearest_power_between tie hpos hfin h (e := (shortest tie code).exponent + d)
      (exact_le_power (Nat.le_of_lt hd) (by omega)) (power_le_exact hlarge (le_refl _))
    have hcoarser := exponent_le_shortest tie hpos hfin hbetween
    dsimp only at hcoarser
    omega

end OfCode

end DocStore.Decimal
