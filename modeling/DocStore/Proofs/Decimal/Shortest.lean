import DocStore.Decimal.Shortest
import DocStore.Proofs.Binary64.Nearest
import Mathlib.Data.Nat.Log

/-!
# Shortest decimals round to their number

The search for the shortest decimal always ends at a decimal that lies among the values that round to
the number, and it ends early enough for the digits to fit into 64 bits: a grid of seventeen digits is
finer than the distance of two neighbouring numbers.

## Contents
- `units_form`, `units_succ_le`, `units_gap`: the magnitude of any code, and the distance of its neighbours.
- `Range.pick_spec`, `Range.pick_isSome`: what the choice on one grid gives, and when it gives something.
- `Range.search_spec`: what the search over the grids gives.
- `two_pow_le_ten_pow`: how many digits some bits need.
- `ofCode_inside`, `ofCode_fine`: the interval of a code, and the grid on which the search must end.
- `shortest_spec`: **the decimal of a number**; `shortest_pos` says that it is not zero.
-/

namespace DocStore

/-! ## Neighbours -/

namespace Binary64

/-- Every code has a shift and a significand, and the next code the next significand. -/
theorem units_form (code : Nat) :
    ∃ shift r, code = shift * binade + r ∧ (0 < shift → binade ≤ r) ∧ r < 2 * binade ∧
      units code = r * 2 ^ shift ∧ units (code + 1) = (r + 1) * 2 ^ shift := by
  obtain ⟨shift, r, rfl, hlow, hhigh⟩ :
      ∃ shift r, code = shift * binade + r ∧ (0 < shift → binade ≤ r) ∧ r < 2 * binade := by
    simp only [show binade = 4503599627370496 from rfl]
    by_cases h : code < 2 * 4503599627370496
    · exact ⟨0, code, by omega, fun h => absurd h (Nat.lt_irrefl 0), h⟩
    · refine ⟨code / 4503599627370496 - 1, 4503599627370496 + code % 4503599627370496, ?_, ?_, ?_⟩
      · omega
      · intro _
        exact Nat.le_add_right _ _
      · omega
  refine ⟨shift, r, rfl, hlow, hhigh, units_shift hlow (Nat.le_of_lt hhigh), ?_⟩
  rw [Nat.add_assoc]
  exact units_shift (fun h => Nat.le_succ_of_le (hlow h)) hhigh

/-- The next magnitude is at most twice as large. -/
theorem units_succ_le {code : Nat} (hpos : 0 < code) : units (code + 1) ≤ 2 * units code := by
  obtain ⟨shift, r, rfl, hlow, -, hself, hnext⟩ := units_form code
  have hr : 1 ≤ r := by
    rcases Nat.eq_zero_or_pos shift with rfl | hs
    · omega
    · exact Nat.le_trans (by decide) (hlow hs)
  rw [hself, hnext, ← Nat.mul_assoc]
  exact Nat.mul_le_mul_right _ (by omega)

/-- The neighbours of a number are further apart than a decimal grid of sixteen digits is wide. -/
theorem units_gap {code : Nat} (hpos : 0 < code) :
    2 * units code + 10 ^ 16 * units (code - 1) < 10 ^ 16 * units (code + 1) := by
  obtain ⟨shift, r, rfl, hlow, hhigh, hself, hnext⟩ := units_form code
  have hbin : binade = 4503599627370496 := rfl
  rw [hself, hnext]
  by_cases hfirst : 0 < shift ∧ r = binade
  · -- the number below belongs to the previous binade, whose steps are half as large
    obtain ⟨s, rfl⟩ : ∃ s, shift = s + 1 := ⟨shift - 1, by omega⟩
    have hprev : units ((s + 1) * binade + r - 1) = (2 * binade - 1) * 2 ^ s := by
      have hcode : (s + 1) * binade + r - 1 = s * binade + (2 * binade - 1) := by
        rw [hfirst.2, Nat.add_mul]
        omega
      rw [hcode]
      exact units_shift (fun _ => by omega) (Nat.sub_le _ _)
    have hpow : 0 < 2 ^ s := Nat.two_pow_pos s
    rw [hprev, hfirst.2, hbin, pow_succ]
    omega
  · obtain ⟨k, rfl⟩ : ∃ k, r = k + 1 := by
      refine ⟨r - 1, ?_⟩
      rcases Nat.eq_zero_or_pos shift with rfl | hs
      · omega
      · have := hlow hs
        omega
    have hprev : units (shift * binade + (k + 1) - 1) = k * 2 ^ shift := by
      have hcode : shift * binade + (k + 1) - 1 = shift * binade + k := by omega
      rw [hcode]
      refine units_shift (fun hs => ?_) (by omega)
      have hle := hlow hs
      have hne : k + 1 ≠ binade := fun h => hfirst ⟨hs, h⟩
      omega
    have hpow : 0 < 2 ^ shift := Nat.two_pow_pos shift
    have hk : (k + 1) * 2 ^ shift < 2 * 4503599627370496 * 2 ^ shift :=
      Nat.mul_lt_mul_of_pos_right hhigh hpow
    rw [hprev]
    linarith

end Binary64

namespace Decimal

/-! ## One grid -/

namespace Range

variable {range : Range} {tie : Tie}

/-- A value that rounds to the number lies between the ends of the interval. -/
theorem bounds_of_holds {value : Nat} (h : range.holds value = true) :
    range.doubledLow ≤ 2 * value ∧ 2 * value ≤ range.doubledHigh := by
  unfold holds at h
  split at h <;> simp only [Bool.and_eq_true, decide_eq_true_eq] at h <;> omega

/-- A value below the upper end that does not round to the number is below the interval. -/
theorem low_of_not_holds {value : Nat} (h : range.holds value = false)
    (hhigh : 2 * value < range.doubledHigh) : 2 * value ≤ range.doubledLow := by
  by_contra hlow
  unfold holds at h
  split at h <;> simp only [Bool.and_eq_false_iff, decide_eq_false_iff_not] at h <;> omega

/-- A value above the lower end that does not round to the number is above the interval. -/
theorem high_of_not_holds {value : Nat} (h : range.holds value = false)
    (hlow : range.doubledLow < 2 * value) : range.doubledHigh ≤ 2 * value := by
  by_contra hhigh
  unfold holds at h
  split at h <;> simp only [Bool.and_eq_false_iff, decide_eq_false_iff_not] at h <;> omega

/-- What is chosen is one of the two multiples around the number, and it rounds to the number. -/
theorem pick_spec {step significand : Nat} (h : range.pick tie step = some significand) :
    range.holds (significand * step) = true ∧ significand ≤ range.value / step + 1 := by
  simp only [pick] at h
  split at h
  · rename_i hbelow _
    cases h
    exact ⟨hbelow, Nat.le_succ _⟩
  · rename_i _ habove
    cases h
    exact ⟨habove, Nat.le_refl _⟩
  · cases h
  · rename_i hbelow habove
    split at h
    · cases h
      exact ⟨hbelow, Nat.le_succ _⟩
    split at h
    · cases h
      exact ⟨habove, Nat.le_refl _⟩
    · cases tie with
      | up =>
          cases h
          exact ⟨habove, Nat.le_refl _⟩
      | even =>
          cases h
          rcases Nat.mod_two_eq_zero_or_one (range.value / step) with he | he
          · rw [he]
            exact ⟨hbelow, Nat.le_succ _⟩
          · rw [he]
            exact ⟨habove, Nat.le_refl _⟩

/-- One of the two multiples around the number is chosen if one of them rounds to it. -/
theorem pick_isSome_of_next {step : Nat}
    (h : range.holds (range.value / step * step) = true ∨
      range.holds ((range.value / step + 1) * step) = true) :
    (range.pick tie step).isSome = true := by
  simp only [pick]
  split
  · rfl
  · rfl
  · rename_i hbelow habove
    rw [hbelow, habove] at h
    rcases h with h | h
    · cases h
    · cases h
  · split
    · rfl
    split
    · rfl
    · cases tie <;> rfl

/-- A grid that is finer than the interval has a multiple in it. -/
theorem pick_isSome {step : Nat} (hpos : 0 < step) (hlow : range.doubledLow < 2 * range.value)
    (hhigh : 2 * range.value < range.doubledHigh)
    (hstep : range.doubledLow + 2 * step < range.doubledHigh) :
    (range.pick tie step).isSome = true := by
  have hbelow : range.value / step * step ≤ range.value := Nat.div_mul_le_self _ _
  have habove : range.value < range.value / step * step + step := Nat.lt_div_mul_add hpos
  have hsucc : (range.value / step + 1) * step = range.value / step * step + step := by
    rw [Nat.add_mul, Nat.one_mul]
  apply pick_isSome_of_next
  by_contra hnone
  rw [not_or, Bool.not_eq_true, Bool.not_eq_true, hsucc] at hnone
  have hbelow' := low_of_not_holds hnone.1 (by omega)
  have habove' := high_of_not_holds hnone.2 (by omega)
  omega

/-! ## The search over the grids -/

/-- What the search gives: a multiple of a power of ten that rounds to the number, with at most the
    digits that the number has on any grid that is fine enough. -/
theorem search_spec (hself : range.holds range.value = true) {fine : Nat}
    (hfine : (range.pick tie (10 ^ fine)).isSome = true) {places : Nat} (h : fine ≤ places) :
    ∃ k : Nat, (range.search tie places).exponent = k - 1074 ∧
      range.holds ((range.search tie places).significand * 10 ^ k) = true ∧
      (range.search tie places).significand ≤ range.value / 10 ^ fine + 1 := by
  induction places with
  | zero =>
      -- the finest grid has single units, of which every number has a whole count
      have hzero : fine = 0 := Nat.le_zero.mp h
      subst hzero
      refine ⟨0, rfl, ?_, ?_⟩
      · show range.holds (range.value * 10 ^ 0) = true
        rw [pow_zero, Nat.mul_one]
        exact hself
      · show range.value ≤ range.value / 10 ^ 0 + 1
        rw [pow_zero, Nat.div_one]
        exact Nat.le_succ _
  | succ places ih =>
      have hpow : Nat.pow 10 (places + 1) = 10 ^ (places + 1) := rfl
      unfold search
      rw [hpow]
      cases hpick : range.pick tie (10 ^ (places + 1)) with
      | none =>
          have hne : fine ≠ places + 1 := by
            rintro rfl
            rw [hpick] at hfine
            exact absurd hfine (by decide)
          exact ih (by omega)
      | some significand =>
          obtain ⟨hholds, hle⟩ := pick_spec hpick
          refine ⟨places + 1, rfl, hholds, Nat.le_trans hle ?_⟩
          exact Nat.succ_le_succ
            (Nat.div_le_div_left (Nat.pow_le_pow_right (by decide) h) (Nat.pow_pos (by decide)))

end Range

/-! ## Powers of two and of ten -/

/-- Bits bound digits: `2 ^ 93 < 10 ^ 28` is as sharp as the start of the search needs it. -/
theorem two_pow_le_ten_pow {bits places : Nat} (h : 28 * bits ≤ 93 * places) :
    2 ^ bits ≤ 10 ^ places := by
  rw [← Nat.pow_le_pow_iff_left (show 93 ≠ 0 by decide)]
  calc (2 ^ bits) ^ 93 = (2 ^ 93) ^ bits := pow_right_comm _ _ _
    _ ≤ (10 ^ 28) ^ bits := Nat.pow_le_pow_left (by decide) _
    _ = 10 ^ (28 * bits) := by rw [← pow_mul]
    _ ≤ 10 ^ (93 * places) := Nat.pow_le_pow_right (by decide) h
    _ = (10 ^ places) ^ 93 := by rw [Nat.mul_comm, pow_mul]

/-! ## The interval of a code -/

section OfCode

variable {code : Nat}

theorem refinement_large : 10 ^ 16 ≤ refinement := by decide +kernel

theorem refinement_pos : 0 < refinement := Nat.lt_of_lt_of_le (by decide) refinement_large

/-- The number lies inside its interval. -/
theorem ofCode_inside (hpos : 0 < code) :
    (Range.ofCode code).doubledLow < 2 * (Range.ofCode code).value ∧
      2 * (Range.ofCode code).value < (Range.ofCode code).doubledHigh := by
  have hprev := Nat.mul_lt_mul_of_pos_right
    (Binary64.units_lt_units (Nat.sub_lt hpos Nat.one_pos)) refinement_pos
  have hnext := Nat.mul_lt_mul_of_pos_right (Binary64.units_lt_succ code) refinement_pos
  simp only [Range.ofCode]
  omega

/-- Zero rounds to no positive number. -/
theorem ofCode_holds_zero (hpos : 0 < code) : (Range.ofCode code).holds 0 = false := by
  by_contra hholds
  have hlow := (Range.bounds_of_holds (Bool.eq_true_of_not_eq_false hholds)).1
  have hvalue : 0 < Binary64.units code * refinement :=
    Nat.mul_pos (Binary64.units_pos hpos) refinement_pos
  simp only [Range.ofCode] at hlow
  omega

theorem ofCode_holds_value (hpos : 0 < code) :
    (Range.ofCode code).holds (Range.ofCode code).value = true := by
  obtain ⟨hlow, hhigh⟩ := ofCode_inside hpos
  by_contra hholds
  have := Range.low_of_not_holds (Bool.eq_false_of_not_eq_true hholds) hhigh
  omega

/-- A grid on which the number has seventeen digits is fine enough. -/
theorem ofCode_pick_isSome (tie : Tie) (hpos : 0 < code) {fine : Nat}
    (h : 10 ^ (fine + 16) ≤ (Range.ofCode code).value) :
    ((Range.ofCode code).pick tie (10 ^ fine)).isSome = true := by
  obtain ⟨hlow, hhigh⟩ := ofCode_inside hpos
  refine Range.pick_isSome (Nat.pow_pos (by decide)) hlow hhigh ?_
  have hgap := Nat.mul_lt_mul_of_pos_right (Binary64.units_gap hpos) refinement_pos
  rw [pow_add] at h
  simp only [Range.ofCode] at h ⊢
  rw [Nat.add_mul, Nat.mul_assoc, Nat.mul_assoc, Nat.mul_assoc] at hgap
  omega

/-- The grid of seventeen digits: the search does not start below it. -/
theorem ofCode_fine (hpos : 0 < code) :
    ∃ fine, fine ≤ (Range.ofCode code).start ∧ 10 ^ (fine + 16) ≤ (Range.ofCode code).value ∧
      (Range.ofCode code).value < 10 ^ (fine + 17) := by
  have hlarge : 10 ^ 16 ≤ (Range.ofCode code).value := by
    calc 10 ^ 16 ≤ 1 * refinement := by
          rw [Nat.one_mul]
          exact refinement_large
      _ ≤ Binary64.units code * refinement :=
          Nat.mul_le_mul_right _ (Binary64.units_pos hpos)
  generalize hvalue : (Range.ofCode code).value = value at hlarge
  have hne : value ≠ 0 := by omega
  have hlog : 16 ≤ Nat.log 10 value := (Nat.le_log_iff_pow_le (by decide) hne).mpr hlarge
  refine ⟨Nat.log 10 value - 16, ?_, ?_, ?_⟩
  · -- both logarithms bound the value
    have hpow : 10 ^ Nat.log 10 value < 10 ^ (value.log2 * 410 / 1359 + 2) := by
      calc 10 ^ Nat.log 10 value ≤ value := Nat.pow_log_le_self 10 hne
        _ < 2 ^ (value.log2 + 1) := Nat.lt_log2_self
        _ ≤ 10 ^ (value.log2 * 410 / 1359 + 2) := two_pow_le_ten_pow (by omega)
    have hlt := (Nat.pow_lt_pow_iff_right (by decide)).mp hpow
    unfold Range.start
    rw [hvalue]
    omega
  · rw [Nat.sub_add_cancel hlog]
    exact Nat.pow_log_le_self 10 hne
  · have hexp : Nat.log 10 value - 16 + 17 = Nat.log 10 value + 1 := by omega
    rw [hexp]
    exact Nat.lt_pow_succ_log_self (by decide) value

/-- **The shortest decimal rounds to its number**, and its digits number at most seventeen, up to a
    power of ten. -/
theorem shortest_spec (tie : Tie) (hpos : 0 < code) :
    ∃ k : Nat, (shortest tie code).exponent = k - 1074 ∧
      (Range.ofCode code).holds ((shortest tie code).significand * 10 ^ k) = true ∧
      (shortest tie code).significand ≤ 10 ^ 17 := by
  obtain ⟨fine, hstart, hlow, hhigh⟩ := ofCode_fine hpos
  obtain ⟨k, hexp, hholds, hle⟩ := Range.search_spec (ofCode_holds_value hpos)
    (ofCode_pick_isSome tie hpos hlow) hstart
  refine ⟨k, hexp, hholds, Nat.le_trans hle ?_⟩
  have hdiv : (Range.ofCode code).value / 10 ^ fine < 10 ^ 17 := by
    rw [Nat.div_lt_iff_lt_mul (Nat.pow_pos (by decide)), ← pow_add, Nat.add_comm]
    exact hhigh
  exact hdiv

/-- The shortest decimal of a positive number is not zero. -/
theorem shortest_pos (tie : Tie) (hpos : 0 < code) : 0 < (shortest tie code).significand := by
  obtain ⟨k, -, hholds, -⟩ := shortest_spec tie hpos
  rcases Nat.eq_zero_or_pos (shortest tie code).significand with hzero | h
  · rw [hzero, Nat.zero_mul, ofCode_holds_zero hpos] at hholds
    exact absurd hholds (by decide)
  · exact h

end OfCode

end Decimal

end DocStore
