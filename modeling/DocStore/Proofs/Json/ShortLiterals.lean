import DocStore.Proofs.Binary64.ExactOperands
import DocStore.Proofs.Json.NumberLiterals

/-!
# Literals that are read correctly

A literal in a document is read in up to three roundings: of the digits that are kept, of the power of ten,
and of the product or quotient of both. The number is the nearest one to the literal if all digits are kept
and the last rounding is the only one, as with integers that fit and with significands and powers of ten
that are numbers themselves.

## Contents
- `scaled_nearest`: one rounding.
- `wholeNumber_nearest`, `finishNumber_nearest`: what is read is the nearest number then.
- `exponentPart_text`, `number_literal`: a literal of which all digits are kept.
- `NumberLiteral.Short`, `NumberLiteral.Short.read`: **the literals that are read correctly**.
-/

namespace DocStore

open Text (Bytes)
open Text.Utf8 (encode encodeChar)
open Binary64 (Nearest RoundsTo binade)

namespace Json.Reader

/-! ## One rounding -/

/-- A natural number is rounded. -/
theorem nearest_ofInt (n : Nat) : Nearest n (Binary64.ofInt n).code := by
  have hnearest := Binary64.nearest_ofRatio (decide ((n : Int) < 0)) n Nat.one_pos
  rwa [Nat.cast_one, div_one] at hnearest

variable {significand : Nat}

/-- A product with a power of ten is rounded once if the power is one, or if the power and the significand
    are numbers. -/
theorem nearest_mul_power {e : Nat} (hexact : e = 0 ∨ significand ≤ 2 * binade ∧ e ≤ 22) :
    Nearest (significand * 10 ^ e)
      ((Binary64.ofInt significand).mul (Binary64.powerOfTen e)).code := by
  rcases hexact with rfl | ⟨hsmall, hpower⟩
  · have hself := nearest_ofInt significand
    rw [Binary64.code_mul_one hself.le_infinity]
    simpa using hself
  · have hnearest := Binary64.nearest_mul (Binary64.ofInt significand) (Binary64.powerOfTen e)
    rwa [Binary64.magnitude_ofInt hsmall, Binary64.magnitude_powerOfTen hpower] at hnearest

/-- A quotient by a power of ten is rounded once if both are numbers. -/
theorem nearest_divideByPower {e : Nat} (hsmall : significand ≤ 2 * binade) (hpower : e ≤ 22) :
    Nearest (significand / 10 ^ e) (divideByPower (Binary64.ofInt significand) e).code := by
  have hpos : 0 < Binary64.units (Binary64.powerOfTen e).code :=
    Nat.lt_of_lt_of_le Binary64.unitsPerOne_pos (Binary64.powerOfTen_ge_one e)
  have hnearest := Binary64.nearest_div (Binary64.ofInt significand) hpos
  rw [Binary64.magnitude_ofInt hsmall, Binary64.magnitude_powerOfTen hpower] at hnearest
  rwa [divideByPower, if_pos (Nat.le_trans hpower (by decide))]

/-- Digits that fit are read as the nearest number if only one rounding matters. -/
theorem scaled_nearest {exponent : Int} (hlt : significand < significandLimit)
    (hexact : exponent = 0 ∨ significand ≤ 2 * binade ∧ exponent.natAbs ≤ 22) :
    ∃ x, scaled significand exponent = some x ∧ x.isFinite = true ∧
      Nearest (significand * 10 ^ exponent) x.code := by
  cases exponent with
  | negSucc e =>
      obtain ⟨hsmall, hpower⟩ := hexact.resolve_left (Int.negSucc_ne_zero e)
      refine ⟨_, rfl, divideByPower_isFinite (Binary64.ofInt_isFinite hlt) _, ?_⟩
      rw [zpow_negSucc, ← div_eq_mul_inv]
      exact nearest_divideByPower hsmall hpower
  | ofNat e =>
      have hexact : e = 0 ∨ significand ≤ 2 * binade ∧ e ≤ 22 := hexact.imp_left Int.ofNat.inj
      have hpower : e ≤ 22 := hexact.elim (fun h => h ▸ Nat.zero_le 22) And.right
      have hnearest := nearest_mul_power hexact
      have hbound : ((significand * 10 ^ e : Nat) : ℚ) ≤ ((2 ^ 200 : Nat) : ℚ) := by
        refine Nat.cast_le.mpr ?_
        calc significand * 10 ^ e ≤ significandLimit * 10 ^ 22 :=
              Nat.mul_le_mul (Nat.le_of_lt hlt) (Nat.pow_le_pow_right (by decide) hpower)
          _ ≤ 2 ^ 200 := by decide
      rw [Nat.cast_mul, Nat.cast_pow, Nat.cast_ofNat] at hbound
      have hfin := Binary64.isFinite_of_nearest hnearest (by decide) hbound
      exact ⟨_, scaled_natCast (Nat.le_trans hpower (by decide)) hfin, hfin, hnearest⟩

variable (negative : Bool) (rest : Bytes)

theorem finishNumber_nearest {exponent : Int} (hlt : significand < significandLimit)
    (hexact : exponent = 0 ∨ significand ≤ 2 * binade ∧ exponent.natAbs ≤ 22) :
    ∃ n, finishNumber negative significand exponent rest = .ok (n, rest) ∧
      RoundsTo (Extended.signed negative (significand * 10 ^ exponent)) n.toBinary64 := by
  obtain ⟨x, hscaled, hfin, hnearest⟩ := scaled_nearest hlt hexact
  have hvalue : (0 : ℚ) ≤ significand * 10 ^ exponent :=
    mul_nonneg (Nat.cast_nonneg _) (zpow_nonneg (by norm_num) _)
  exact ⟨_, finishNumber_of_scaled hscaled negative hfin rest,
    Binary64.roundsTo_signed (x := x.withSign negative) hvalue hnearest⟩

theorem wholeNumber_nearest (hlt : significand < significandLimit) :
    ∃ n, wholeNumber negative significand rest = .ok (n, rest) ∧
      RoundsTo (Extended.signed negative significand) n.toBinary64 := by
  have hone : (significand : ℚ) * 10 ^ (0 : Int) = significand := by rw [zpow_zero, mul_one]
  cases negative with
  | true =>
      by_cases h : 0 < significand ∧ significand ≤ 0x8000000000000000
      · have hrounds := Binary64.roundsTo_ofInt (-(significand : Int))
        rw [Int.cast_neg, Int.cast_natCast] at hrounds
        exact ⟨.integer (-(significand : Int)) (by omega) (by omega),
          by rw [wholeNumber, if_pos rfl, dif_pos h], hrounds⟩
      · rw [wholeNumber, if_pos rfl, dif_neg h, ← hone]
        exact finishNumber_nearest true rest hlt (Or.inl rfl)
  | false =>
      have hrounds := Binary64.roundsTo_ofInt (significand : Int)
      rw [Int.cast_natCast] at hrounds
      have hlt : significand < 0x10000000000000000 := hlt
      exact ⟨.integer significand (by omega) (by omega),
        by rw [wholeNumber, if_neg Bool.false_ne_true, dif_pos hlt], hrounds⟩

/-! ## Literals with all their digits -/

variable {rest}

/-- An exponent that fits, behind its letter. -/
theorem exponentPart_text {sign ds : List Char} {down : Bool} (hsign : Decimal.SignText sign down)
    (hne : ds ≠ []) (hds : ∀ c ∈ ds, Decimal.isDigit c = true)
    (hlt : (if down then -(Decimal.digitsValue ds : Int) else Decimal.digitsValue ds).natAbs <
      exponentLimit) (start : Int) (hrest : Delimited rest) :
    exponentPart negative significand start (encode (sign ++ ds) ++ rest) =
      finishNumber negative significand
        (start + if down then -(Decimal.digitsValue ds : Int) else Decimal.digitsValue ds) rest := by
  have hfits : Decimal.digitsValue ds < exponentLimit := by
    cases down with
    | true => simpa using hlt
    | false => exact hlt
  rw [exponentPart_run negative (exponentSign_text hsign) hne hds hfits significand start hrest]
  cases down with
  | true => rfl
  | false => rfl

/-- An exponent that fits, if there is one. -/
theorem optionalExponent_text {tail : List Char} {exponent : Int}
    (h : Decimal.ExponentText tail exponent) (hlt : exponent.natAbs < exponentLimit) (start : Int)
    (hrest : Delimited rest) :
    optionalExponent negative significand start (encode tail ++ rest) =
      finishNumber negative significand (start + exponent) rest := by
  cases h with
  | absent =>
      rw [Int.add_zero]
      exact optionalExponent_delimited negative hrest significand start
  | present letter_eq sign_text nonempty all_digits =>
      obtain ⟨b, hb, -, -, htext⟩ := encode_letter letter_eq
      rw [htext, optionalExponent, if_pos hb, exponentPart_text negative sign_text nonempty all_digits hlt _ hrest]

/-- What stands behind the digits before the point, if there is no point. -/
theorem afterWhole_text {tail : List Char} {exponent : Int} (h : Decimal.ExponentText tail exponent)
    (hlt : exponent.natAbs < exponentLimit) (hrest : Delimited rest) :
    afterWhole negative significand 0 (encode tail ++ rest) =
      if tail = [] then wholeNumber negative significand rest
      else finishNumber negative significand exponent rest := by
  cases h with
  | absent =>
      rw [if_pos rfl]
      exact (afterWhole_delimited negative hrest significand 0).trans (if_pos rfl)
  | present letter_eq sign_text nonempty all_digits =>
      obtain ⟨b, hb, -, hpoint, htext⟩ := encode_letter letter_eq
      rw [if_neg (List.cons_ne_nil _ _), htext, afterWhole, if_neg hpoint, if_pos hb,
        exponentPart_text negative sign_text nonempty all_digits hlt _ hrest, Nat.cast_zero, Int.zero_add]

/-- **A literal of which all digits are kept** is read from its significand and its power of ten. -/
theorem number_literal (t : NumberLiteral) (hsignificand : t.significand < significandLimit)
    (hexponent : t.exponent.natAbs < exponentLimit) (hrest : Delimited rest) :
    number negative (encode t.unsigned ++ rest) =
      if t.fraction = [] ∧ t.tail = [] then wholeNumber negative t.significand rest
      else finishNumber negative t.significand t.power rest := by
  have hsplit : t.significand =
      Nat.ofDigitChars 10 t.fraction (Nat.ofDigitChars 10 t.whole 0) :=
    Nat.ofDigitChars_append 0
  have hnumber : ∀ rest, startsWithDigit rest = false → number negative (encode t.whole ++ rest) =
      afterWhole negative (Nat.ofDigitChars 10 t.whole 0) 0 rest := by
    intro rest hdigit
    have hdigits := t.whole_digits
    have hlead := t.lead
    have hlt := Nat.lt_of_le_of_lt (le_ofDigitChars t.fraction _) (hsplit ▸ hsignificand)
    obtain ⟨d, ds, hwhole⟩ := List.exists_cons_of_ne_nil t.whole_ne
    rw [hwhole] at hdigits hlead hlt ⊢
    refine number_start negative hdigits ?_ hlt hdigit
    by_cases hzero : d = '0'
    · exact Or.inr (List.cons.inj (hlead (hzero ▸ rfl))).2
    · exact Or.inl hzero
  by_cases hfraction : t.fraction = []
  · have hpower : t.power = t.exponent := by rw [NumberLiteral.power, hfraction]; exact Int.sub_zero _
    rw [hfraction, Nat.ofDigitChars_nil] at hsplit
    rw [encode_pointless hfraction, hnumber _ (not_digit_of_exponent t.exponent_text hrest),
      afterWhole_text negative t.exponent_text hexponent hrest, hsplit, hpower]
    simp only [hfraction, true_and]
  · have hdigits := t.fraction_digits
    have hpower : 0 - (t.fraction.length : Int) + t.exponent = t.power := by
      rw [NumberLiteral.power]
      omega
    rw [encode_pointed hfraction, hnumber _ rfl, afterWhole, if_pos rfl,
      if_neg fun h => hfraction h.1, ← hpower, hsplit]
    rw [hsplit] at hsignificand
    obtain ⟨d, ds, hcons⟩ := List.exists_cons_of_ne_nil hfraction
    rw [hcons] at hdigits hsignificand ⊢
    rw [fractionPart_digits negative hdigits hsignificand _ (not_digit_of_exponent t.exponent_text hrest),
      optionalExponent_text negative t.exponent_text hexponent _ hrest]
    rfl

end Json.Reader

namespace NumberLiteral

open Json.Reader

/-- Literals that are known to be read correctly: their digits fit into 64 bits, and their power of ten is
    one, or it is a number and so is their significand. -/
structure Short (t : NumberLiteral) : Prop where
  significand_lt : t.significand < significandLimit
  exponent_lt : t.exponent.natAbs < exponentLimit
  exact_operands : t.power = 0 ∨ t.significand ≤ 2 * binade ∧ t.power.natAbs ≤ 22

/-- **A short literal is read correctly** in a document: as the number nearest to its exact value. -/
theorem Short.read {t : NumberLiteral} (h : t.Short) :
    ∃ n, t.read = some n ∧ RoundsTo t.exact n.toBinary64 := by
  have hread : ∀ {n}, number t.negative (encode t.unsigned) = .ok (n, []) → t.read = some n := by
    intro n hok
    rw [NumberLiteral.read, hok]
    rfl
  have hnumber := number_literal t.negative t h.significand_lt h.exponent_lt delimited_nil
  rw [List.append_nil] at hnumber
  split at hnumber
  · rename_i hwhole
    obtain ⟨hfraction, htail⟩ := hwhole
    have hexponent : t.exponent = 0 := by
      have htext := t.exponent_text
      rw [htail] at htext
      generalize t.exponent = exponent at htext
      cases htext
      rfl
    have hpower : t.power = 0 := by
      rw [power, hexponent, hfraction]
      rfl
    obtain ⟨n, hok, hrounds⟩ := wholeNumber_nearest t.negative [] h.significand_lt
    refine ⟨n, hread (hnumber.trans hok), ?_⟩
    rwa [exact, hpower, zpow_zero, mul_one]
  · obtain ⟨n, hok, hrounds⟩ := finishNumber_nearest t.negative [] h.significand_lt h.exact_operands
    exact ⟨n, hread (hnumber.trans hok), hrounds⟩

end NumberLiteral

end DocStore
