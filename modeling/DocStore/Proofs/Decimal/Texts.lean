import DocStore.Decimal.Layout
import DocStore.Decimal.Literal
import Mathlib.Algebra.Order.Field.Rat
import Mathlib.Data.Rat.Cast.Order
import Mathlib.Tactic.FieldSimp

/-!
# What number texts say

A number text is a literal of the commands, and its exact value is the decimal that was written. A plain
text depends on the place of the number in the order only, which is the same for both zeros.

## Contents
- `digits_head`, `mem_digits`, `digits_value`: the digits of a natural number.
- `exact`, `Unsigned.exact`, `Says`: exact values of decimals, of literals and of texts.
- `Layout.says_decimal`: **the text of a decimal says its value**.
- `magnitudeText`, `rankText`, `formatNumber_eq_rankText`: the text of a number from its place in the order.
- `Layout.says_code`, `magnitudeText_head`: what the text of a magnitude says, and with what it does not start.
-/

namespace DocStore.Decimal

open Binary64

/-! ## Digits -/

/-- The digits of a positive number do not start with zero. -/
theorem digits_head {n : Nat} (hpos : 0 < n) : ∃ d ds, digits n = d :: ds ∧ d ≠ '0' := by
  induction n using Nat.strongRecOn with
  | ind n ih =>
      rw [digits, Nat.toDigits_eq_if (by decide)]
      by_cases h : n < 10
      · have hdigit : ∀ m < 10, 0 < m → Nat.digitChar m ≠ '0' := by decide
        rw [if_pos h]
        exact ⟨_, [], rfl, hdigit n h hpos⟩
      · obtain ⟨d, ds, hcons, hd⟩ := ih (n / 10) (by omega) (by omega)
        rw [digits] at hcons
        rw [if_neg h, hcons]
        exact ⟨d, _, rfl, hd⟩

theorem mem_digits {n : Nat} : ∀ c ∈ digits n, c.isDigit = true := fun _ hc =>
  Nat.isDigit_of_mem_toDigits (by decide) (by decide) hc

theorem digits_value (n : Nat) : Nat.ofDigitChars 10 (digits n) 0 = n :=
  Nat.ofDigitChars_ten_toDigits

theorem digits_ne_nil (n : Nat) : digits n ≠ [] := Nat.toDigits_ne_nil

/-! ## Exact values -/

/-- The exact value of a decimal. -/
def exact (value : Decimal) : ℚ :=
  value.significand * 10 ^ value.exponent

/-- The exact value of a literal. -/
def Unsigned.exact (literal : Unsigned) : ℚ :=
  digitsValue (literal.whole ++ literal.fraction) *
    10 ^ (literal.exponent - literal.fraction.length)

/-- Whether a text is an unsigned literal with this exact value. -/
def Says (text : List Char) (value : ℚ) : Prop :=
  ∃ literal, readUnsigned text = some literal ∧ literal.exact = value

theorem Says.unique {text : List Char} {a b : ℚ} (ha : Says text a) (hb : Says text b) : a = b := by
  obtain ⟨literal, hread, rfl⟩ := ha
  obtain ⟨other, hother, rfl⟩ := hb
  obtain rfl := Option.some.inj (hread.symm.trans hother)
  rfl

/-! ## Reading literals -/

/-- A run of characters of one kind ends where something else begins. -/
theorem takeWhile_run {p : Char → Bool} {run tail : List Char} (h : ∀ c ∈ run, p c = true)
    (hend : ∀ c ∈ tail.head?, p c = false) :
    (run ++ tail).takeWhile p = run ∧ (run ++ tail).dropWhile p = tail := by
  have hhead : tail.takeWhile p = [] ∧ tail.dropWhile p = tail := by
    cases tail with
    | nil => exact ⟨rfl, rfl⟩
    | cons c tail =>
        have hc : ¬ p c = true := Bool.not_eq_true _ ▸ hend c rfl
        exact ⟨List.takeWhile_cons_of_neg hc, List.dropWhile_cons_of_neg hc⟩
  constructor
  · rw [List.takeWhile_append_of_pos h, hhead.1, List.append_nil]
  · rw [List.dropWhile_append_of_pos h, hhead.2]

section Reading

variable {whole fraction : List Char}

/-- Digits without a point. -/
theorem readUnsigned_whole (hne : whole ≠ []) (h : ∀ c ∈ whole, isDigit c = true)
    (tail : List Char) (hend : ∀ c ∈ tail.head?, isDigit c = false ∧ c ≠ '.') :
    readUnsigned (whole ++ tail) = (readExponent tail).map fun exponent => ⟨whole, [], exponent⟩ := by
  obtain ⟨htake, hdrop⟩ := takeWhile_run h fun c hc => (hend c hc).1
  have hempty : whole.isEmpty = false := by simpa using hne
  unfold readUnsigned
  rw [htake, hdrop]
  cases tail with
  | nil => simp [hempty]
  | cons c tail =>
      have hpoint : c ≠ '.' := (hend c rfl).2
      simp [hempty, hpoint]

/-- Digits with a point. -/
theorem readUnsigned_point (hne : whole ≠ []) (h : ∀ c ∈ whole, isDigit c = true)
    (hfraction : ∀ c ∈ fraction, isDigit c = true) (tail : List Char)
    (hend : ∀ c ∈ tail.head?, isDigit c = false) :
    readUnsigned (whole ++ '.' :: (fraction ++ tail)) =
      (readExponent tail).map fun exponent => ⟨whole, fraction, exponent⟩ := by
  have hdot : ∀ c ∈ ('.' :: (fraction ++ tail)).head?, isDigit c = false := by simp [isDigit]
  obtain ⟨htake, hdrop⟩ := takeWhile_run h hdot
  obtain ⟨htake', hdrop'⟩ := takeWhile_run hfraction hend
  have hempty : whole.isEmpty = false := by simpa using hne
  unfold readUnsigned
  rw [htake, hdrop]
  simp [hempty, htake', hdrop']

/-- A written exponent is read back. -/
theorem readExponent_written (exponent : Int) :
    readExponent ('e' :: (if exponent < 0 then '-' else '+') :: digits exponent.natAbs) =
      some exponent := by
  have hvalue : digitsValue (digits exponent.natAbs) = exponent.natAbs := digits_value _
  have hempty : (digits exponent.natAbs).isEmpty = false := by simpa using digits_ne_nil _
  have hall : (digits exponent.natAbs).all isDigit = true := List.all_eq_true.mpr mem_digits
  unfold readExponent
  dsimp only
  rw [if_pos (Or.inl rfl)]
  split
  · rename_i hneg
    simp only [splitSign, hempty, hall, hvalue]
    show some (-(exponent.natAbs : Int)) = some exponent
    rw [Int.ofNat_natAbs_of_nonpos (Int.le_of_lt hneg), Int.neg_neg]
  · rename_i hneg
    simp only [splitSign, hempty, hall, hvalue]
    show some (exponent.natAbs : Int) = some exponent
    rw [Int.natAbs_of_nonneg (Int.not_lt.mp hneg)]

end Reading

/-! ## The text of a decimal -/

theorem mem_zeros (zeros : Nat) : ∀ c ∈ List.replicate zeros '0', isDigit c = true := by
  intro c hc
  rw [List.eq_of_mem_replicate hc]
  rfl

theorem digitsValue_replicate (zeros : Nat) (ds : List Char) :
    digitsValue (List.replicate zeros '0' ++ ds) = digitsValue ds := by
  show Nat.ofDigitChars 10 (List.replicate zeros '0' ++ ds) 0 = Nat.ofDigitChars 10 ds 0
  rw [Nat.ofDigitChars_append, Nat.ofDigitChars_replicate_zero, Nat.mul_zero]

/-- One digit, a point, and a power of ten. -/
theorem says_scientific {ds : List Char} (hne : ds ≠ []) (hds : ∀ c ∈ ds, isDigit c = true)
    (exponent : Int) :
    Says (scientific ds exponent) (digitsValue ds * 10 ^ (exponent - ds.length + 1)) := by
  obtain ⟨d, fraction, rfl⟩ := List.exists_cons_of_ne_nil hne
  obtain ⟨hd, hfraction⟩ := List.forall_mem_cons.mp hds
  have hwhole : ∀ c ∈ [d], isDigit c = true := by simpa using hd
  have hlength : exponent - (d :: fraction).length + 1 = exponent - fraction.length := by
    rw [List.length_cons]
    push_cast
    omega
  rw [hlength]
  refine ⟨⟨[d], fraction, exponent⟩, ?_, rfl⟩
  have hexponent := readExponent_written exponent
  have hletter : ∀ c ∈ ('e' :: (if exponent < 0 then '-' else '+') ::
      digits exponent.natAbs).head?, isDigit c = false ∧ c ≠ '.' := by simp [isDigit]
  cases fraction with
  | nil =>
      have hread := readUnsigned_whole (by simp) hwhole _ hletter
      rw [hexponent] at hread
      exact hread
  | cons c cs =>
      have hread := readUnsigned_point (by simp) hwhole hfraction _ fun c hc => (hletter c hc).1
      rw [hexponent] at hread
      simpa [scientific] using hread

/-- Zeros between the point and the digits. -/
theorem says_fraction {ds : List Char} (hds : ∀ c ∈ ds, isDigit c = true) (zeros : Nat) :
    Says ('0' :: '.' :: (List.replicate zeros '0' ++ ds))
      (digitsValue ds * 10 ^ (-(zeros + ds.length : Nat) : Int)) := by
  have hfraction : ∀ c ∈ List.replicate zeros '0' ++ ds, isDigit c = true :=
    List.forall_mem_append.mpr ⟨mem_zeros zeros, hds⟩
  have hwhole : ∀ c ∈ ['0'], isDigit c = true := mem_zeros 1
  have hread := readUnsigned_point (by simp) hwhole hfraction [] (by simp)
  rw [List.append_nil] at hread
  refine ⟨_, hread, ?_⟩
  unfold Unsigned.exact
  rw [List.singleton_append, ← List.cons_append, ← List.replicate_succ, digitsValue_replicate,
    List.length_append, List.length_replicate, Int.zero_sub]

/-- A point among the digits. -/
theorem says_split {ds : List Char} (hds : ∀ c ∈ ds, isDigit c = true) {point : Nat}
    (hzero : 0 < point) (hpoint : point < ds.length) :
    Says (ds.take point ++ '.' :: ds.drop point)
      (digitsValue ds * 10 ^ ((point : Int) - ds.length)) := by
  have hwhole : ds.take point ≠ [] := by
    intro hnil
    rw [List.take_eq_nil_iff] at hnil
    rcases hnil with rfl | rfl
    · exact absurd hzero (Nat.lt_irrefl 0)
    · exact absurd hpoint (Nat.not_lt_zero _)
  have htake : ∀ c ∈ ds.take point, isDigit c = true := fun c hc => hds c (List.mem_of_mem_take hc)
  have hdrop : ∀ c ∈ ds.drop point, isDigit c = true := fun c hc => hds c (List.mem_of_mem_drop hc)
  have hread := readUnsigned_point hwhole htake hdrop [] (by simp)
  rw [List.append_nil] at hread
  refine ⟨_, hread, ?_⟩
  unfold Unsigned.exact
  have hexponent : (0 : Int) - ((ds.drop point).length : Int) = point - ds.length := by
    rw [List.length_drop]
    omega
  simp only [List.take_append_drop, hexponent]

/-- Zeros behind the digits. -/
theorem says_whole {ds : List Char} (hne : ds ≠ []) (hds : ∀ c ∈ ds, isDigit c = true)
    (zeros : Nat) :
    Says (ds ++ List.replicate zeros '0') (digitsValue ds * 10 ^ (zeros : Int)) := by
  have hall : ∀ c ∈ ds ++ List.replicate zeros '0', isDigit c = true :=
    List.forall_mem_append.mpr ⟨hds, mem_zeros zeros⟩
  have hread := readUnsigned_whole (by simp [hne]) hall [] (by simp)
  rw [List.append_nil] at hread
  refine ⟨_, hread, ?_⟩
  have hvalue : digitsValue (ds ++ List.replicate zeros '0') = 10 ^ zeros * digitsValue ds := by
    show Nat.ofDigitChars 10 (ds ++ List.replicate zeros '0') 0 = _
    rw [Nat.ofDigitChars_append, Nat.ofDigitChars_replicate_zero]
    rfl
  unfold Unsigned.exact
  rw [List.append_nil, hvalue]
  push_cast
  simp [mul_comm]

/-- Zeros behind the digits, and a fraction that is zero. -/
theorem says_wholeMark {ds : List Char} (hne : ds ≠ []) (hds : ∀ c ∈ ds, isDigit c = true)
    (zeros : Nat) :
    Says (ds ++ List.replicate zeros '0' ++ ['.', '0']) (digitsValue ds * 10 ^ (zeros : Int)) := by
  have hall : ∀ c ∈ ds ++ List.replicate zeros '0', isDigit c = true :=
    List.forall_mem_append.mpr ⟨hds, mem_zeros zeros⟩
  have hzero : ∀ c ∈ ['0'], isDigit c = true := mem_zeros 1
  have hread := readUnsigned_point (by simp [hne]) hall hzero [] (by simp)
  rw [List.append_nil] at hread
  refine ⟨_, hread, ?_⟩
  have hvalue : digitsValue (ds ++ List.replicate zeros '0' ++ ['0']) =
      10 * (10 ^ zeros * digitsValue ds) := by
    show Nat.ofDigitChars 10 (ds ++ List.replicate zeros '0' ++ ['0']) 0 = _
    rw [Nat.ofDigitChars_append, Nat.ofDigitChars_append, Nat.ofDigitChars_replicate_zero]
    rfl
  have hten : (10 : ℚ) ≠ 0 := by norm_num
  unfold Unsigned.exact
  rw [hvalue, List.length_singleton, Nat.cast_one, Int.zero_sub, zpow_neg_one, zpow_natCast]
  push_cast
  rw [mul_comm, inv_mul_cancel_left₀ hten, mul_comm]

/-- **The text of a decimal says its value**, whatever the layout. -/
theorem Layout.says_decimal {layout : Layout}
    (hmark : layout.wholeMark = [] ∨ layout.wholeMark = ['.', '0']) (value : Decimal) :
    Says (layout.decimal value) value.exact := by
  obtain ⟨n, e⟩ := value
  have hne := digits_ne_nil n
  have hdigits := mem_digits (n := n)
  have hexact : exact ⟨n, e⟩ = digitsValue (digits n) * 10 ^ e := by
    rw [show digitsValue (digits n) = n from digits_value n]
    rfl
  rw [hexact]
  unfold Layout.decimal Layout.magnitude
  dsimp only
  generalize digits n = ds at hne hdigits
  split
  · have hsays := says_scientific hne hdigits (e + ds.length - 1)
    have hexponent : e + (ds.length : Int) - 1 - ds.length + 1 = e := by omega
    rwa [hexponent] at hsays
  rename_i hpositional
  split
  · have hsays := says_fraction hdigits (-(e + (ds.length : Int))).toNat
    have hexponent : -(((-(e + (ds.length : Int))).toNat + ds.length : Nat) : Int) = e := by omega
    rwa [hexponent] at hsays
  split
  · have hzero : 0 < (e + (ds.length : Int)).toNat := by omega
    have hsays := says_split hdigits hzero (by omega)
    have hexponent : ((e + (ds.length : Int)).toNat : Int) - ds.length = e := by omega
    rwa [hexponent] at hsays
  · have hexponent : ((e + (ds.length : Int) - ds.length).toNat : Int) = e := by omega
    rcases hmark with hmark | hmark
    · have hsays := says_whole hne hdigits (e + (ds.length : Int) - ds.length).toNat
      rw [hexponent] at hsays
      rwa [hmark, List.append_nil]
    · have hsays := says_wholeMark hne hdigits (e + (ds.length : Int) - ds.length).toNat
      rw [hexponent] at hsays
      rwa [hmark]

/-- A plain text says its value. -/
theorem says_decimal (value : Decimal) : Says (Layout.plain.decimal value) value.exact :=
  Layout.says_decimal (Or.inl rfl) value

/-! ## The text of a number -/

/-- The plain text of a magnitude, infinity included. -/
def magnitudeText (code : Nat) : List Char :=
  if code = infinityCode then "Infinity".toList else Layout.plain.code code

/-- The plain text of the number with a given place in the order. -/
def rankText (rank : Int) : List Char :=
  if rank < 0 then '-' :: magnitudeText rank.natAbs else magnitudeText rank.natAbs

theorem natAbs_rank (x : Binary64) : x.rank.natAbs = x.code := by
  unfold rank
  split <;> omega

theorem rank_neg_iff (x : Binary64) : x.rank < 0 ↔ x.negative = true ∧ x.code ≠ 0 := by
  unfold rank
  split
  · rename_i hnegative
    rw [hnegative]
    simp only [true_and]
    omega
  · rename_i hnegative
    constructor
    · omega
    · exact fun h => absurd h.1 hnegative

/-- The text of a number depends on its place in the order only. -/
theorem formatNumber_eq_rankText {x : Binary64} (h : x.isNaN = false) :
    formatNumber x = rankText x.rank := by
  unfold formatNumber rankText magnitudeText
  rw [h, if_neg Bool.false_ne_true, natAbs_rank]
  simp only [rank_neg_iff, isInfinite, isZero, beq_iff_eq]
  by_cases hinfinite : x.code = infinityCode
  · have hne : x.code ≠ 0 := by
      rw [hinfinite]
      decide
    simp only [hinfinite, if_true]
    rw [hinfinite] at hne
    cases x.negative
    · simp
    · simp [hne]
  by_cases hzero : x.code = 0
  · rw [if_neg hinfinite, if_pos hzero, if_neg fun h => h.2 hzero, if_neg hinfinite, hzero]
    rfl
  · simp only [hinfinite, hzero, if_false, Layout.finite]
    cases x.negative
    · simp
    · simp [hzero]

/-- A finite magnitude is written as its shortest decimal. -/
theorem Layout.says_code {layout : Layout}
    (hmark : layout.wholeMark = [] ∨ layout.wholeMark = ['.', '0']) (code : Nat) :
    Says (layout.code code) (if code = 0 then 0 else (shortest layout.tie code).exact) := by
  unfold Layout.code
  split
  · rcases hmark with hmark | hmark
    · rw [hmark]
      refine ⟨⟨['0'], [], 0⟩, rfl, ?_⟩
      show ((digitsValue (['0'] ++ []) : Nat) : ℚ) * _ = 0
      rw [show digitsValue (['0'] ++ []) = 0 from rfl, Nat.cast_zero, zero_mul]
    · rw [hmark]
      refine ⟨⟨['0'], ['0'], 0⟩, rfl, ?_⟩
      show ((digitsValue (['0'] ++ ['0']) : Nat) : ℚ) * _ = 0
      rw [show digitsValue (['0'] ++ ['0']) = 0 from rfl, Nat.cast_zero, zero_mul]
  · exact layout.says_decimal hmark _

theorem says_code (code : Nat) :
    Says (Layout.plain.code code) (if code = 0 then 0 else (shortest .up code).exact) :=
  Layout.plain.says_code (Or.inl rfl) code

/-- A literal starts neither with a sign nor with a letter. -/
theorem Says.head {text : List Char} {value : ℚ} (h : Says text value) :
    ∀ c ∈ text.head?, c ≠ '-' ∧ c ≠ '+' ∧ c ≠ 'I' := by
  intro c hc
  obtain ⟨literal, hread, -⟩ := h
  cases text with
  | nil => cases hc
  | cons d text =>
      obtain rfl := Option.some.inj hc
      refine ⟨?_, ?_, ?_⟩
      · rintro rfl
        cases hread
      · rintro rfl
        cases hread
      · rintro rfl
        cases hread

/-- The text of a magnitude does not start with a sign. -/
theorem magnitudeText_head (code : Nat) :
    ∀ c ∈ (magnitudeText code).head?, c ≠ '-' ∧ c ≠ '+' := by
  unfold magnitudeText
  intro c hc
  split at hc
  · obtain rfl := Option.some.inj hc
    decide
  · obtain ⟨hminus, hplus, -⟩ := (says_code code).head c hc
    exact ⟨hminus, hplus⟩

end DocStore.Decimal
