import DocStore.Proofs.Binary64.Finite
import DocStore.Proofs.Decimal.Shortest
import DocStore.Proofs.Decimal.Texts
import DocStore.Proofs.Json.NumberTexts

/-!
# Reading written numbers

A number that was written is always read as a number, although not always as the same one: the
reader rounds twice. An integer is read as itself.

## Contents
- `shortest_le_midpoint`, `shortest_exponent_le`: how large the digits of a number are.
- `scaled_of_negative`, `scaled_shortest`: the reader's value of written digits is finite.
- `Denotes`, `denotes_decimal`, `number_code`: the text of a magnitude.
- `signed`: a number with its sign; `scalar_of_signed`: as a value.
- `signed_integer`: **an integer is read back**.
- `signed_numberText`: **a number text is read as a number**, whatever follows it.
-/

namespace DocStore

open Text (Bytes)
open Text.Utf8 (encode)

/-! ## Values -/

namespace Decimal

open Binary64

/-- A shortest decimal without a fraction is at most halfway to the next number. -/
theorem shortest_le_midpoint {tie : Tie} {code e : Nat} (hpos : 0 < code)
    (hexp : (shortest tie code).exponent = e) :
    2 * ((shortest tie code).significand * 10 ^ e * unitsPerOne) ≤
      units code + units (code + 1) := by
  obtain ⟨k, hk, hholds, -⟩ := shortest_spec tie hpos
  have hke : k = e + 1074 := by omega
  have hten : 10 ^ 1074 = unitsPerOne * refinement := by decide +kernel
  have hle := (Range.bounds_of_holds hholds).2
  rw [hke, pow_add, hten] at hle
  refine Nat.le_of_mul_le_mul_right ?_ refinement_pos
  calc 2 * ((shortest tie code).significand * 10 ^ e * unitsPerOne) * refinement
      = 2 * ((shortest tie code).significand * (10 ^ e * (unitsPerOne * refinement))) := by ring
    _ ≤ units code * refinement + units (code + 1) * refinement := hle
    _ = (units code + units (code + 1)) * refinement := by ring

/-- A shortest decimal of a finite number has no large exponent. -/
theorem shortest_exponent_le {tie : Tie} {code e : Nat} (hpos : 0 < code)
    (hfin : code < infinityCode) (hexp : (shortest tie code).exponent = e) : e ≤ 308 := by
  have hmid := shortest_le_midpoint hpos hexp
  have hsig := shortest_pos tie hpos
  have htop : units code + units (code + 1) ≤ 2 * units infinityCode := by
    have h₁ : units code ≤ units infinityCode := units_le_units (Nat.le_of_lt hfin)
    have h₂ : units (code + 1) ≤ units infinityCode := units_le_units hfin
    omega
  have hone : 10 ^ e * unitsPerOne ≤ (shortest tie code).significand * 10 ^ e * unitsPerOne :=
    Nat.mul_le_mul_right _ (Nat.le_mul_of_pos_left _ hsig)
  have hle : 10 ^ e * unitsPerOne ≤ units infinityCode := by omega
  have hpow : ∀ k, k ≤ e → 10 ^ k * unitsPerOne ≤ units infinityCode := fun k hk =>
    Nat.le_trans (Nat.mul_le_mul_right _ (Nat.pow_le_pow_right (by decide) hk)) hle
  -- a power of ten above this bound is beyond every finite number
  exact Nat.le_of_not_lt fun hlarge =>
    absurd (hpow 309 hlarge) (Nat.not_le.mpr units_infinityCode_lt)

end Decimal

namespace Json.Reader

open Binary64 Decimal

/-- A division by a power of ten leaves a finite number finite. -/
theorem divideByPower_isFinite {x : Binary64} (hx : x.isFinite = true) (exponent : Nat) :
    (divideByPower x exponent).isFinite = true := by
  have step : ∀ (y : Binary64) e, y.isFinite = true → (y.div (powerOfTen e)).isFinite = true := by
    intro y e hy
    have hlt : y.code < infinityCode := of_decide_eq_true hy
    exact decide_eq_true (Nat.lt_of_le_of_lt (div_powerOfTen_le y e) hlt)
  fun_induction divideByPower x exponent with
  | case1 x exponent h => exact step x exponent hx
  | case2 x exponent h hzero => exact hx
  | case3 x exponent h hzero ih => exact ih (step x 308 hx)

/-- Digits with a negative exponent are read as a finite number. -/
theorem scaled_of_negative {significand : Nat} (h : significand < significandLimit)
    {exponent : Int} (hexp : exponent < 0) :
    ∃ x, scaled significand exponent = some x ∧ x.isFinite = true := by
  obtain ⟨e, rfl⟩ : ∃ e : Nat, exponent = Int.negSucc e := by
    cases exponent with
    | ofNat n => exact absurd hexp (Int.not_lt.mpr (Int.natCast_nonneg n))
    | negSucc e => exact ⟨e, rfl⟩
  exact ⟨_, rfl, divideByPower_isFinite (ofInt_isFinite h) _⟩

/-- An integer is rounded as a quotient by one. -/
theorem ofInt_natCast (n : Nat) : ofInt (n : Int) = ofRatio false n 1 := by
  rw [ofInt, Int.natAbs_natCast, decide_eq_false (Int.not_lt.mpr (Int.natCast_nonneg n))]

/-- A product that is finite is what is read. -/
theorem scaled_natCast {significand e : Nat} (h : e ≤ 308)
    (hfin : ((ofInt significand).mul (powerOfTen e)).isFinite = true) :
    scaled significand (e : Int) = some ((ofInt significand).mul (powerOfTen e)) := by
  have hinf : ((ofInt significand).mul (powerOfTen e)).isInfinite = false := by
    have hlt := of_decide_eq_true hfin
    exact beq_eq_false_iff_ne.mpr (Nat.ne_of_lt hlt)
  show (if e ≤ 308 then _ else _) = _
  rw [if_pos h]
  simp only [hinf, Bool.false_eq_true, if_false]

/-- The three largest numbers are read as finite numbers, although their products are the closest to
    infinity. -/
theorem scaled_largest : ∀ below ∈ [1, 2, 3],
    ((scaled (shortest .even (infinityCode - below)).significand
      (shortest .even (infinityCode - below)).exponent).any (·.isFinite)) = true := by
  decide +kernel

/-- **The digits of a number are read as a finite number.** -/
theorem scaled_shortest {code : Nat} (hpos : 0 < code) (hfin : code < infinityCode) :
    ∃ x, scaled (shortest .even code).significand (shortest .even code).exponent = some x ∧
      x.isFinite = true := by
  obtain ⟨-, -, -, hdigits⟩ := shortest_spec .even hpos
  have hlimit : (shortest .even code).significand < significandLimit :=
    Nat.lt_of_le_of_lt hdigits (by decide)
  rcases Int.lt_or_le (shortest .even code).exponent 0 with hneg | hnonneg
  · exact scaled_of_negative hlimit hneg
  obtain ⟨e, hexp⟩ := Int.eq_ofNat_of_zero_le hnonneg
  -- right below infinity the bound on the rounded product is not sharp enough
  by_cases hlarge : infinityCode < code + 4
  · have hmem : infinityCode - code ∈ [1, 2, 3] := by
      simp only [List.mem_cons, List.not_mem_nil, or_false]
      omega
    have hcheck := scaled_largest _ hmem
    rw [Nat.sub_sub_self (Nat.le_of_lt hfin)] at hcheck
    exact (Option.any_eq_true _ _).mp hcheck
  have hproduct : ((ofInt (shortest .even code).significand).mul (powerOfTen e)).isFinite = true := by
    have hmid := shortest_le_midpoint hpos hexp
    have hcode : units code ≤ units (infinityCode - 4) := units_le_units (by omega)
    have hnext : units (code + 1) ≤ units (infinityCode - 3) := units_le_units (by omega)
    rw [ofInt_natCast]
    exact mul_ofRatio_isFinite false false (shortest_pos .even hpos) (Nat.pow_pos (by decide))
      (Nat.le_trans hmid (Nat.add_le_add hcode hnext))
  rw [hexp]
  exact ⟨_, scaled_natCast (shortest_exponent_le hpos hfin hexp) hproduct, hproduct⟩

/-! ## Texts -/

/-- A text that is read as a significand with a power of ten. -/
def Denotes (text : List Char) (significand : Nat) (exponent : Int) : Prop :=
  ∀ negative rest, Delimited rest →
    number negative (encode text ++ rest) = finishNumber negative significand exponent rest

/-- A point behind digits, and one digit behind it. -/
theorem denotes_whole {n : Nat} (hpos : 0 < n) (zeros : Nat)
    (hlt : n * 10 ^ (zeros + 1) < significandLimit) :
    Denotes (digits n ++ List.replicate zeros '0' ++ ['.', '0']) (n * 10 ^ (zeros + 1)) (-1) := by
  intro negative rest hrest
  have hvalue := digits_value n
  have hmem := mem_digits (n := n)
  obtain ⟨d, ds, hcons, hd⟩ := digits_head hpos
  rw [hcons] at hvalue hmem ⊢
  have hrun : ∀ c ∈ d :: (ds ++ List.replicate zeros '0'), c.isDigit = true := by
    intro c hc
    rw [← List.cons_append, List.mem_append] at hc
    rcases hc with hc | hc
    · exact hmem c hc
    · rw [List.eq_of_mem_replicate hc]
      rfl
  have htotal : Nat.ofDigitChars 10 (d :: (ds ++ List.replicate zeros '0') ++ ['0']) 0 =
      n * 10 ^ (zeros + 1) := by
    rw [← List.cons_append, List.append_assoc, Nat.ofDigitChars_append, hvalue,
      ← List.replicate_succ', Nat.ofDigitChars_replicate_zero, Nat.mul_comm]
  have hread : number negative (encode (d :: (ds ++ List.replicate zeros '0') ++ ['.', '0']) ++ rest) =
      finishNumber negative _ (-1) rest :=
    number_positional negative hrun (by simp) (Or.inl hd) (by rw [htotal]; exact hlt) hrest
  rw [htotal] at hread
  exact hread

/-- A point among digits. -/
theorem denotes_split {n point : Nat} (hpos : 0 < n) (hn : n < significandLimit) (hzero : 0 < point)
    (hpoint : point < (digits n).length) :
    Denotes ((digits n).take point ++ '.' :: (digits n).drop point) n
      (point - (digits n).length) := by
  intro negative rest hrest
  have hvalue := digits_value n
  have hmem := mem_digits (n := n)
  obtain ⟨d, ds, hcons, hd⟩ := digits_head hpos
  obtain ⟨k, rfl⟩ : ∃ k, point = k + 1 := ⟨point - 1, by omega⟩
  rw [hcons] at hvalue hmem hpoint ⊢
  obtain ⟨e, es, hdrop⟩ : ∃ e es, ds.drop k = e :: es := by
    refine List.exists_cons_of_ne_nil ?_
    intro h
    rw [List.drop_eq_nil_iff] at h
    rw [List.length_cons] at hpoint
    omega
  have hsplit : d :: ds.take k ++ e :: es = d :: ds := by
    rw [List.cons_append, ← hdrop, List.take_append_drop]
  have hlength : ((e :: es).length : Int) = (d :: ds).length - ((k + 1 : Nat) : Int) := by
    rw [← hdrop, List.length_drop, List.length_cons] at *
    omega
  have hread := number_positional negative
    (fun c hc => hmem c (hsplit ▸ List.mem_append_left _ hc))
    (fun c hc => hmem c (hsplit ▸ List.mem_append_right _ hc)) (Or.inl hd)
    (by rw [hsplit, hvalue]; exact hn) hrest
  rw [hsplit, hvalue, hlength, neg_sub] at hread
  rw [List.take_succ_cons, List.drop_succ_cons, hdrop]
  exact hread

/-- Zeros between the point and the digits. -/
theorem denotes_fraction {n : Nat} (hn : n < significandLimit) (zeros : Nat) :
    Denotes ('0' :: '.' :: (List.replicate zeros '0' ++ digits n)) n
      (-(zeros + (digits n).length : Nat)) := by
  intro negative rest hrest
  have hmem : ∀ c ∈ List.replicate zeros '0' ++ digits n, c.isDigit = true := by
    intro c hc
    rcases List.mem_append.mp hc with hc | hc
    · rw [List.eq_of_mem_replicate hc]
      rfl
    · exact mem_digits c hc
  have hlength : (List.replicate zeros '0' ++ digits n).length = zeros + (digits n).length := by
    rw [List.length_append, List.length_replicate]
  have hvalue : Nat.ofDigitChars 10 (['0'] ++ (List.replicate zeros '0' ++ digits n)) 0 = n := by
    rw [← List.append_assoc, Nat.ofDigitChars_append, List.singleton_append, ← List.replicate_succ,
      Nat.ofDigitChars_replicate_zero, Nat.mul_zero, digits_value]
  obtain ⟨e, es, hcons⟩ : ∃ e es, List.replicate zeros '0' ++ digits n = e :: es :=
    List.exists_cons_of_ne_nil fun h => Nat.toDigits_ne_nil (List.append_eq_nil_iff.mp h).2
  rw [← hlength]
  rw [hcons] at hmem hvalue ⊢
  have hread : number negative (encode (['0'] ++ '.' :: e :: es) ++ rest) = _ :=
    number_positional negative (by simp) hmem (Or.inr rfl) (by rw [hvalue]; exact hn) hrest
  rw [hvalue] at hread
  exact hread

/-- A power of ten behind digits. -/
theorem denotes_scientific {n : Nat} (hpos : 0 < n) (hn : n < significandLimit) {exponent : Int}
    (hexp : exponent.natAbs < exponentLimit) :
    Denotes (scientific (digits n) exponent) n (exponent - (digits n).length + 1) := by
  intro negative rest hrest
  have hvalue := digits_value n
  have hmem := mem_digits (n := n)
  obtain ⟨d, ds, hcons, hd⟩ := digits_head hpos
  rw [hcons] at hvalue hmem ⊢
  have hread := number_scientific negative hmem hd (by rw [hvalue]; exact hn) hexp hrest
  rw [hvalue] at hread
  rw [hread, List.length_cons]
  congr 1
  push_cast
  omega

/-- The text of digits at their place inside a document. -/
theorem json_magnitude (ds : List Char) (point : Int) :
    Layout.json.magnitude ds point =
      if point ≤ -5 ∨ 15 < point - 1 then scientific ds (point - 1)
      else if point ≤ 0 then '0' :: '.' :: (List.replicate (-point).toNat '0' ++ ds)
      else if point < ds.length then ds.take point.toNat ++ '.' :: ds.drop point.toNat
      else ds ++ List.replicate (point - ds.length).toNat '0' ++ ['.', '0'] := rfl

/-- What the text of a decimal comes down to: the decimal itself, or small digits with a point at
    their end. -/
theorem denotes_decimal {value : Decimal} (hpos : 0 < value.significand)
    (hdigits : value.significand ≤ 10 ^ 17) (hlow : -1074 ≤ value.exponent)
    (hhigh : value.exponent ≤ 308) :
    ∃ significand exponent, Denotes (Layout.json.decimal value) significand exponent ∧
      (significand = value.significand ∧ exponent = value.exponent ∨
        significand < significandLimit ∧ exponent < 0) := by
  obtain ⟨n, e⟩ := value
  simp only at hpos hdigits hlow hhigh ⊢
  have hn : n < significandLimit := Nat.lt_of_le_of_lt hdigits (by decide)
  have hlength : (digits n).length ≤ 18 :=
    (Nat.length_toDigits_le_iff (by decide) (by decide)).mpr
      (Nat.lt_of_le_of_lt hdigits (by decide))
  have hleast : 0 < (digits n).length := Nat.length_toDigits_pos
  have htext : Layout.json.decimal ⟨n, e⟩ =
      Layout.json.magnitude (digits n) (e + (digits n).length) := rfl
  rw [htext, json_magnitude]
  by_cases hscientific : e + ((digits n).length : Int) ≤ -5 ∨ 15 < e + ((digits n).length : Int) - 1
  · rw [if_pos hscientific]
    refine ⟨n, e, ?_, Or.inl ⟨rfl, rfl⟩⟩
    have hsize : (e + ((digits n).length : Int) - 1).natAbs < exponentLimit := by
      simp only [exponentLimit]
      omega
    have hread := denotes_scientific hpos hn hsize
    have hexp : e + ((digits n).length : Int) - 1 - (digits n).length + 1 = e := by omega
    rwa [hexp] at hread
  rw [if_neg hscientific]
  by_cases hfraction : e + ((digits n).length : Int) ≤ 0
  · rw [if_pos hfraction]
    refine ⟨n, e, ?_, Or.inl ⟨rfl, rfl⟩⟩
    have hread := denotes_fraction hn (-(e + (digits n).length)).toNat
    have hexp : -(((-(e + ((digits n).length : Int))).toNat + (digits n).length : Nat) : Int) = e := by
      omega
    rwa [hexp] at hread
  rw [if_neg hfraction]
  by_cases hsplit : e + ((digits n).length : Int) < (digits n).length
  · rw [if_pos hsplit]
    refine ⟨n, e, ?_, Or.inl ⟨rfl, rfl⟩⟩
    have hinside : (e + ((digits n).length : Int)).toNat < (digits n).length := by omega
    have hread := denotes_split hpos hn (by omega) hinside
    have hexp : ((e + ((digits n).length : Int)).toNat : Int) - (digits n).length = e := by omega
    rwa [hexp] at hread
  · -- zeros up to the point, and one behind it: still at most seventeen digits
    have hzeros : (e + ((digits n).length : Int) - (digits n).length).toNat = e.toNat := by omega
    rw [if_neg hsplit, hzeros]
    have hsum : (digits n).length + (e.toNat + 1) ≤ 17 := by omega
    have hten : n < 10 ^ (digits n).length :=
      (Nat.length_toDigits_le_iff (by decide) hleast).mp (Nat.le_refl _)
    have hlt : n * 10 ^ (e.toNat + 1) < significandLimit :=
      calc n * 10 ^ (e.toNat + 1)
          < 10 ^ (digits n).length * 10 ^ (e.toNat + 1) :=
            Nat.mul_lt_mul_of_pos_right hten (Nat.pow_pos (by decide))
        _ = 10 ^ ((digits n).length + (e.toNat + 1)) := (Nat.pow_add _ _ _).symm
        _ ≤ 10 ^ 17 := Nat.pow_le_pow_right (by decide) hsum
        _ < significandLimit := by decide
    exact ⟨_, _, denotes_whole hpos e.toNat hlt, Or.inr ⟨hlt, by decide⟩⟩

/-- **The text of a finite magnitude** is read as a finite magnitude. -/
theorem number_code {code : Nat} (hfin : code < infinityCode) :
    ∃ significand exponent x, Denotes (Layout.json.code code) significand exponent ∧
      scaled significand exponent = some x ∧ x.isFinite = true := by
  by_cases hzero : code = 0
  · subst hzero
    obtain ⟨x, hx, hxfin⟩ : ∃ x, scaled 0 (-1) = some x ∧ x.isFinite = true :=
      scaled_of_negative (by decide) (by decide)
    refine ⟨0, -1, x, fun negative rest hrest => ?_, hx, hxfin⟩
    show number negative (encode (['0'] ++ '.' :: ['0']) ++ rest) = _
    exact number_positional negative (by simp) (by simp) (Or.inr rfl) (by decide) hrest
  have hpos : 0 < code := Nat.pos_of_ne_zero hzero
  have hspec := shortest_spec .even hpos
  have hhigh : (shortest .even code).exponent ≤ 308 := by
    rcases Int.lt_or_le (shortest .even code).exponent 0 with hneg | hnonneg
    · omega
    · obtain ⟨e, hexp⟩ := Int.eq_ofNat_of_zero_le hnonneg
      have := shortest_exponent_le hpos hfin hexp
      omega
  obtain ⟨k, hk, -, hdigits⟩ := hspec
  obtain ⟨significand, exponent, hread, hcases⟩ :=
    denotes_decimal (shortest_pos .even hpos) hdigits (by omega) hhigh
  have htext : Layout.json.code code = Layout.json.decimal (shortest .even code) := by
    rw [Layout.code, if_neg hzero]
    rfl
  rw [htext]
  rcases hcases with ⟨rfl, rfl⟩ | ⟨hlt, hneg⟩
  · obtain ⟨x, hx, hxfin⟩ := scaled_shortest hpos hfin
    exact ⟨_, _, x, hread, hx, hxfin⟩
  · obtain ⟨x, hx, hxfin⟩ := scaled_of_negative hlt hneg
    exact ⟨_, _, x, hread, hx, hxfin⟩

/-! ## Numbers as values -/

/-- The number that starts with the byte `b`: the bytes after a sign, or all of them. -/
def signed (b : UInt8) (tail : Bytes) : Result Number :=
  number (b == Byte.minus) (if b = Byte.minus then tail else b :: tail)

/-- A sign or a digit starts a number. -/
theorem scalar_of_signed {b : UInt8} (h : b = Byte.minus ∨ Byte.isDigit b = true) (tail : Bytes) :
    scalar b tail = (signed b tail).map fun (value, rest) => (Json.number value, rest) := by
  rcases h with rfl | hdigit
  · rfl
  have hbytes : ∀ c ∈ [0x6e, 0x74, 0x66, Byte.minus], b ≠ c := by
    rintro c hc rfl
    have hnone : ∀ c ∈ [0x6e, 0x74, 0x66, Byte.minus], Byte.isDigit c = false := by
      simp [Byte.isDigit, Byte.minus]
    exact absurd (hnone b hc) (by rw [hdigit]; decide)
  have hminus : b ≠ Byte.minus := hbytes _ (by simp)
  rw [scalar, if_neg (hbytes 0x6e (by simp)), if_neg (hbytes 0x74 (by simp)),
    if_neg (hbytes 0x66 (by simp)), if_neg hminus, if_pos hdigit, signed, if_neg hminus,
    beq_eq_false_iff_ne.mpr hminus]

/-- A sign or a digit is neither white space nor a bracket, and does not start `null`. -/
theorem signed_start {b : UInt8} (h : b = Byte.minus ∨ Byte.isDigit b = true) :
    Byte.isBlank b = false ∧ b ≠ Byte.openBracket ∧ b ≠ Byte.openBrace ∧ b ≠ Byte.closeBracket ∧
      b ≠ 0x6e := by
  have hother : ∀ c ∈ [0x20, 0x0a, 0x09, 0x0d, Byte.openBracket, Byte.openBrace, Byte.closeBracket, 0x6e],
      b ≠ c := by
    rintro c hc rfl
    have hnone : ∀ c ∈ [0x20, 0x0a, 0x09, 0x0d, Byte.openBracket, Byte.openBrace, Byte.closeBracket,
        0x6e], c ≠ Byte.minus ∧ Byte.isDigit c = false := by
      simp [Byte.isDigit, Byte.minus, Byte.openBracket, Byte.openBrace, Byte.closeBracket]
    obtain ⟨hminus, hdigit⟩ := hnone b hc
    exact h.elim hminus fun h => absurd h (by rw [hdigit]; decide)
  refine ⟨?_, hother _ (by simp), hother _ (by simp), hother _ (by simp), hother _ (by simp)⟩
  simp only [Byte.isBlank, Bool.or_eq_false_iff, beq_eq_false_iff_ne]
  exact ⟨⟨⟨hother _ (by simp), hother _ (by simp)⟩, hother _ (by simp)⟩, hother _ (by simp)⟩

/-- A number text starts with its sign or with a digit. -/
theorem signed_of_number {negative : Bool} {s rest : Bytes} {value : Number}
    (h : number negative s = .ok (value, rest)) :
    ∃ b tail, (if negative then Byte.minus :: s else s) = b :: tail ∧
      (b = Byte.minus ∨ Byte.isDigit b = true) ∧ signed b tail = .ok (value, rest) := by
  cases negative with
  | true => exact ⟨Byte.minus, s, rfl, Or.inl rfl, h⟩
  | false =>
      cases s with
      | nil => exact absurd h (by simp [number])
      | cons b tail =>
          have hdigit : Byte.isDigit b = true := by
            by_contra hno
            rw [number, Bool.eq_false_of_not_eq_true hno] at h
            exact absurd h (by simp)
          have hminus : b ≠ Byte.minus := by
            rintro rfl
            exact absurd hdigit (by decide)
          refine ⟨b, tail, rfl, Or.inr hdigit, ?_⟩
          rw [signed, if_neg hminus, beq_eq_false_iff_ne.mpr hminus]
          exact h

/-- The digits of an integer. -/
theorem number_digits {n : Nat} (hn : n < significandLimit) (negative : Bool) {rest : Bytes}
    (hrest : Delimited rest) :
    number negative (encode (digits n) ++ rest) = wholeNumber negative n rest := by
  have hvalue := digits_value n
  have hmem := mem_digits (n := n)
  obtain ⟨d, ds, hcons, hlead⟩ : ∃ d ds, digits n = d :: ds ∧ (d ≠ '0' ∨ ds = []) := by
    rcases Nat.eq_zero_or_pos n with rfl | hpos
    · exact ⟨'0', [], rfl, Or.inr rfl⟩
    · obtain ⟨d, ds, hcons, hd⟩ := digits_head hpos
      exact ⟨d, ds, hcons, Or.inl hd⟩
  rw [hcons] at hvalue hmem ⊢
  rw [number_start negative hmem hlead (by rw [hvalue]; exact hn) hrest.not_digit, hvalue,
    afterWhole_delimited negative hrest, if_pos rfl]

/-- **An integer is read back.** -/
theorem signed_integer {value : Int} (lower : -0x8000000000000000 ≤ value)
    (upper : value < 0x10000000000000000) {rest : Bytes} (hrest : Delimited rest) :
    ∃ b tail, encode (intText value) ++ rest = b :: tail ∧
      (b = Byte.minus ∨ Byte.isDigit b = true) ∧
      signed b tail = .ok (.integer value lower upper, rest) := by
  have hn : value.natAbs < 0x10000000000000000 := by omega
  by_cases hneg : value < 0
  · have hsize : 0 < value.natAbs ∧ value.natAbs ≤ 0x8000000000000000 := by omega
    have hback : -(value.natAbs : Int) = value := by omega
    have hnumber : number true (encode (digits value.natAbs) ++ rest) =
        .ok (.integer value lower upper, rest) := by
      rw [number_digits hn true hrest, wholeNumber, if_pos rfl, dif_pos hsize]
      simp only [hback]
    rw [intText, if_pos hneg]
    exact signed_of_number hnumber
  · have hback : (value.natAbs : Int) = value := by omega
    have hnumber : number false (encode (digits value.natAbs) ++ rest) =
        .ok (.integer value lower upper, rest) := by
      rw [number_digits hn false hrest, wholeNumber, if_neg (by decide), dif_pos hn]
      simp only [hback]
    rw [intText, if_neg hneg]
    exact signed_of_number hnumber

theorem finishNumber_of_scaled {significand : Nat} {exponent : Int} {x : Binary64}
    (h : scaled significand exponent = some x) (negative : Bool)
    (hfin : (x.withSign negative).isFinite = true) (rest : Bytes) :
    finishNumber negative significand exponent rest =
      .ok (.binary (x.withSign negative) hfin, rest) := by
  rw [finishNumber, h]
  exact dif_pos hfin

/-- **A number text is read as a number**, the same one before everything that may follow it. -/
theorem signed_numberText (value : Number) :
    ∃ read : Number, ∀ rest, Delimited rest →
      ∃ b tail, encode (Tree.numberText value) ++ rest = b :: tail ∧
        (b = Byte.minus ∨ Byte.isDigit b = true) ∧ signed b tail = .ok (read, rest) := by
  cases value with
  | integer value lower upper =>
      exact ⟨.integer value lower upper, fun rest hrest => signed_integer lower upper hrest⟩
  | binary value finite =>
      obtain ⟨negative, code, code_lt⟩ := value
      obtain ⟨significand, exponent, x, hread, hx, hxfin⟩ := number_code (of_decide_eq_true finite)
      refine ⟨.binary (x.withSign negative) hxfin, ?_⟩
      intro rest hrest
      have hnumber := (hread negative rest hrest).trans
        (finishNumber_of_scaled hx negative hxfin rest)
      rw [Tree.numberText, Layout.finite]
      cases negative with
      | true =>
          rw [if_pos rfl, Text.Utf8.encode_cons]
          exact signed_of_number hnumber
      | false =>
          rw [if_neg Bool.false_ne_true]
          exact signed_of_number hnumber

end Json.Reader

end DocStore
