import DocStore.Proofs.Json.Scanning

/-!
# Reading number texts

Number texts are digit runs around a point and an exponent letter. Each run is gathered as its value,
so a text that the printer writes comes down to one call of `finishNumber`, or to an integer.

## Contents
- `encodeChar_digit`: a digit is one byte with its value.
- `gatherWhole_digits`, `gatherFraction_digits`, `gatherExponent_digits`: runs before and after the
  point, and of an exponent.
- `Delimited.not_digit`, `Delimited.not_exponent`: what ends a value does not continue a number.
- `number_zero`, `number_nonzero`, `number_start`: the digits in front of the point.
- `number_positional`, `number_scientific`: the two forms of a text that is no integer.
-/

namespace DocStore.Json.Reader

open Text (Bytes)
open Text.Utf8 (encode encodeChar)

/-! ## Digits -/

/-- The value of a digit, as a character and as a byte. -/
theorem encodeChar_digit {c : Char} (h : c.isDigit = true) :
    ∃ b, encodeChar c = [b] ∧ Byte.isDigit b = true ∧
      Byte.digitValue b = c.toNat - '0'.toNat := by
  obtain ⟨hlow, hhigh⟩ : 48 ≤ c.toNat ∧ c.toNat ≤ 57 := by
    simpa [Char.isDigit, UInt32.le_iff_toNat_le] using h
  have hbyte : (UInt8.ofNat c.toNat).toNat = c.toNat := by
    simp [Nat.mod_eq_of_lt (show c.toNat < 256 by omega)]
  refine ⟨UInt8.ofNat c.toNat, Text.Utf8.encodeChar_ascii (by omega), ?_, ?_⟩
  · simp only [Byte.isDigit, UInt8.le_iff_toNat_le, hbyte, Bool.and_eq_true, decide_eq_true_eq]
    exact ⟨hlow, hhigh⟩
  · rw [Byte.digitValue, hbyte]
    rfl

theorem le_ofDigitChars (ds : List Char) (start : Nat) : start ≤ Nat.ofDigitChars 10 ds start := by
  rw [Nat.ofDigitChars_eq_ofDigitChars_zero]
  exact Nat.le_trans (Nat.le_mul_of_pos_left _ (Nat.pow_pos (by decide))) (Nat.le_add_right _ _)

section Runs

variable {ds : List Char} {rest : Bytes}

/-! A run ends where no digit follows. -/

theorem gatherWhole_end (hrest : startsWithDigit rest = false) (significand dropped : Nat) :
    gatherWhole significand dropped rest = (significand, dropped, rest) := by
  cases rest with
  | nil => rfl
  | cons b rest =>
      have hb : Byte.isDigit b = false := hrest
      rw [gatherWhole, hb]
      rfl

theorem gatherFraction_end (hrest : startsWithDigit rest = false) (significand taken : Nat) :
    gatherFraction significand taken rest = (significand, taken, rest) := by
  cases rest with
  | nil => rfl
  | cons b rest =>
      have hb : Byte.isDigit b = false := hrest
      rw [gatherFraction, hb]
      rfl

theorem gatherExponent_end (hrest : startsWithDigit rest = false) (exponent : Nat) :
    gatherExponent exponent rest = .ok (exponent, rest) := by
  cases rest with
  | nil => rfl
  | cons b rest =>
      have hb : Byte.isDigit b = false := hrest
      rw [gatherExponent, hb]
      rfl

/-- A run of digits before the point is gathered as its value. -/
theorem gatherWhole_digits (hds : ∀ c ∈ ds, c.isDigit = true) (start : Nat)
    (hlt : Nat.ofDigitChars 10 ds start < significandLimit) (hrest : startsWithDigit rest = false) :
    gatherWhole start 0 (encode ds ++ rest) = (Nat.ofDigitChars 10 ds start, 0, rest) := by
  induction ds generalizing start with
  | nil => exact gatherWhole_end hrest start 0
  | cons c ds ih =>
      obtain ⟨b, henc, hb, hv⟩ := encodeChar_digit (hds c List.mem_cons_self)
      rw [Nat.ofDigitChars_cons] at hlt ⊢
      have hstep : 10 * start + (c.toNat - '0'.toNat) < significandLimit :=
        Nat.lt_of_le_of_lt (le_ofDigitChars ds _) hlt
      rw [Text.Utf8.encode_cons, henc, List.cons_append, List.nil_append, List.cons_append,
        gatherWhole, if_pos hb, hv]
      simp only [hstep, true_and, if_true]
      exact ih (fun d hd => hds d (List.mem_cons_of_mem _ hd)) _ hlt

/-- A run of digits after the point is gathered as its value, and counted. -/
theorem gatherFraction_digits (hds : ∀ c ∈ ds, c.isDigit = true) (start taken : Nat)
    (hlt : Nat.ofDigitChars 10 ds start < significandLimit) (hrest : startsWithDigit rest = false) :
    gatherFraction start taken (encode ds ++ rest) =
      (Nat.ofDigitChars 10 ds start, taken + ds.length, rest) := by
  induction ds generalizing start taken with
  | nil => exact gatherFraction_end hrest start taken
  | cons c ds ih =>
      obtain ⟨b, henc, hb, hv⟩ := encodeChar_digit (hds c List.mem_cons_self)
      rw [Nat.ofDigitChars_cons] at hlt ⊢
      have hstep : 10 * start + (c.toNat - '0'.toNat) < significandLimit :=
        Nat.lt_of_le_of_lt (le_ofDigitChars ds _) hlt
      rw [Text.Utf8.encode_cons, henc, List.cons_append, List.nil_append, List.cons_append,
        gatherFraction, if_pos hb, hv]
      simp only [if_pos hstep]
      rw [ih (fun d hd => hds d (List.mem_cons_of_mem _ hd)) _ _ hlt, List.length_cons]
      congr 2
      omega

/-- A run of digits of an exponent is gathered as its value. -/
theorem gatherExponent_digits (hds : ∀ c ∈ ds, c.isDigit = true) (start : Nat)
    (hlt : Nat.ofDigitChars 10 ds start < exponentLimit) (hrest : startsWithDigit rest = false) :
    gatherExponent start (encode ds ++ rest) = .ok (Nat.ofDigitChars 10 ds start, rest) := by
  induction ds generalizing start with
  | nil => exact gatherExponent_end hrest start
  | cons c ds ih =>
      obtain ⟨b, henc, hb, hv⟩ := encodeChar_digit (hds c List.mem_cons_self)
      rw [Nat.ofDigitChars_cons] at hlt ⊢
      have hstep : 10 * start + (c.toNat - '0'.toNat) < exponentLimit :=
        Nat.lt_of_le_of_lt (le_ofDigitChars ds _) hlt
      rw [Text.Utf8.encode_cons, henc, List.cons_append, List.nil_append, List.cons_append,
        gatherExponent, if_pos hb, hv]
      simp only [if_pos hstep]
      exact ih (fun d hd => hds d (List.mem_cons_of_mem _ hd)) _ hlt

end Runs

/-! ## What ends a number -/

theorem Delimited.not_digit {rest : Bytes} (h : Delimited rest) : startsWithDigit rest = false := by
  cases rest with
  | nil => rfl
  | cons b rest =>
      show Byte.isDigit b = false
      rcases h b (by simp) with hb | rfl | rfl | rfl
      · simp only [Byte.isBlank, Bool.or_eq_true, beq_iff_eq] at hb
        rcases hb with ((rfl | rfl) | rfl) | rfl <;> decide
      all_goals decide

theorem Delimited.not_exponent {b : UInt8} {rest : Bytes} (h : Delimited (b :: rest)) :
    Byte.isExponent b = false ∧ b ≠ Byte.point := by
  rcases h b (by simp) with hb | rfl | rfl | rfl
  · simp only [Byte.isBlank, Bool.or_eq_true, beq_iff_eq] at hb
    rcases hb with ((rfl | rfl) | rfl) | rfl <;> decide
  all_goals decide

variable (negative : Bool) {rest : Bytes}

/-- Without point and exponent a number is whole, unless digits have been dropped. -/
theorem afterWhole_delimited (h : Delimited rest) (significand dropped : Nat) :
    afterWhole negative significand dropped rest =
      if dropped = 0 then wholeNumber negative significand rest
      else finishNumber negative significand dropped rest := by
  cases rest with
  | nil => rw [afterWhole]
  | cons b rest =>
      obtain ⟨hexp, hpoint⟩ := h.not_exponent
      rw [afterWhole, if_neg hpoint, hexp, if_neg Bool.false_ne_true]

theorem optionalExponent_delimited (h : Delimited rest) (significand : Nat) (exponent : Int) :
    optionalExponent negative significand exponent rest =
      finishNumber negative significand exponent rest := by
  cases rest with
  | nil => rw [optionalExponent]
  | cons b rest =>
      obtain ⟨hexp, -⟩ := h.not_exponent
      simp only [optionalExponent, hexp, Bool.false_eq_true, if_false]

/-! ## Forms of number texts -/

/-- A digit without value is zero. -/
theorem eq_zero_of_digitValue {d : Char} {b : UInt8} (hd : d.isDigit = true)
    (hv : Byte.digitValue b = d.toNat - '0'.toNat) (hvalue : Byte.digitValue b = 0) : d = '0' := by
  obtain ⟨hlow, -⟩ : 48 ≤ d.toNat ∧ d.toNat ≤ 57 := by
    simpa [Char.isDigit, UInt32.le_iff_toNat_le] using hd
  have h48 : '0'.toNat = 48 := rfl
  exact Char.toNat_inj.mp (by omega)

/-- A zero in front is the whole run, so what follows it must not be a digit. -/
theorem number_zero (hrest : startsWithDigit rest = false) :
    number negative (encode ['0'] ++ rest) = afterWhole negative 0 0 rest := by
  show number negative (0x30 :: rest) = _
  simp [number, Byte.isDigit, Byte.digitValue, hrest]

/-- Digits in front of the point that do not start with zero. -/
theorem number_nonzero {d : Char} (hd : d.isDigit = true) (hne : d ≠ '0') (ds : List Char)
    (rest : Bytes) :
    number negative (encode (d :: ds) ++ rest) =
      let (significand, dropped, rest) := gatherWhole (d.toNat - '0'.toNat) 0 (encode ds ++ rest)
      afterWhole negative significand dropped rest := by
  obtain ⟨b, henc, hb, hv⟩ := encodeChar_digit hd
  have hvalue : Byte.digitValue b ≠ 0 := fun hzero => hne (eq_zero_of_digitValue hd hv hzero)
  rw [Text.Utf8.encode_cons, henc, List.singleton_append, List.cons_append, number, hb,
    if_neg hvalue, hv]
  rfl

/-- The digits in front of the point. Only a lone zero may start with zero. -/
theorem number_start {d : Char} {ds : List Char} (hds : ∀ c ∈ d :: ds, c.isDigit = true)
    (hlead : d ≠ '0' ∨ ds = []) (hlt : Nat.ofDigitChars 10 (d :: ds) 0 < significandLimit)
    (hrest : startsWithDigit rest = false) :
    number negative (encode (d :: ds) ++ rest) =
      afterWhole negative (Nat.ofDigitChars 10 (d :: ds) 0) 0 rest := by
  obtain ⟨hd, hds⟩ := List.forall_mem_cons.mp hds
  by_cases hzero : d = '0'
  · obtain rfl := hlead.resolve_left fun hne => hne hzero
    rw [hzero]
    exact number_zero negative hrest
  · rw [Nat.ofDigitChars_cons, Nat.mul_zero, Nat.zero_add] at hlt ⊢
    rw [number_nonzero negative hd hzero, gatherWhole_digits hds _ hlt hrest]

/-- The digits after the point. -/
theorem fractionPart_digits {d : Char} {ds : List Char} (hds : ∀ c ∈ d :: ds, c.isDigit = true)
    {significand : Nat} (hlt : Nat.ofDigitChars 10 (d :: ds) significand < significandLimit)
    (exponent : Int) (hrest : startsWithDigit rest = false) :
    fractionPart negative significand exponent (encode (d :: ds) ++ rest) =
      optionalExponent negative (Nat.ofDigitChars 10 (d :: ds) significand)
        (exponent - (d :: ds).length) rest := by
  have hgather := gatherFraction_digits hds significand 0 hlt hrest
  obtain ⟨b, henc, hb, -⟩ := encodeChar_digit (hds d List.mem_cons_self)
  rw [Text.Utf8.encode_cons, henc, List.cons_append, List.nil_append, List.cons_append] at hgather ⊢
  rw [fractionPart, hb, hgather, Nat.zero_add]
  rfl

/-- A text with a point and without an exponent. -/
theorem number_positional {d e : Char} {ds es : List Char}
    (hds : ∀ c ∈ d :: ds, c.isDigit = true) (hes : ∀ c ∈ e :: es, c.isDigit = true)
    (hlead : d ≠ '0' ∨ ds = [])
    (hlt : Nat.ofDigitChars 10 (d :: ds ++ e :: es) 0 < significandLimit) (h : Delimited rest) :
    number negative (encode (d :: ds ++ '.' :: e :: es) ++ rest) =
      finishNumber negative (Nat.ofDigitChars 10 (d :: ds ++ e :: es) 0)
        (-((e :: es).length : Int)) rest := by
  rw [Nat.ofDigitChars_append] at hlt ⊢
  have hpoint : encode ('.' :: e :: es) = Byte.point :: encode (e :: es) := rfl
  rw [Text.Utf8.encode_append, List.append_assoc, hpoint, List.cons_append,
    number_start negative hds hlead (Nat.lt_of_le_of_lt (le_ofDigitChars _ _) hlt) rfl, afterWhole,
    if_pos rfl, fractionPart_digits negative hes hlt _ h.not_digit,
    optionalExponent_delimited negative h]
  congr 1

/-! ## Exponents -/

/-- What is read of an exponent, from its first digit on. The digit is the start of the value that the
    others are gathered into. -/
theorem exponentPart_sign {sign : List Char} {down : Bool}
    (hsign : ∀ b rest, Byte.isDigit b = true → exponentSign (encode sign ++ b :: rest) = (down, b :: rest))
    {d : Char} (hd : d.isDigit = true) (ds : List Char) (significand : Nat) (start : Int) (rest : Bytes) :
    exponentPart negative significand start (encode (sign ++ d :: ds) ++ rest) =
      match gatherExponent (d.toNat - '0'.toNat) (encode ds ++ rest) with
      | .ok (exponent, rest) =>
        finishNumber negative significand (if down then start - exponent else start + exponent) rest
      | .error rest =>
        if significand ≠ 0 ∧ down = false then .error (.here .numberOutOfRange rest)
        else finishNumber negative 0 0 (skipDigits rest) := by
  obtain ⟨b, henc, hb, hv⟩ := encodeChar_digit hd
  rw [Text.Utf8.encode_append, Text.Utf8.encode_cons, henc, List.append_assoc, List.append_assoc,
    List.singleton_append]
  rw [exponentPart, hsign b _ hb, ← hv]
  exact if_neg (by rw [hb]; exact Bool.false_ne_true)

/-- An exponent that fits. -/
theorem exponentPart_run {sign : List Char} {down : Bool}
    (hsign : ∀ b rest, Byte.isDigit b = true → exponentSign (encode sign ++ b :: rest) = (down, b :: rest))
    {ds : List Char} (hne : ds ≠ []) (hds : ∀ c ∈ ds, c.isDigit = true)
    (hlt : Nat.ofDigitChars 10 ds 0 < exponentLimit) (significand : Nat) (start : Int)
    (h : Delimited rest) :
    exponentPart negative significand start (encode (sign ++ ds) ++ rest) =
      finishNumber negative significand (if down then start - Nat.ofDigitChars 10 ds 0
        else start + Nat.ofDigitChars 10 ds 0) rest := by
  obtain ⟨d, ds, rfl⟩ := List.exists_cons_of_ne_nil hne
  obtain ⟨hd, hds⟩ := List.forall_mem_cons.mp hds
  rw [Nat.ofDigitChars_cons, Nat.mul_zero, Nat.zero_add] at hlt ⊢
  rw [exponentPart_sign negative hsign hd, gatherExponent_digits hds _ hlt h.not_digit]

/-- An exponent with the sign that is always written. -/
theorem exponentPart_digits {exponent : Int} (hexp : exponent.natAbs < exponentLimit)
    (significand : Nat) (start : Int) (h : Delimited rest) :
    exponentPart negative significand start
      (encode ((if exponent < 0 then '-' else '+') :: Decimal.digits exponent.natAbs) ++ rest) =
      finishNumber negative significand (start + exponent) rest := by
  have hne : Decimal.digits exponent.natAbs ≠ [] := Nat.toDigits_ne_nil
  have hdigits : ∀ c ∈ Decimal.digits exponent.natAbs, c.isDigit = true := fun c hc =>
    Nat.isDigit_of_mem_toDigits (by decide) (by decide) hc
  have hvalue : Nat.ofDigitChars 10 (Decimal.digits exponent.natAbs) 0 = exponent.natAbs :=
    Nat.ofDigitChars_ten_toDigits
  by_cases hneg : exponent < 0
  · have hsign : ∀ b rest, Byte.isDigit b = true →
        exponentSign (encode ['-'] ++ b :: rest) = (true, b :: rest) := fun _ _ _ => rfl
    have hrun := exponentPart_run negative hsign hne hdigits (hvalue.symm ▸ hexp) significand start h
    have hsum : start - (exponent.natAbs : Int) = start + exponent := by omega
    rw [hvalue, if_pos rfl, hsum] at hrun
    rw [if_pos hneg]
    exact hrun
  · have hsign : ∀ b rest, Byte.isDigit b = true →
        exponentSign (encode ['+'] ++ b :: rest) = (false, b :: rest) := fun _ _ _ => rfl
    have hrun := exponentPart_run negative hsign hne hdigits (hvalue.symm ▸ hexp) significand start h
    have hsum : start + (exponent.natAbs : Int) = start + exponent := by omega
    rw [hvalue, if_neg Bool.false_ne_true, hsum] at hrun
    rw [if_neg hneg]
    exact hrun

/-- A text with an exponent: one digit before the point, and the others after it. -/
theorem number_scientific {d : Char} {ds : List Char} (hds : ∀ c ∈ d :: ds, c.isDigit = true)
    (hlead : d ≠ '0') (hlt : Nat.ofDigitChars 10 (d :: ds) 0 < significandLimit) {exponent : Int}
    (hexp : exponent.natAbs < exponentLimit) (h : Delimited rest) :
    number negative (encode (Decimal.scientific (d :: ds) exponent) ++ rest) =
      finishNumber negative (Nat.ofDigitChars 10 (d :: ds) 0) (exponent - ds.length) rest := by
  have hd : ∀ c ∈ [d], c.isDigit = true := fun c hc =>
    hds c (List.mem_singleton.mp hc ▸ List.mem_cons_self)
  have hletter : ∀ text, encode ('e' :: text) = 0x65 :: encode text := fun _ => rfl
  cases ds with
  | nil =>
      have htext : Decimal.scientific [d] exponent =
          [d] ++ 'e' :: (if exponent < 0 then '-' else '+') :: Decimal.digits exponent.natAbs := rfl
      rw [htext, Text.Utf8.encode_append, List.append_assoc, hletter, List.cons_append,
        number_start negative hd (Or.inl hlead) hlt rfl, afterWhole, if_neg (by decide),
        if_pos (by decide), exponentPart_digits negative hexp _ _ h]
      congr 1
      simp
  | cons e es =>
      have hes : ∀ c ∈ e :: es, c.isDigit = true := fun c hc => hds c (List.mem_cons_of_mem _ hc)
      have htext : Decimal.scientific (d :: e :: es) exponent =
          [d] ++ '.' :: (e :: es ++ 'e' :: (if exponent < 0 then '-' else '+') ::
            Decimal.digits exponent.natAbs) := by
        simp [Decimal.scientific]
      have hsplit : Nat.ofDigitChars 10 (d :: e :: es) 0 =
          Nat.ofDigitChars 10 (e :: es) (Nat.ofDigitChars 10 [d] 0) :=
        Nat.ofDigitChars_append (l := [d]) (m := e :: es) 0
      have hpoint : ∀ text, encode ('.' :: text) = Byte.point :: encode text := fun _ => rfl
      rw [hsplit] at hlt ⊢
      rw [htext, Text.Utf8.encode_append, List.append_assoc, hpoint, List.cons_append,
        number_start negative hd (Or.inl hlead) (Nat.lt_of_le_of_lt (le_ofDigitChars _ _) hlt) rfl,
        afterWhole, if_pos rfl, Text.Utf8.encode_append, List.append_assoc, hletter,
        List.cons_append, fractionPart_digits negative hes hlt _ rfl, optionalExponent, if_pos (by decide),
        exponentPart_digits negative hexp _ _ h]
      congr 1
      push_cast
      omega

end DocStore.Json.Reader
