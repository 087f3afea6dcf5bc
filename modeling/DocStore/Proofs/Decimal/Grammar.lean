import DocStore.Proofs.Binary64.ExactOrder
import DocStore.Proofs.Decimal.ReadBack

/-!
# The grammar of number literals

Which texts are numbers, and what they denote, without a word about how they are read: blanks around a sign
and a decimal or the word for infinity, where a decimal has digits, a point among or around them, and
perhaps a power of ten. The reader takes exactly these texts, and gives the number to which the exact value
is rounded.

## Contents
- `SignText`, `ExponentText`, `DecimalText`: the parts of a literal with their values.
- `Denotes`: the literals with their exact values, rational or infinite.
- `readExponent_iff`, `says_iff`: the parts are read by the grammar.
- `Denotes.read`, `Denotes.unique`: **a literal is read as its value, rounded**, and has no other.
- `denotes_of_parseNumber`, `isSome_parseNumber_iff`: nothing else is read.
-/

namespace DocStore.Decimal

open Binary64
open Text (isBlank)

/-! ## The grammar -/

/-- Signs, and whether they are a minus. -/
inductive SignText : List Char → Bool → Prop
  | absent : SignText [] false
  | plus : SignText ['+'] false
  | minus : SignText ['-'] true

/-- Exponents with their values: nothing, or a letter, a sign and digits. -/
inductive ExponentText : List Char → Int → Prop
  | absent : ExponentText [] 0
  | present {letter : Char} {sign ds : List Char} {negative : Bool}
      (letter_eq : letter = 'e' ∨ letter = 'E') (sign_text : SignText sign negative) (nonempty : ds ≠ [])
      (all_digits : ∀ c ∈ ds, isDigit c = true) :
      ExponentText (letter :: (sign ++ ds))
        (if negative then -(digitsValue ds : Int) else digitsValue ds)

/-- Decimals with their values: digits, with a point or without, and an exponent. -/
inductive DecimalText : List Char → ℚ → Prop
  | whole {whole tail : List Char} {exponent : Int} (nonempty : whole ≠ [])
      (all_digits : ∀ c ∈ whole, isDigit c = true) (exponent_text : ExponentText tail exponent) :
      DecimalText (whole ++ tail) (digitsValue whole * 10 ^ exponent)
  | pointed {whole fraction tail : List Char} {exponent : Int} (nonempty : whole ≠ [] ∨ fraction ≠ [])
      (whole_digits : ∀ c ∈ whole, isDigit c = true)
      (fraction_digits : ∀ c ∈ fraction, isDigit c = true) (exponent_text : ExponentText tail exponent) :
      DecimalText (whole ++ '.' :: (fraction ++ tail))
        (digitsValue (whole ++ fraction) * 10 ^ (exponent - fraction.length))

/-- Whether a text holds nothing but blanks. -/
def AllBlank (text : List Char) : Prop :=
  ∀ c ∈ text, isBlank c = true

/-- Literals with their exact values: a decimal or infinity behind a sign and between blanks. -/
inductive Denotes : List Char → Extended → Prop
  | decimal {before sign body after : List Char} {negative : Bool} {value : ℚ} (blank_before : AllBlank before)
      (sign_text : SignText sign negative) (body_text : DecimalText body value)
      (blank_after : AllBlank after) :
      Denotes (before ++ (sign ++ body ++ after)) (Extended.signed negative value)
  | infinity {before sign after : List Char} {negative : Bool} (blank_before : AllBlank before)
      (sign_text : SignText sign negative) (blank_after : AllBlank after) :
      Denotes (before ++ (sign ++ "Infinity".toList ++ after)) (Extended.infinity negative)

/-! ## Signs -/

/-- A sign is taken off a text that does not start with another. -/
theorem SignText.split {sign body : List Char} {negative : Bool} (h : SignText sign negative)
    (hbody : ∀ c ∈ body.head?, c ≠ '-' ∧ c ≠ '+') : splitSign (sign ++ body) = (negative, body) := by
  cases h with
  | absent => exact splitSign_of_head hbody
  | plus => rfl
  | minus => rfl

/-- What is taken off a text is a sign. -/
theorem signText_splitSign (text : List Char) :
    ∃ sign, SignText sign (splitSign text).1 ∧ text = sign ++ (splitSign text).2 := by
  unfold splitSign
  split
  · exact ⟨['-'], .minus, rfl⟩
  · exact ⟨['+'], .plus, rfl⟩
  · exact ⟨[], .absent, rfl⟩

/-! ## Decimals -/

theorem ne_sign_of_digit {c : Char} (h : isDigit c = true) : c ≠ '-' ∧ c ≠ '+' := by
  constructor
  · rintro rfl
    cases h
  · rintro rfl
    cases h

theorem head_of_digits {ds : List Char} (h : ∀ c ∈ ds, isDigit c = true) :
    ∀ c ∈ ds.head?, c ≠ '-' ∧ c ≠ '+' :=
  fun c hc => ne_sign_of_digit (h c (List.mem_of_mem_head? hc))

/-- Exponents are read by the grammar. -/
theorem readExponent_iff {text : List Char} {exponent : Int} :
    readExponent text = some exponent ↔ ExponentText text exponent := by
  constructor
  · intro h
    unfold readExponent at h
    split at h
    · obtain rfl := Option.some.inj h
      exact .absent
    · rename_i letter rest
      split at h
      · rename_i hletter
        obtain ⟨sign, hsign, hrest⟩ := signText_splitSign rest
        dsimp only at h
        split at h
        · cases h
        · rename_i hdigits
          obtain rfl := Option.some.inj h
          simp only [Bool.or_eq_true, not_or, Bool.not_eq_true', Bool.not_eq_true,
            Bool.not_eq_false] at hdigits
          conv in letter :: rest => rw [hrest]
          exact .present hletter hsign (by simpa using hdigits.1) (List.all_eq_true.mp hdigits.2)
      · cases h
  · intro h
    cases h with
    | absent => rfl
    | present letter_eq sign_text nonempty all_digits =>
        unfold readExponent
        dsimp only
        rw [if_pos letter_eq, sign_text.split (head_of_digits all_digits)]
        dsimp only
        rw [if_neg]
        simpa [nonempty] using all_digits

/-- What stands behind digits and a point starts neither with another digit nor with a point. -/
theorem ExponentText.head {text : List Char} {exponent : Int} (h : ExponentText text exponent) :
    ∀ c ∈ text.head?, isDigit c = false ∧ c ≠ '.' := by
  intro c hc
  cases h with
  | absent => cases hc
  | present letter_eq sign_text nonempty all_digits =>
      obtain rfl := Option.some.inj hc
      rcases letter_eq with rfl | rfl
      · decide
      · decide

/-- A decimal that starts with its point. -/
theorem readUnsigned_leading {fraction tail : List Char} (hne : fraction ≠ [])
    (hfraction : ∀ c ∈ fraction, isDigit c = true) (hend : ∀ c ∈ tail.head?, isDigit c = false) :
    readUnsigned ('.' :: (fraction ++ tail)) =
      (readExponent tail).map fun exponent => ⟨[], fraction, exponent⟩ := by
  obtain ⟨htake, hdrop⟩ := takeWhile_run hfraction hend
  have hempty : fraction.isEmpty = false := by simpa using hne
  have hpoint : ¬ isDigit '.' = true := by decide
  unfold readUnsigned
  rw [List.takeWhile_cons_of_neg hpoint, List.dropWhile_cons_of_neg hpoint]
  simp [hempty, htake, hdrop]

/-- Decimals are read by the grammar, with their exact values. -/
theorem says_iff {text : List Char} {value : ℚ} : Says text value ↔ DecimalText text value := by
  constructor
  · rintro ⟨literal, hread, rfl⟩
    have hcut := List.takeWhile_append_dropWhile (p := isDigit) (l := text)
    have hwhole : ∀ c ∈ text.takeWhile isDigit, isDigit c = true := fun _ => List.mem_takeWhile_imp
    unfold readUnsigned at hread
    generalize text.takeWhile isDigit = whole at hcut hwhole hread
    generalize text.dropWhile isDigit = rest at hcut hread
    subst hcut
    dsimp only at hread
    split at hread
    · -- a point behind the digits
      rename_i behind
      have hcut := List.takeWhile_append_dropWhile (p := isDigit) (l := behind)
      have hfraction : ∀ c ∈ behind.takeWhile isDigit, isDigit c = true :=
        fun _ => List.mem_takeWhile_imp
      dsimp only at hread
      generalize behind.takeWhile isDigit = fraction at hcut hfraction hread
      generalize behind.dropWhile isDigit = tail at hcut hread
      subst hcut
      split at hread
      · cases hread
      · rename_i hsome
        obtain ⟨exponent, hexponent, rfl⟩ := Option.map_eq_some_iff.mp hread
        refine .pointed ?_ hwhole hfraction (readExponent_iff.mp hexponent)
        simpa [imp_iff_not_or] using hsome
    · split at hread
      · cases hread
      · rename_i hsome
        obtain ⟨exponent, hexponent, rfl⟩ := Option.map_eq_some_iff.mp hread
        have hdecimal := DecimalText.whole (by simpa using hsome) hwhole
          (readExponent_iff.mp hexponent)
        simpa [Unsigned.exact] using hdecimal
  · intro h
    cases h with
    | whole nonempty all_digits exponent_text =>
        have hread := readUnsigned_whole nonempty all_digits _ exponent_text.head
        rw [readExponent_iff.mpr exponent_text] at hread
        exact ⟨_, hread, by simp [Unsigned.exact]⟩
    | @pointed whole fraction tail exponent nonempty whole_digits fraction_digits exponent_text =>
        have hend : ∀ c ∈ tail.head?, isDigit c = false := fun c hc => (exponent_text.head c hc).1
        have hread : readUnsigned (whole ++ '.' :: (fraction ++ tail)) =
            (readExponent tail).map fun exponent => ⟨whole, fraction, exponent⟩ := by
          by_cases hne : whole = []
          · subst hne
            exact readUnsigned_leading (nonempty.resolve_left fun h => h rfl) fraction_digits hend
          · exact readUnsigned_point hne whole_digits fraction_digits tail hend
        rw [readExponent_iff.mpr exponent_text] at hread
        exact ⟨_, hread, rfl⟩

/-! ## Blanks -/

theorem dropWhile_blank {before body : List Char} (h : AllBlank before)
    (hbody : ∀ c ∈ body.head?, isBlank c = false) : (before ++ body).dropWhile isBlank = body := by
  rw [List.dropWhile_append_of_pos h]
  cases body with
  | nil => rfl
  | cons c body => exact List.dropWhile_cons_of_neg (by simp [hbody c rfl])

/-- Blanks around a text without blanks are taken off. -/
theorem trim_blank {before body after : List Char} (hbefore : AllBlank before) (hafter : AllBlank after)
    (hne : body ≠ []) (hbody : ∀ c ∈ body, isBlank c = false) :
    Text.trim (before ++ (body ++ after)) = body := by
  have hhead : ∀ c ∈ (body ++ after).head?, isBlank c = false := by
    intro c hc
    rw [List.head?_append_of_ne_nil _ hne] at hc
    exact hbody c (List.mem_of_mem_head? hc)
  have hlast : ∀ c ∈ body.reverse.head?, isBlank c = false :=
    fun c hc => hbody c (List.mem_reverse.mp (List.mem_of_mem_head? hc))
  have hreverse : AllBlank after.reverse := fun c hc => hafter c (List.mem_reverse.mp hc)
  unfold Text.trim Text.trimEnd Text.trimStart
  rw [dropWhile_blank hbefore hhead, List.reverse_append, dropWhile_blank hreverse hlast,
    List.reverse_reverse]

/-- What is taken off the ends of a text are blanks. -/
theorem exists_trim (text : List Char) :
    ∃ before after, AllBlank before ∧ AllBlank after ∧ text = before ++ (Text.trim text ++ after) := by
  have hblank : ∀ text : List Char, AllBlank (text.takeWhile isBlank) :=
    fun _ _ hc => List.mem_takeWhile_imp hc
  refine ⟨text.takeWhile isBlank, ((text.dropWhile isBlank).reverse.takeWhile isBlank).reverse,
    hblank text, fun c hc => hblank _ c (List.mem_reverse.mp hc), ?_⟩
  unfold Text.trim Text.trimEnd Text.trimStart
  rw [← List.reverse_append, List.takeWhile_append_dropWhile, List.reverse_reverse,
    List.takeWhile_append_dropWhile]

/-! ## Literals -/

theorem SignText.isBlank {sign : List Char} {negative : Bool} (h : SignText sign negative) :
    ∀ c ∈ sign, Text.isBlank c = false := by
  cases h <;> simp [Text.isBlank]

theorem Says.ne_nil {text : List Char} {value : ℚ} (h : Says text value) : text ≠ [] := by
  rintro rfl
  obtain ⟨literal, hread, -⟩ := h
  cases hread

theorem Says.isBlank {text : List Char} {value : ℚ} (h : Says text value) :
    ∀ c ∈ text, Text.isBlank c = false := by
  obtain ⟨literal, hread, -⟩ := h
  exact fun c hc => isBlank_of_numeral (mem_readUnsigned hread c hc)

theorem Says.ne_infinity {text : List Char} {value : ℚ} (h : Says text value) :
    text ≠ "Infinity".toList := by
  rintro rfl
  exact (h.head 'I' rfl).2.2 rfl

/-- A literal without its blanks, cut behind its sign. -/
theorem splitSign_trim {before sign body after : List Char} {negative : Bool} (hbefore : AllBlank before)
    (hafter : AllBlank after) (hsign : SignText sign negative) (hne : body ≠ [])
    (hblank : ∀ c ∈ body, isBlank c = false) (hhead : ∀ c ∈ body.head?, c ≠ '-' ∧ c ≠ '+') :
    splitSign (Text.trim (before ++ (sign ++ body ++ after))) = (negative, body) := by
  have hnonempty : sign ++ body ≠ [] := by simp [hne]
  rw [trim_blank hbefore hafter hnonempty (List.forall_mem_append.mpr ⟨hsign.isBlank, hblank⟩),
    hsign.split hhead]

/-- What is left of a literal without its blanks and its sign. -/
theorem Denotes.body {text : List Char} {v : Extended} (h : Denotes text v) :
    ∃ negative body, splitSign (Text.trim text) = (negative, body) ∧
      (body = "Infinity".toList ∧ v = Extended.infinity negative ∨
        ∃ value, Says body value ∧ v = Extended.signed negative value) := by
  cases h with
  | @decimal before sign body after negative value blank_before sign_text body_text blank_after =>
      have hnumeral := says_iff.mpr body_text
      have hhead : ∀ c ∈ body.head?, c ≠ '-' ∧ c ≠ '+' :=
        fun c hc => ⟨(hnumeral.head c hc).1, (hnumeral.head c hc).2.1⟩
      exact ⟨negative, body,
        splitSign_trim blank_before blank_after sign_text hnumeral.ne_nil hnumeral.isBlank hhead,
        Or.inr ⟨value, hnumeral, rfl⟩⟩
  | @infinity before sign after negative blank_before sign_text blank_after =>
      exact ⟨negative, _, splitSign_trim blank_before blank_after sign_text (by decide)
        (by simp [isBlank]) (by simp), Or.inl ⟨rfl, rfl⟩⟩

/-- **A literal is read** as the number to which its value is rounded. -/
theorem Denotes.read {text : List Char} {v : Extended} (h : Denotes text v) :
    ∃ x, parseNumber text = some x ∧ RoundsTo v x := by
  obtain ⟨negative, body, hbody, ⟨rfl, rfl⟩ | ⟨value, hnumeral, rfl⟩⟩ := h.body
  · refine ⟨_, ?_, .infinite negative⟩
    unfold parseNumber
    rw [hbody]
    exact if_pos rfl
  · have hinfinity := hnumeral.ne_infinity
    obtain ⟨literal, hread, rfl⟩ := hnumeral
    refine ⟨literal.value negative, ?_, roundsTo_ofDecimal _ _ _⟩
    unfold parseNumber
    rw [hbody]
    dsimp only
    rw [if_neg hinfinity, hread, Option.map_some]

/-- **A literal has one value.** -/
theorem Denotes.unique {text : List Char} {v w : Extended} (h : Denotes text v) (h' : Denotes text w) :
    v = w := by
  obtain ⟨negative, body, hbody, hvalue⟩ := h.body
  obtain ⟨negative', body', hbody', hvalue'⟩ := h'.body
  obtain ⟨rfl, rfl⟩ := Prod.mk.inj (hbody.symm.trans hbody')
  rcases hvalue with ⟨rfl, rfl⟩ | ⟨value, hnumeral, rfl⟩
  · rcases hvalue' with ⟨-, rfl⟩ | ⟨value, hnumeral, -⟩
    · rfl
    · exact absurd rfl hnumeral.ne_infinity
  · rcases hvalue' with ⟨rfl, -⟩ | ⟨value', hnumeral', rfl⟩
    · exact absurd rfl hnumeral.ne_infinity
    · rw [hnumeral.unique hnumeral']

/-- **What is read is a literal.** -/
theorem denotes_of_parseNumber {text : List Char} {x : Binary64} (h : parseNumber text = some x) :
    ∃ v, Denotes text v ∧ RoundsTo v x := by
  have hliteral : ∃ v, Denotes text v := by
    obtain ⟨before, after, hbefore, hafter, htext⟩ := exists_trim text
    obtain ⟨sign, hsign, htrim⟩ := signText_splitSign (Text.trim text)
    unfold parseNumber at h
    rw [htext, htrim]
    generalize splitSign (Text.trim text) = parts at h hsign
    obtain ⟨negative, body⟩ := parts
    dsimp only at h
    split at h
    · rename_i hinfinity
      subst hinfinity
      exact ⟨_, Denotes.infinity hbefore hsign hafter⟩
    · obtain ⟨literal, hread, -⟩ := Option.map_eq_some_iff.mp h
      exact ⟨_, .decimal hbefore hsign (says_iff.mp ⟨literal, hread, rfl⟩) hafter⟩
  obtain ⟨v, hv⟩ := hliteral
  obtain ⟨y, hread, hrounds⟩ := hv.read
  obtain rfl := Option.some.inj (h.symm.trans hread)
  exact ⟨v, hv, hrounds⟩

theorem isSome_parseNumber_iff (text : List Char) :
    (parseNumber text).isSome = true ↔ ∃ v, Denotes text v := by
  constructor
  · intro h
    obtain ⟨x, hx⟩ := Option.isSome_iff_exists.mp h
    obtain ⟨v, hv, -⟩ := denotes_of_parseNumber hx
    exact ⟨v, hv⟩
  · rintro ⟨v, hv⟩
    obtain ⟨x, hx, -⟩ := hv.read
    rw [hx]
    rfl

end DocStore.Decimal
