import DocStore.Proofs.Binary64.Closest
import DocStore.Proofs.Decimal.Grammar

/-!
# Literals and their numbers

What the reader of numbers takes and what it gives, in full. Between the blanks there is a sign or none, and
behind it the word for infinity in this very spelling, or a decimal; no other text is a number. The word is
read as infinity with the sign, and a decimal as the number closest to its exact value, whatever the length
of its digits and the size of its exponent.

## Contents
- `SpellsNumber`: what may stand behind the sign of a literal, with the number it is read as.
- `parseNumber_eq_some_iff`: **which texts are read as which numbers**.
- `parseNumber_exact`: **the grammar and the meaning of literals**.
-/

namespace DocStore.Decimal

open Binary64 (CorrectlyRounded infinity zero)

variable {text sign body : List Char} {negative : Bool} {value : ℚ} {x : Binary64}

/-- What may stand behind the sign of a literal, with the number it is read as. -/
inductive SpellsNumber (negative : Bool) : List Char → Binary64 → Prop
  | infinity : SpellsNumber negative "Infinity".toList (infinity negative)
  | decimal {body : List Char} {value : ℚ} {x : Binary64} (body_text : DecimalText body value)
      (rounded : CorrectlyRounded negative value x) : SpellsNumber negative body x

/-- A number has one sign only. -/
theorem SpellsNumber.head (h : SpellsNumber negative body x) : ∀ c ∈ body.head?, c ≠ '-' ∧ c ≠ '+' := by
  cases h with
  | infinity => simp
  | decimal body_text rounded =>
      intro c hc
      have hhead := (says_iff.mpr body_text).head c hc
      exact ⟨hhead.1, hhead.2.1⟩

/-- What is read behind a sign. -/
theorem parseNumber_of_split (hsplit : splitSign (Text.trim text) = (negative, body)) :
    parseNumber text = some x ↔ SpellsNumber negative body x := by
  unfold parseNumber
  rw [hsplit]
  dsimp only
  constructor
  · intro h
    split at h
    · rename_i hinfinity
      obtain rfl := Option.some.inj h
      exact hinfinity ▸ .infinity
    · obtain ⟨literal, hread, rfl⟩ := Option.map_eq_some_iff.mp h
      exact .decimal (says_iff.mp ⟨literal, hread, rfl⟩) (Binary64.correctlyRounded_ofDecimal _ _ _)
  · intro h
    cases h with
    | infinity => exact if_pos rfl
    | decimal body_text rounded =>
        have hsays := says_iff.mpr body_text
        have hinfinity := hsays.ne_infinity
        obtain ⟨literal, hread, rfl⟩ := hsays
        rw [if_neg hinfinity, hread, Option.map_some,
          rounded.unique (Binary64.correctlyRounded_ofDecimal _ _ _)]
        rfl

/-- **Which texts are read as which numbers.** -/
theorem parseNumber_eq_some_iff :
    parseNumber text = some x ↔
      ∃ sign body negative, Text.trim text = sign ++ body ∧ SignText sign negative ∧
        SpellsNumber negative body x := by
  constructor
  · intro h
    obtain ⟨sign, hsign, htrim⟩ := signText_splitSign (Text.trim text)
    exact ⟨sign, _, _, htrim, hsign, (parseNumber_of_split rfl).mp h⟩
  · rintro ⟨sign, body, negative, htrim, hsign, hspells⟩
    refine (parseNumber_of_split ?_).mpr hspells
    rw [htrim, hsign.split hspells.head]

/-- Every decimal is rounded to a number. -/
theorem exists_correctlyRounded (negative : Bool) (h : DecimalText body value) :
    ∃ x, CorrectlyRounded negative value x := by
  obtain ⟨literal, -, rfl⟩ := says_iff.mpr h
  exact ⟨_, Binary64.correctlyRounded_ofDecimal negative _ _⟩

theorem SpellsNumber.isNaN (h : SpellsNumber negative body x) : x.isNaN = false := by
  cases h with
  | infinity => rfl
  | decimal body_text rounded => exact rounded.number

/-- **The grammar and the meaning of literals.** A text is a number exactly if, without the blanks around it,
    it is a sign or none before the word for infinity or a decimal. The word is read as infinity with that
    sign. A decimal is read as the finite number with that sign closest to its exact value, of two such
    numbers as the one with the even code; from the midpoint above the largest finite number on it is read
    as infinity, and up to the midpoint above zero as zero. No text is read as a value that is no number. -/
theorem parseNumber_exact (text : List Char) :
    ((parseNumber text).isSome = true ↔
      ∃ sign body negative, Text.trim text = sign ++ body ∧ SignText sign negative ∧
        (body = "Infinity".toList ∨ ∃ value, DecimalText body value)) ∧
    (∀ sign body negative, Text.trim text = sign ++ body → SignText sign negative →
      (body = "Infinity".toList → parseNumber text = some (infinity negative)) ∧
      ∀ value, DecimalText body value →
        ∃ x, parseNumber text = some x ∧ CorrectlyRounded negative value x ∧
          (∀ y, CorrectlyRounded negative value y → y = x) ∧
          (x = infinity negative ↔ 2 ^ 1024 - 2 ^ 970 ≤ value) ∧
          (x = zero negative ↔ value ≤ 1 / 2 ^ 1075)) ∧
    ∀ x, parseNumber text = some x → x.isNaN = false := by
  refine ⟨⟨?_, ?_⟩, ?_, ?_⟩
  · intro h
    obtain ⟨x, hx⟩ := Option.isSome_iff_exists.mp h
    obtain ⟨sign, body, negative, htrim, hsign, hspells⟩ := parseNumber_eq_some_iff.mp hx
    refine ⟨sign, body, negative, htrim, hsign, ?_⟩
    cases hspells with
    | infinity => exact Or.inl rfl
    | decimal body_text rounded => exact Or.inr ⟨_, body_text⟩
  · rintro ⟨sign, body, negative, htrim, hsign, hbody⟩
    obtain ⟨x, hspells⟩ : ∃ x, SpellsNumber negative body x := by
      rcases hbody with rfl | ⟨value, hvalue⟩
      · exact ⟨_, .infinity⟩
      · obtain ⟨x, hx⟩ := exists_correctlyRounded negative hvalue
        exact ⟨x, .decimal hvalue hx⟩
    exact Option.isSome_iff_exists.mpr
      ⟨x, parseNumber_eq_some_iff.mpr ⟨sign, body, negative, htrim, hsign, hspells⟩⟩
  · intro sign body negative htrim hsign
    constructor
    · rintro rfl
      exact parseNumber_eq_some_iff.mpr ⟨sign, _, negative, htrim, hsign, .infinity⟩
    · intro value hvalue
      obtain ⟨x, hx⟩ := exists_correctlyRounded negative hvalue
      exact ⟨x, parseNumber_eq_some_iff.mpr ⟨sign, body, negative, htrim, hsign, .decimal hvalue hx⟩, hx,
        fun y hy => hy.unique hx, hx.eq_infinity_iff, hx.eq_zero_iff⟩
  · intro x hx
    obtain ⟨sign, body, negative, -, -, hspells⟩ := parseNumber_eq_some_iff.mp hx
    exact hspells.isNaN

end DocStore.Decimal
