import DocStore.Proofs.Decimal.Texts
import Mathlib.Data.List.TakeWhile

/-!
# The characters of number texts

Number texts are written with few characters, and literals are read from the same few. So a text with any
other character is no literal, and no number text holds a blank.

## Contents
- `isNumeral`: the characters.
- `mem_magnitude`, `mem_code`, `mem_finite`, `mem_intText`: what is written.
- `mem_readUnsigned`, `parseNumber_eq_none`: what is read.
-/

namespace DocStore

/-- A text without blanks has none at its ends. -/
theorem Text.trim_eq_self {text : List Char} (h : ∀ c ∈ text, Text.isBlank c = false) :
    Text.trim text = text := by
  have hstart : ∀ text : List Char, (∀ c ∈ text, Text.isBlank c = false) →
      text.dropWhile Text.isBlank = text := by
    intro text htext
    cases text with
    | nil => rfl
    | cons c text => exact List.dropWhile_cons_of_neg (by simp [htext c List.mem_cons_self])
  unfold Text.trim Text.trimStart Text.trimEnd
  rw [hstart text h, hstart text.reverse fun c hc => h c (List.mem_reverse.mp hc), List.reverse_reverse]

/-- A character that is no blank is kept. -/
theorem Text.mem_trim {text : List Char} {c : Char} (hc : c ∈ text) (hblank : Text.isBlank c = false) :
    c ∈ Text.trim text := by
  have hdrop : ∀ text : List Char, c ∈ text → c ∈ text.dropWhile Text.isBlank := by
    intro text hmem
    rw [← List.takeWhile_append_dropWhile (p := Text.isBlank) (l := text)] at hmem
    rcases List.mem_append.mp hmem with htake | hkept
    · rw [List.mem_takeWhile_imp htake] at hblank
      cases hblank
    · exact hkept
  unfold Text.trim Text.trimEnd Text.trimStart
  exact List.mem_reverse.mpr (hdrop _ (List.mem_reverse.mpr (hdrop text hc)))

namespace Decimal

/-- Whether a character may stand in a number text that is neither infinite nor no number. -/
def isNumeral (c : Char) : Bool :=
  isDigit c || c == '.' || c == 'e' || c == 'E' || c == '+' || c == '-'

theorem isNumeral_of_digit {c : Char} (h : isDigit c = true) : isNumeral c = true := by
  simp [isNumeral, h]

theorem isBlank_of_numeral {c : Char} (h : isNumeral c = true) : Text.isBlank c = false := by
  simp only [isNumeral, Bool.or_eq_true, beq_iff_eq] at h
  rcases h with ((((hdigit | rfl) | rfl) | rfl) | rfl) | rfl
  · obtain ⟨hlow, hhigh⟩ : 48 ≤ c.toNat ∧ c.toNat ≤ 57 := by
      simpa [isDigit, Char.le_def, UInt32.le_iff_toNat_le] using hdigit
    simp [Text.isBlank]
    omega
  · decide
  · decide
  · decide
  · decide
  · decide

/-! ## Written texts -/

section Written

variable {ds : List Char}

theorem mem_replicate_zero (n : Nat) : ∀ c ∈ List.replicate n '0', isNumeral c = true := by
  intro c hc
  rw [List.eq_of_mem_replicate hc]
  rfl

theorem mem_digits_numeral (n : Nat) : ∀ c ∈ digits n, isNumeral c = true :=
  fun c hc => isNumeral_of_digit (mem_digits c hc)

theorem mem_intText (value : Int) : ∀ c ∈ intText value, isNumeral c = true := by
  unfold intText
  split
  · exact List.forall_mem_cons.mpr ⟨rfl, mem_digits_numeral _⟩
  · exact mem_digits_numeral _

theorem mem_scientific (hds : ∀ c ∈ ds, isNumeral c = true) (exponent : Int) :
    ∀ c ∈ scientific ds exponent, isNumeral c = true := by
  have hfraction : ∀ c ∈ ds.drop 1, isNumeral c = true := fun c hc => hds c (List.mem_of_mem_drop hc)
  unfold scientific
  refine List.forall_mem_append.mpr ⟨List.forall_mem_append.mpr ⟨?_, ?_⟩, ?_⟩
  · exact fun c hc => hds c (List.mem_of_mem_take hc)
  · split
    · exact List.forall_mem_nil _
    · exact List.forall_mem_cons.mpr ⟨rfl, hfraction⟩
  · refine List.forall_mem_cons.mpr ⟨rfl, List.forall_mem_cons.mpr ⟨?_, mem_digits_numeral _⟩⟩
    split
    · rfl
    · rfl

theorem mem_magnitude {layout : Layout} (hmark : ∀ c ∈ layout.wholeMark, isNumeral c = true)
    (hds : ∀ c ∈ ds, isNumeral c = true) (point : Int) :
    ∀ c ∈ layout.magnitude ds point, isNumeral c = true := by
  unfold Layout.magnitude
  split
  · exact mem_scientific hds _
  split
  · refine List.forall_mem_cons.mpr ⟨rfl, List.forall_mem_cons.mpr ⟨rfl, ?_⟩⟩
    exact List.forall_mem_append.mpr ⟨mem_replicate_zero _, hds⟩
  split
  · refine List.forall_mem_append.mpr ⟨?_, List.forall_mem_cons.mpr ⟨rfl, ?_⟩⟩
    · exact fun c hc => hds c (List.mem_of_mem_take hc)
    · exact fun c hc => hds c (List.mem_of_mem_drop hc)
  · refine List.forall_mem_append.mpr ⟨List.forall_mem_append.mpr ⟨hds, ?_⟩, hmark⟩
    exact mem_replicate_zero _

theorem mem_code {layout : Layout} (hmark : ∀ c ∈ layout.wholeMark, isNumeral c = true) (code : Nat) :
    ∀ c ∈ layout.code code, isNumeral c = true := by
  unfold Layout.code
  split
  · exact List.forall_mem_cons.mpr ⟨rfl, hmark⟩
  · exact mem_magnitude hmark (mem_digits_numeral _) _

/-- A finite number is written with these characters. -/
theorem mem_finite {layout : Layout} (hmark : ∀ c ∈ layout.wholeMark, isNumeral c = true)
    (x : Binary64) : ∀ c ∈ layout.finite x, isNumeral c = true := by
  unfold Layout.finite
  split
  · exact List.forall_mem_cons.mpr ⟨rfl, mem_code hmark _⟩
  · exact mem_code hmark _

end Written

/-! ## Literals -/

theorem mem_takeWhile_digit (text : List Char) : ∀ c ∈ text.takeWhile isDigit, isNumeral c = true :=
  fun _ hc => isNumeral_of_digit (List.mem_takeWhile_imp hc)

theorem mem_splitSign {text : List Char} {c : Char} (h : c ∈ text) :
    c ∈ (splitSign text).2 ∨ isNumeral c = true := by
  unfold splitSign
  split
  · rcases List.mem_cons.mp h with rfl | h
    · exact Or.inr rfl
    · exact Or.inl h
  · rcases List.mem_cons.mp h with rfl | h
    · exact Or.inr rfl
    · exact Or.inl h
  · exact Or.inl h

theorem mem_readExponent {text : List Char} {exponent : Int} (h : readExponent text = some exponent) :
    ∀ c ∈ text, isNumeral c = true := by
  unfold readExponent at h
  split at h
  · exact List.forall_mem_nil _
  · rename_i letter rest
    split at h
    · rename_i hletter
      dsimp only at h
      split at h
      · cases h
      · rename_i hdigits
        simp only [Bool.or_eq_true, Bool.not_eq_true', not_or] at hdigits
        have hall : ∀ c ∈ (splitSign rest).2, isDigit c = true :=
          List.all_eq_true.mp (by simpa using hdigits.2)
        refine List.forall_mem_cons.mpr ⟨?_, ?_⟩
        · rcases hletter with rfl | rfl
          · rfl
          · rfl
        · intro c hc
          rcases mem_splitSign hc with hc | hc
          · exact isNumeral_of_digit (hall c hc)
          · exact hc
    · cases h

theorem forall_mem_dropWhile {text : List Char} (h : ∀ c ∈ text.dropWhile isDigit, isNumeral c = true) :
    ∀ c ∈ text, isNumeral c = true := by
  rw [← List.takeWhile_append_dropWhile (p := isDigit) (l := text)]
  exact List.forall_mem_append.mpr ⟨mem_takeWhile_digit text, h⟩

theorem mem_readUnsigned {text : List Char} {literal : Unsigned}
    (h : readUnsigned text = some literal) : ∀ c ∈ text, isNumeral c = true := by
  apply forall_mem_dropWhile
  unfold readUnsigned at h
  -- behind the digits there may be a point with more digits
  generalize text.dropWhile isDigit = rest at h ⊢
  dsimp only at h
  split at h
  · split at h
    · cases h
    · obtain ⟨exponent, hexponent, -⟩ := Option.map_eq_some_iff.mp h
      refine List.forall_mem_cons.mpr ⟨rfl, ?_⟩
      exact forall_mem_dropWhile (mem_readExponent hexponent)
  · split at h
    · cases h
    · obtain ⟨exponent, hexponent, -⟩ := Option.map_eq_some_iff.mp h
      exact mem_readExponent hexponent

/-- A text with another character, blanks apart, is no number. -/
theorem parseNumber_eq_none {text : List Char} {c : Char} (hc : c ∈ text)
    (hblank : Text.isBlank c = false) (hnumeral : isNumeral c = false)
    (hletter : c ∉ "Infinity".toList) : parseNumber text = none := by
  have htrim := Text.mem_trim hc hblank
  unfold parseNumber
  dsimp only
  -- the character is behind the sign
  have hbody : c ∈ (splitSign (Text.trim text)).2 := by
    rcases mem_splitSign htrim with hc | hc
    · exact hc
    · rw [hnumeral] at hc
      cases hc
  split
  · rename_i hinfinity
    rw [hinfinity] at hbody
    exact absurd hbody hletter
  · cases hread : readUnsigned (splitSign (Text.trim text)).2 with
    | none => rfl
    | some literal =>
        rw [mem_readUnsigned hread c hbody] at hnumeral
        cases hnumeral

end Decimal

end DocStore
