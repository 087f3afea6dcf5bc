import DocStore.Proofs.Json.LongerTexts

/-!
# Passing over values of longer texts

What is left behind a value that nobody asked for is left behind it in every longer text, if it is something.

## Contents
- `skipNumber_append`, `skipString_append`, `skipScalar_append`: values without brackets.
- `skipFrom_append`: the loop over the parts of a value.
- `unknownField_append`: **the value of a field that is not known**.
-/

namespace DocStore.Json.Reader

open Text (Bytes)

variable {s rest : Bytes} {rounds later : Nat}

/-! ## Scalars -/

theorem skipExponent_append (h : skipExponent s = .ok rest) (hrest : rest ≠ []) (more : Bytes) :
    skipExponent (s ++ more) = .ok (rest ++ more) := by
  unfold skipExponent at h
  split at h
  · cases h
  rename_i down b after hsign
  rw [skipExponent, exponentSign_append hsign]
  dsimp only
  split at h
  · rename_i hdigit
    cases h
    rw [if_pos hdigit, skipDigits_append hrest]
  · cases h

theorem skipOptionalExponent_append (h : skipOptionalExponent s = .ok rest) (hrest : rest ≠ [])
    (more : Bytes) : skipOptionalExponent (s ++ more) = .ok (rest ++ more) := by
  unfold skipOptionalExponent at h
  split at h
  · cases h
    exact absurd rfl hrest
  rename_i b after
  rw [List.cons_append, skipOptionalExponent]
  by_cases hletter : Byte.isExponent b = true
  · rw [if_pos hletter] at h ⊢
    exact skipExponent_append h hrest more
  · rw [if_neg hletter] at h ⊢
    cases h
    rfl

theorem skipFraction_append (h : skipFraction s = .ok rest) (hrest : rest ≠ []) (more : Bytes) :
    skipFraction (s ++ more) = .ok (rest ++ more) := by
  unfold skipFraction at h
  split at h
  · rename_i hdigit
    have hbehind : skipDigits s ≠ [] := by
      intro hnil
      rw [hnil] at h
      cases h
      exact hrest rfl
    have hs : s ≠ [] := by
      rintro rfl
      cases hdigit
    rw [skipFraction, startsWithDigit_append hs, if_pos hdigit, skipDigits_append hbehind]
    exact skipOptionalExponent_append h hrest more
  · cases h

theorem skipAfterWhole_append (h : skipAfterWhole s = .ok rest) (hrest : rest ≠ []) (more : Bytes) :
    skipAfterWhole (s ++ more) = .ok (rest ++ more) := by
  unfold skipAfterWhole at h
  split at h
  · cases h
    exact absurd rfl hrest
  rename_i b after
  rw [List.cons_append, skipAfterWhole]
  by_cases hpoint : b = Byte.point
  · rw [if_pos hpoint] at h ⊢
    exact skipFraction_append h hrest more
  · rw [if_neg hpoint] at h ⊢
    exact skipOptionalExponent_append h hrest more

theorem ne_nil_of_skipAfterWhole (h : skipAfterWhole s = .ok rest) (hrest : rest ≠ []) : s ≠ [] := by
  rintro rfl
  cases h
  exact hrest rfl

theorem skipNumber_append (h : skipNumber s = .ok rest) (hrest : rest ≠ []) (more : Bytes) :
    skipNumber (s ++ more) = .ok (rest ++ more) := by
  unfold skipNumber at h
  split at h
  · cases h
  rename_i b after
  rw [List.cons_append, skipNumber]
  split at h
  · cases h
  rename_i hdigit
  rw [if_neg hdigit]
  by_cases hzero : Byte.digitValue b = 0
  · rw [if_pos hzero] at h ⊢
    split at h
    · cases h
    rename_i hlone
    rw [startsWithDigit_append (ne_nil_of_skipAfterWhole h hrest), if_neg hlone]
    exact skipAfterWhole_append h hrest more
  · rw [if_neg hzero] at h ⊢
    rw [skipDigits_append (ne_nil_of_skipAfterWhole h hrest)]
    exact skipAfterWhole_append h hrest more

/-- A string is closed by its quote, also when it is passed over. -/
theorem skipString_append (h : skipString s = .ok rest) (more : Bytes) :
    skipString (s ++ more) = .ok (rest ++ more) := by
  have hslash : Byte.backslash ≠ Byte.quote := by decide
  fun_induction skipString s with
  | case1 => cases h
  | case2 s =>
      cases h
      rw [List.cons_append, skipString.eq_def]
      exact if_pos rfl
  | case3 => cases h
  | case4 h₁ h₂ h₃ h₄ s _ _ _ _ hv₄ hv₃ hv₂ hv₁ _ ih =>
      simpa only [List.cons_append, skipString, if_neg hslash, if_pos, hv₁, hv₂, hv₃, hv₄] using ih h
  | case5 => cases h
  | case6 => cases h
  | case7 e s hu hshort _ ih =>
      rw [List.cons_append, List.cons_append, skipString.eq_def]
      dsimp only
      rw [if_neg hslash, if_pos rfl, if_neg hu, if_pos hshort]
      exact ih h
  | case8 => cases h
  | case9 => cases h
  | case10 b s hquote hslash hcontrol ih =>
      rw [List.cons_append, skipString.eq_def]
      dsimp only
      rw [if_neg hquote, if_neg hslash, if_neg hcontrol]
      exact ih h

theorem skipScalar_append {b : UInt8} (h : skipScalar b s = .ok rest) (hrest : rest ≠ [])
    (more : Bytes) : skipScalar b (s ++ more) = .ok (rest ++ more) := by
  unfold skipScalar at h ⊢
  by_cases hnull : b = 0x6e
  · rw [if_pos hnull] at h ⊢
    exact word_append_more h more
  rw [if_neg hnull] at h ⊢
  by_cases htrue : b = 0x74
  · rw [if_pos htrue] at h ⊢
    exact word_append_more h more
  rw [if_neg htrue] at h ⊢
  by_cases hfalse : b = 0x66
  · rw [if_pos hfalse] at h ⊢
    exact word_append_more h more
  rw [if_neg hfalse] at h ⊢
  by_cases hminus : b = Byte.minus
  · rw [if_pos hminus] at h ⊢
    exact skipNumber_append h hrest more
  rw [if_neg hminus] at h ⊢
  by_cases hdigit : Byte.isDigit b = true
  · rw [if_pos hdigit] at h ⊢
    exact skipNumber_append h hrest more
  rw [if_neg hdigit] at h ⊢
  by_cases hquote : b = Byte.quote
  · rw [if_pos hquote] at h ⊢
    exact skipString_append h more
  · rw [if_neg hquote] at h
    cases h

/-! ## Brackets -/

theorem skipKey_append {bracket : Bracket} (h : bracket.skipKey s = .ok rest) (more : Bytes) :
    bracket.skipKey (s ++ more) = .ok (rest ++ more) := by
  cases bracket with
  | list =>
      cases h
      rfl
  | object =>
      unfold Bracket.skipKey at h
      dsimp only at h
      split at h
      · cases h
      rename_i b after hblanks
      split at h
      · cases h
      rename_i hquote
      split at h
      · cases h
      rename_i behind hstring
      simp only [Bracket.skipKey, skipBlanks_append hblanks, if_neg hquote, skipString_append hstring]
      exact colon_append h more

/-- At the end of the text nothing is left behind a value. -/
theorem ne_nil_of_follower {outer : List Bracket} (h : skipFrom rounds .follower outer s = .ok rest)
    (hrest : rest ≠ []) : s ≠ [] := by
  rintro rfl
  cases rounds with
  | zero => cases h
  | succ rounds =>
      cases outer with
      | nil =>
          cases h
          exact hrest rfl
      | cons bracket outer => cases h

/-- The parts that are still to come, by induction on the rounds. -/
theorem skipFrom_append (hrounds : rounds ≤ later) {awaited : Awaited} {outer : List Bracket}
    (h : skipFrom rounds awaited outer s = .ok rest) (hrest : rest ≠ []) (more : Bytes) :
    skipFrom later awaited outer (s ++ more) = .ok (rest ++ more) := by
  induction rounds generalizing later awaited outer s with
  | zero => cases h
  | succ rounds ih =>
      obtain ⟨later, rfl⟩ : ∃ n, later = n + 1 := ⟨later - 1, by omega⟩
      have hless : rounds ≤ later := Nat.le_of_succ_le_succ hrounds
      cases awaited with
      | follower =>
          cases outer with
          | nil =>
              cases h
              rfl
          | cons bracket outer =>
              rw [skipFrom] at h ⊢
              split at h
              · cases h
              rename_i b after hblanks
              rw [skipBlanks_append hblanks]
              dsimp only
              by_cases hcomma : b = Byte.comma
              · rw [if_pos hcomma] at h ⊢
                split at h
                · cases h
                rename_i behind hkey
                rw [skipKey_append hkey]
                exact ih hless h
              rw [if_neg hcomma] at h ⊢
              by_cases hclose : b = bracket.closing
              · rw [if_pos hclose] at h ⊢
                exact ih hless h
              · rw [if_neg hclose] at h
                cases h
      | value =>
          rw [skipFrom] at h ⊢
          split at h
          · cases h
          rename_i b after hblanks
          rw [skipBlanks_append hblanks]
          dsimp only
          by_cases hopen : b = Byte.openBracket ∨ b = Byte.openBrace
          · rw [if_pos hopen] at h ⊢
            dsimp only at h ⊢
            -- either bracket is passed over alike, up to the byte that closes it
            generalize (if b = Byte.openBracket then Bracket.list else Bracket.object) = bracket at h ⊢
            split at h
            · cases h
            rename_i c behind hbehind
            rw [skipBlanks_append hbehind]
            dsimp only
            by_cases hclose : c = bracket.closing
            · rw [if_pos hclose] at h ⊢
              exact ih hless h
            · rw [if_neg hclose] at h ⊢
              split at h
              · cases h
              rename_i last hkey
              rw [← List.cons_append, skipKey_append hkey]
              exact ih hless h
          · rw [if_neg hopen] at h ⊢
            split at h
            · cases h
            rename_i behind hscalar
            -- a number might go on at the end of the text, but a value in brackets does not end there
            rw [skipScalar_append hscalar (ne_nil_of_follower h hrest)]
            exact ih hless h

/-- **The value of a field that is not known** is passed over in every longer text. -/
theorem unknownField_append (hrounds : rounds ≤ later) (h : unknownField rounds s = .ok rest)
    (hrest : rest ≠ []) (more : Bytes) : unknownField later (s ++ more) = .ok (rest ++ more) := by
  unfold unknownField at h
  split at h
  · cases h
  rename_i after hcolon
  rw [unknownField, colon_append hcolon]
  exact skipFrom_append (Nat.succ_le_succ hrounds) h hrest more

end DocStore.Json.Reader
