import DocStore.Proofs.Json.Remainders
import DocStore.Proofs.Json.Scanning

/-!
# Words, numbers and strings of longer texts

What a reader has made of a text stands when more bytes follow: it makes the same of the longer text and
leaves the same bytes in front of those that were added. A number is the exception, because digits at the end
of a text may go on, so a reader that ends with one needs a byte that ends it. Whatever is closed by a byte of
its own, such as a string, needs none.

## Contents
- `Settles`, `Continues`: readers that make the same of a longer text, always or behind a byte that is left.
- `skipBlanks_append`, `word_append_more`: blanks and words.
- `number_continues`: **numbers**.
- `string_settles`: **strings**.
- `scalar_continues`: values that are neither arrays nor objects.
-/

namespace DocStore.Json.Reader

open Text (Bytes)

variable {α σ : Type} {s rest : Bytes}

/-- Whether the answer of a reader for a text is the answer of another one for every longer text. -/
def Settles (reader later : Bytes → Result α) : Prop :=
  ∀ s value rest, reader s = .ok (value, rest) → ∀ more, later (s ++ more) = .ok (value, rest ++ more)

/-- Whether the answer of a reader for a text, if something is left of it, is the answer of another one for
    every longer text. -/
def Continues (reader later : Bytes → Result α) : Prop :=
  ∀ s value rest, reader s = .ok (value, rest) → rest ≠ [] → ∀ more,
    later (s ++ more) = .ok (value, rest ++ more)

theorem Settles.continues {reader later : Bytes → Result α} (h : Settles reader later) :
    Continues reader later :=
  fun s value rest hread _ => h s value rest hread

/-- What is made of the answer of a reader for a text is made of its answer for a longer one. -/
theorem map_append {β : Type} {result later : Result α} {f : α → β} {value : β} {more : Bytes}
    (h : (result.map fun (x, rest) => (f x, rest)) = .ok (value, rest))
    (hlater : ∀ x, result = .ok (x, rest) → later = .ok (x, rest ++ more)) :
    (later.map fun (x, rest) => (f x, rest)) = .ok (value, rest ++ more) := by
  obtain ⟨⟨x, after⟩, hread, hvalue⟩ := eq_ok_of_map h
  cases hvalue
  rw [hlater x hread]
  rfl

/-! ## Blanks and words -/

/-- The first byte behind white space stays the first one. -/
theorem skipBlanks_append {b : UInt8} (h : skipBlanks s = b :: rest) (more : Bytes) :
    skipBlanks (s ++ more) = b :: (rest ++ more) := by
  induction s with
  | nil => cases h
  | cons c s ih =>
      rw [skipBlanks] at h
      rw [List.cons_append, skipBlanks]
      split at h
      · rename_i hc
        rw [if_pos hc, ih h]
      · rename_i hc
        cases h
        rw [if_neg hc]

theorem word_append_more {expected : Bytes} (h : word expected s = .ok rest) (more : Bytes) :
    word expected (s ++ more) = .ok (rest ++ more) := by
  induction expected generalizing s with
  | nil =>
      cases h
      rfl
  | cons e expected ih =>
      cases s with
      | nil => cases h
      | cons b s =>
          rw [word] at h
          rw [List.cons_append, word]
          split at h
          · rename_i hb
            rw [if_pos hb, ih h]
          · cases h

/-- A word that stands for a value. -/
theorem map_word_append {value result : α} {expected : Bytes}
    (h : (word expected s).map (value, ·) = .ok (result, rest)) (more : Bytes) :
    (word expected (s ++ more)).map (value, ·) = .ok (result, rest ++ more) := by
  obtain ⟨after, hword, hvalue⟩ := eq_ok_of_map h
  cases hvalue
  rw [word_append_more hword]
  rfl

/-! ## Numbers -/

/-- A run of digits that something follows is the same run in a longer text. -/
theorem skipDigits_append (h : skipDigits s ≠ []) (more : Bytes) :
    skipDigits (s ++ more) = skipDigits s ++ more := by
  induction s with
  | nil => exact absurd rfl h
  | cons b s ih =>
      rw [skipDigits] at h
      rw [List.cons_append, skipDigits, skipDigits]
      split at h
      · rename_i hb
        rw [if_pos hb, if_pos hb, ih h]
      · rename_i hb
        rw [if_neg hb, if_neg hb, List.cons_append]

theorem gatherWhole_append {significand dropped gathered count : Nat}
    (h : gatherWhole significand dropped s = (gathered, count, rest)) (hrest : rest ≠ []) (more : Bytes) :
    gatherWhole significand dropped (s ++ more) = (gathered, count, rest ++ more) := by
  fun_induction gatherWhole significand dropped s with
  | case1 =>
      cases h
      exact absurd rfl hrest
  | case2 significand dropped b s hb longer hfits ih =>
      rw [List.cons_append, gatherWhole, if_pos hb]
      exact (if_pos hfits).trans (ih h)
  | case3 significand dropped b s hb longer hfits ih =>
      rw [List.cons_append, gatherWhole, if_pos hb]
      exact (if_neg hfits).trans (ih h)
  | case4 significand dropped b s hb =>
      cases h
      simp only [List.cons_append, gatherWhole, if_neg hb]

theorem gatherFraction_append {significand taken gathered count : Nat}
    (h : gatherFraction significand taken s = (gathered, count, rest)) (hrest : rest ≠ []) (more : Bytes) :
    gatherFraction significand taken (s ++ more) = (gathered, count, rest ++ more) := by
  fun_induction gatherFraction significand taken s with
  | case1 =>
      cases h
      exact absurd rfl hrest
  | case2 significand taken b s hb longer hfits ih =>
      rw [List.cons_append, gatherFraction, if_pos hb]
      exact (if_pos hfits).trans (ih h)
  | case3 significand taken b s hb longer hfits =>
      cases h
      rw [List.cons_append, gatherFraction, if_pos hb, skipDigits_append hrest]
      exact if_neg hfits
  | case4 significand taken b s hb =>
      cases h
      simp only [List.cons_append, gatherFraction, if_neg hb]

theorem gatherExponent_append {exponent gathered : Nat}
    (h : gatherExponent exponent s = .ok (gathered, rest)) (hrest : rest ≠ []) (more : Bytes) :
    gatherExponent exponent (s ++ more) = .ok (gathered, rest ++ more) := by
  fun_induction gatherExponent exponent s with
  | case1 =>
      cases h
      exact absurd rfl hrest
  | case2 exponent b s hb longer hfits ih =>
      rw [List.cons_append, gatherExponent, if_pos hb]
      exact (if_pos hfits).trans (ih h)
  | case3 => cases h
  | case4 exponent b s hb =>
      cases h
      simp only [List.cons_append, gatherExponent, if_neg hb]

/-- A digit that is too many is too many in a longer text. -/
theorem gatherExponent_append_error {exponent : Nat} (h : gatherExponent exponent s = .error rest)
    (more : Bytes) : gatherExponent exponent (s ++ more) = .error (rest ++ more) := by
  fun_induction gatherExponent exponent s with
  | case1 => cases h
  | case2 exponent b s hb longer hfits ih =>
      rw [List.cons_append, gatherExponent, if_pos hb]
      exact (if_pos hfits).trans (ih h)
  | case3 exponent b s hb longer hfits =>
      cases h
      rw [List.cons_append, gatherExponent, if_pos hb]
      exact if_neg hfits
  | case4 => cases h

theorem exponentSign_append {down : Bool} {b : UInt8} (h : exponentSign s = (down, b :: rest))
    (more : Bytes) : exponentSign (s ++ more) = (down, b :: (rest ++ more)) := by
  unfold exponentSign at h
  split at h
  · cases h
  rename_i c after
  rw [List.cons_append, exponentSign]
  split at h
  · rename_i hminus
    rw [if_pos hminus]
    cases h
    rfl
  split at h
  · rename_i hminus hplus
    rw [if_neg hminus, if_pos hplus]
    cases h
    rfl
  · rename_i hminus hplus
    rw [if_neg hminus, if_neg hplus]
    cases h
    rfl

section Numbers

variable {negative : Bool} {significand dropped : Nat} {exponent : Int} {n : Number}

/-- What stands behind a number does not matter to it. -/
theorem finishNumber_append (h : finishNumber negative significand exponent s = .ok (n, rest))
    (more : Bytes) : finishNumber negative significand exponent (s ++ more) = .ok (n, rest ++ more) := by
  unfold finishNumber at h ⊢
  split at h
  · cases h
  split at h
  · rename_i hfinite
    cases h
    exact dif_pos hfinite
  · cases h

theorem wholeNumber_append (h : wholeNumber negative significand s = .ok (n, rest)) (more : Bytes) :
    wholeNumber negative significand (s ++ more) = .ok (n, rest ++ more) := by
  unfold wholeNumber at h ⊢
  by_cases hsign : negative = true
  · rw [if_pos hsign] at h ⊢
    split at h
    · rename_i hfits
      cases h
      exact dif_pos hfits
    · rename_i hfits
      rw [dif_neg hfits]
      exact finishNumber_append h more
  · rw [if_neg hsign] at h ⊢
    split at h
    · rename_i hfits
      cases h
      exact dif_pos hfits
    · rename_i hfits
      rw [dif_neg hfits]
      exact finishNumber_append h more

theorem exponentPart_continues : Continues (exponentPart negative significand exponent)
    (exponentPart negative significand exponent) := by
  intro s n rest h hrest more
  unfold exponentPart at h
  split at h
  · cases h
  rename_i down b after hsign
  split at h
  · cases h
  rename_i hdigit
  rw [exponentPart, exponentSign_append hsign]
  dsimp only
  rw [if_neg hdigit]
  split at h
  · rename_i gathered behind hgather
    have hbehind := finishNumber_rest h
    rw [gatherExponent_append hgather (hbehind ▸ hrest)]
    exact finishNumber_append h more
  · rename_i behind hgather
    rw [gatherExponent_append_error hgather]
    dsimp only
    split at h
    · cases h
    · rename_i hbounds
      have hbehind := finishNumber_rest h
      rw [if_neg hbounds, skipDigits_append (hbehind ▸ hrest)]
      exact finishNumber_append h more

theorem optionalExponent_continues : Continues (optionalExponent negative significand exponent)
    (optionalExponent negative significand exponent) := by
  intro s n rest h hrest more
  unfold optionalExponent at h
  split at h
  · exact absurd (finishNumber_rest h) hrest
  rename_i b after
  rw [List.cons_append, optionalExponent]
  split at h
  · rename_i hletter
    rw [if_pos hletter]
    exact exponentPart_continues _ _ _ h hrest more
  · rename_i hletter
    rw [if_neg hletter]
    exact finishNumber_append h more

theorem fractionPart_continues : Continues (fractionPart negative significand exponent)
    (fractionPart negative significand exponent) := by
  intro s n rest h hrest more
  unfold fractionPart at h
  split at h
  · cases h
  rename_i b after
  split at h
  · cases h
  rename_i hdigit
  dsimp only at h
  rw [List.cons_append, fractionPart, if_neg hdigit]
  dsimp only
  generalize hgather : gatherFraction significand 0 (b :: after) = gathered at h
  obtain ⟨digits, taken, behind⟩ := gathered
  -- what is left of the number is an end of what is left behind the digits
  have hbehind : behind ≠ [] := (optionalExponent_suffix h).ne_nil hrest
  rw [← List.cons_append, gatherFraction_append hgather hbehind]
  exact optionalExponent_continues _ _ _ h hrest more

theorem afterWhole_continues :
    Continues (afterWhole negative significand dropped) (afterWhole negative significand dropped) := by
  intro s n rest h hrest more
  unfold afterWhole at h
  split at h
  · split at h
    · exact absurd (wholeNumber_rest h) hrest
    · exact absurd (finishNumber_rest h) hrest
  rename_i b after
  rw [List.cons_append, afterWhole]
  split at h
  · rename_i hpoint
    rw [if_pos hpoint]
    exact fractionPart_continues _ _ _ h hrest more
  rename_i hpoint
  rw [if_neg hpoint]
  split at h
  · rename_i hletter
    rw [if_pos hletter]
    exact exponentPart_continues _ _ _ h hrest more
  rename_i hletter
  rw [if_neg hletter]
  split at h
  · rename_i hall
    rw [if_pos hall]
    exact wholeNumber_append h more
  · rename_i hall
    rw [if_neg hall]
    exact finishNumber_append h more

theorem startsWithDigit_append (h : s ≠ []) (more : Bytes) :
    startsWithDigit (s ++ more) = startsWithDigit s := by
  cases s with
  | nil => exact absurd rfl h
  | cons b s => rfl

/-- **A number** that something follows is the same number in a longer text. -/
theorem number_continues (negative : Bool) : Continues (number negative) (number negative) := by
  intro s n rest h hrest more
  unfold number at h
  split at h
  · cases h
  rename_i b after
  split at h
  · cases h
  rename_i hdigit
  rw [List.cons_append, number, if_neg hdigit]
  dsimp only at h ⊢
  split at h
  · rename_i hzero
    rw [if_pos hzero]
    split at h
    · cases h
    rename_i hlone
    have hafter : after ≠ [] := (afterWhole_suffix h).ne_nil hrest
    rw [startsWithDigit_append hafter, if_neg hlone]
    exact afterWhole_continues _ _ _ h hrest more
  · rename_i hzero
    rw [if_neg hzero]
    generalize hgather : gatherWhole (Byte.digitValue b) 0 after = gathered at h
    obtain ⟨digits, dropped, behind⟩ := gathered
    have hbehind : behind ≠ [] := (afterWhole_suffix h).ne_nil hrest
    rw [gatherWhole_append hgather hbehind]
    exact afterWhole_continues _ _ _ h hrest more

end Numbers

/-! ## Strings -/

theorem hexDigits_settles : Settles hexDigits hexDigits := by
  intro s n rest h more
  unfold hexDigits at h
  split at h
  · rename_i a b c d after
    split at h
    · rename_i ha hb hc hd
      cases h
      simp only [List.cons_append, hexDigits, ha, hb, hc, hd]
    · cases h
  · cases h

theorem trailingSurrogate_settles (leading : Nat) :
    Settles (trailingSurrogate leading) (trailingSurrogate leading) := by
  intro s c rest h more
  unfold trailingSurrogate at h
  split at h
  · cases h
  rename_i b after
  split at h
  · cases h
  rename_i hslash
  split at h
  · cases h
  rename_i u behind
  split at h
  · cases h
  rename_i hu
  split at h
  · cases h
  rename_i trailing last hdigits
  rw [List.cons_append, List.cons_append, trailingSurrogate, if_neg hslash]
  rw [if_neg hu, hexDigits_settles _ _ _ hdigits]
  dsimp only
  split at h
  · rename_i hrange
    simp only [Except.ok.injEq, Prod.mk.injEq] at h
    obtain ⟨rfl, rfl⟩ := h
    exact if_pos hrange
  · cases h

theorem unicodeEscape_settles : Settles unicodeEscape unicodeEscape := by
  intro s c rest h more
  unfold unicodeEscape at h
  split at h
  · cases h
  rename_i n after hdigits
  rw [unicodeEscape, hexDigits_settles _ _ _ hdigits]
  dsimp only
  split at h
  · cases h
  rename_i hlow
  rw [if_neg hlow]
  by_cases hhigh : 0xD800 ≤ n ∧ n ≤ 0xDBFF
  · rw [if_pos hhigh] at h ⊢
    exact trailingSurrogate_settles n _ _ _ h more
  · rw [if_neg hhigh] at h ⊢
    simp only [Except.ok.injEq, Prod.mk.injEq] at h
    obtain ⟨rfl, rfl⟩ := h
    rfl

theorem escape_settles : Settles escape escape := by
  intro s c rest h more
  unfold escape at h
  split at h
  · cases h
  rename_i b after
  rw [List.cons_append, escape]
  by_cases hu : b = 0x75
  · rw [if_pos hu] at h ⊢
    exact unicodeEscape_settles _ _ _ h more
  · rw [if_neg hu] at h ⊢
    cases hshort : shortEscape b with
    | none =>
        rw [hshort] at h
        cases h
    | some short =>
        rw [hshort] at h
        cases h
        rfl

theorem stringBytes_settles (seen : Bytes) : Settles (stringBytes seen) (stringBytes seen) := by
  intro s bytes rest h more
  fun_induction stringBytes seen s with
  | case1 => cases h
  | case2 seen s =>
      cases h
      rw [List.cons_append, stringBytes, if_pos rfl]
  | case3 => cases h
  | case4 seen s _ c hescape after _ ih =>
      rw [List.cons_append, stringBytes_escape (escape_settles _ _ _ hescape more)]
      exact ih h
  | case5 => cases h
  | case6 seen b s hquote hslash hcontrol ih =>
      rw [List.cons_append, stringBytes_plain hquote hslash (by simpa using hcontrol)]
      exact ih h

/-- **A string** is closed by its quote, whatever follows. -/
theorem string_settles : Settles string string := by
  intro s value rest h more
  unfold string at h
  split at h
  · cases h
  rename_i bytes after hbytes
  split at h
  · rename_i text htext
    cases h
    simp only [string, stringBytes_settles [] _ _ _ hbytes more, htext]
  · cases h

/-! ## Scalars -/

theorem scalar_continues (b : UInt8) : Continues (scalar b) (scalar b) := by
  intro s value rest h hrest more
  unfold scalar at h ⊢
  by_cases hnull : b = 0x6e
  · rw [if_pos hnull] at h ⊢
    exact map_word_append h more
  rw [if_neg hnull] at h ⊢
  by_cases htrue : b = 0x74
  · rw [if_pos htrue] at h ⊢
    exact map_word_append h more
  rw [if_neg htrue] at h ⊢
  by_cases hfalse : b = 0x66
  · rw [if_pos hfalse] at h ⊢
    exact map_word_append h more
  rw [if_neg hfalse] at h ⊢
  by_cases hminus : b = Byte.minus
  · rw [if_pos hminus] at h ⊢
    exact map_append h fun n hread => number_continues true _ _ _ hread hrest more
  rw [if_neg hminus] at h ⊢
  by_cases hdigit : Byte.isDigit b = true
  · rw [if_pos hdigit] at h ⊢
    exact map_append h fun n hread => number_continues false _ _ _ hread hrest more
  rw [if_neg hdigit] at h ⊢
  by_cases hquote : b = Byte.quote
  · rw [if_pos hquote] at h ⊢
    exact map_append h fun text hread => string_settles _ _ _ hread more
  · rw [if_neg hquote] at h
    cases h

end DocStore.Json.Reader
