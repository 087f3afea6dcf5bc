import DocStore.Json.Decoder

/-!
# What a reader leaves

A reader takes bytes off the front of what it is given, and what it leaves is the end of it. So the bracket
that an object is closed with is a byte of the text, and nothing but white space stands behind it.

## Contents
- `Trims`: readers that leave an end of what they are given.
- `gatherWhole_suffix`, `number_suffix`, `stringBytes_suffix`, `scalar_trims`: the parts that hold no other
  values.
- `elements_suffix`, `members_suffix`: the loops.
- `value_trims`: **what is left behind a value**.
- `parseObject_last`: **the last byte of the text of an object**.
-/

namespace DocStore.Json.Reader

open Text (Bytes)

variable {α σ : Type} {s rest : Bytes}

/-- Whether a reader leaves an end of what it is given. -/
def Trims (reader : Bytes → Result α) : Prop :=
  ∀ s value rest, reader s = .ok (value, rest) → rest <:+ s

/-- What was made of what was read leaves as much. -/
theorem suffix_of_map {β : Type} {result : Result α} {f : α → β} {value : β}
    (h : (result.map fun (x, rest) => (f x, rest)) = .ok (value, rest))
    (hresult : ∀ x rest, result = .ok (x, rest) → rest <:+ s) : rest <:+ s := by
  cases hread : result with
  | error fault =>
      rw [hread] at h
      cases h
  | ok answer =>
      rw [hread] at h
      cases h
      exact hresult _ _ hread

theorem eq_ok_of_map {ε β : Type} {result : Except ε α} {f : α → β} {value : β}
    (h : result.map f = .ok value) : ∃ x, result = .ok x ∧ f x = value := by
  cases result with
  | error e => cases h
  | ok x => exact ⟨x, rfl, Except.ok.inj h⟩

/-! ## Blanks and words -/

theorem skipBlanks_suffix (s : Bytes) : skipBlanks s <:+ s := by
  induction s with
  | nil => exact List.suffix_refl _
  | cons b s ih =>
      rw [skipBlanks]
      split
      · exact ih.trans (List.suffix_cons b s)
      · exact List.suffix_refl _

/-- What stands behind white space, if there is anything. -/
theorem suffix_of_skipBlanks {b : UInt8} (h : skipBlanks s = b :: rest) : rest <:+ s :=
  (List.suffix_cons b rest).trans (h ▸ skipBlanks_suffix s)

theorem word_suffix {expected : Bytes} (h : word expected s = .ok rest) : rest <:+ s := by
  induction expected generalizing s with
  | nil =>
      cases h
      exact List.suffix_refl _
  | cons e expected ih =>
      cases s with
      | nil => cases h
      | cons b s =>
          rw [word] at h
          split at h
          · exact (ih h).trans (List.suffix_cons b s)
          · cases h

/-! ## Numbers -/

theorem skipDigits_suffix (s : Bytes) : skipDigits s <:+ s := by
  induction s with
  | nil => exact List.suffix_refl _
  | cons b s ih =>
      rw [skipDigits]
      split
      · exact ih.trans (List.suffix_cons b s)
      · exact List.suffix_refl _

theorem gatherWhole_suffix (significand dropped : Nat) (s : Bytes) :
    (gatherWhole significand dropped s).2.2 <:+ s := by
  fun_induction gatherWhole significand dropped s with
  | case1 => exact List.suffix_refl _
  | case2 _ _ b rest _ _ _ ih => exact ih.trans (List.suffix_cons b rest)
  | case3 _ _ b rest _ _ _ ih => exact ih.trans (List.suffix_cons b rest)
  | case4 => exact List.suffix_refl _

theorem gatherFraction_suffix (significand taken : Nat) (s : Bytes) :
    (gatherFraction significand taken s).2.2 <:+ s := by
  fun_induction gatherFraction significand taken s with
  | case1 => exact List.suffix_refl _
  | case2 _ _ b rest _ _ _ ih => exact ih.trans (List.suffix_cons b rest)
  | case3 _ _ b rest => exact (skipDigits_suffix rest).trans (List.suffix_cons b rest)
  | case4 => exact List.suffix_refl _

/-- The digits of an exponent end in front of what is left, whether or not they fit. -/
theorem gatherExponent_suffix (exponent : Nat) (s : Bytes) :
    (∀ gathered rest, gatherExponent exponent s = .ok (gathered, rest) → rest <:+ s) ∧
      ∀ rest, gatherExponent exponent s = .error rest → rest <:+ s := by
  induction s generalizing exponent with
  | nil =>
      refine ⟨fun gathered rest h => ?_, fun rest h => ?_⟩
      · cases h
        exact List.suffix_refl _
      · cases h
  | cons b s ih =>
      rw [gatherExponent]
      dsimp only
      split
      · split
        · obtain ⟨hok, herror⟩ := ih (10 * exponent + Byte.digitValue b)
          exact ⟨fun gathered rest h => (hok _ _ h).trans (List.suffix_cons b s),
            fun rest h => (herror _ h).trans (List.suffix_cons b s)⟩
        · refine ⟨fun gathered rest h => ?_, fun rest h => ?_⟩
          · cases h
          · cases h
            exact List.suffix_cons b s
      · refine ⟨fun gathered rest h => ?_, fun rest h => ?_⟩
        · cases h
          exact List.suffix_refl _
        · cases h

theorem exponentSign_suffix (s : Bytes) : (exponentSign s).2 <:+ s := by
  unfold exponentSign
  split
  · exact List.suffix_refl _
  split
  · exact List.suffix_cons _ _
  split
  · exact List.suffix_cons _ _
  · exact List.suffix_refl _

section Numbers

variable {negative : Bool} {significand dropped : Nat} {exponent : Int} {n : Number}

/-- What is left behind a number stood behind it. -/
theorem finishNumber_rest {after : Bytes}
    (h : finishNumber negative significand exponent after = .ok (n, rest)) : rest = after := by
  unfold finishNumber at h
  split at h
  · cases h
  split at h
  · cases h
    rfl
  · cases h

theorem wholeNumber_rest {after : Bytes} (h : wholeNumber negative significand after = .ok (n, rest)) :
    rest = after := by
  unfold wholeNumber at h
  split at h
  · split at h
    · cases h
      rfl
    · exact finishNumber_rest h
  · split at h
    · cases h
      rfl
    · exact finishNumber_rest h

theorem exponentPart_suffix (h : exponentPart negative significand exponent s = .ok (n, rest)) :
    rest <:+ s := by
  unfold exponentPart at h
  have hsign := exponentSign_suffix s
  split at h
  · cases h
  · rename_i down b after hbehind
    rw [hbehind] at hsign
    have hafter : after <:+ s := (List.suffix_cons b after).trans hsign
    split at h
    · cases h
    obtain ⟨hok, herror⟩ := gatherExponent_suffix (Byte.digitValue b) after
    split at h
    · rename_i gathered behind hgather
      rw [finishNumber_rest h]
      exact (hok _ _ hgather).trans hafter
    · rename_i behind hgather
      split at h
      · cases h
      · rw [finishNumber_rest h]
        exact (skipDigits_suffix _).trans ((herror _ hgather).trans hafter)

theorem optionalExponent_suffix
    (h : optionalExponent negative significand exponent s = .ok (n, rest)) : rest <:+ s := by
  unfold optionalExponent at h
  split at h
  · exact finishNumber_rest h ▸ List.suffix_refl _
  split at h
  · exact (exponentPart_suffix h).trans (List.suffix_cons _ _)
  · exact finishNumber_rest h ▸ List.suffix_refl _

theorem fractionPart_suffix (h : fractionPart negative significand exponent s = .ok (n, rest)) :
    rest <:+ s := by
  have hdigits := gatherFraction_suffix significand 0 s
  unfold fractionPart at h
  split at h
  · cases h
  split at h
  · cases h
  · exact (optionalExponent_suffix h).trans hdigits

theorem afterWhole_suffix (h : afterWhole negative significand dropped s = .ok (n, rest)) :
    rest <:+ s := by
  unfold afterWhole at h
  split at h
  · split at h
    · exact wholeNumber_rest h ▸ List.suffix_refl _
    · exact finishNumber_rest h ▸ List.suffix_refl _
  · split at h
    · exact (fractionPart_suffix h).trans (List.suffix_cons _ _)
    split at h
    · exact (exponentPart_suffix h).trans (List.suffix_cons _ _)
    split at h
    · exact wholeNumber_rest h ▸ List.suffix_refl _
    · exact finishNumber_rest h ▸ List.suffix_refl _

/-- A number takes its first digit. -/
theorem number_suffix {b : UInt8} (h : number negative (b :: s) = .ok (n, rest)) : rest <:+ s := by
  unfold number at h
  dsimp only at h
  split at h
  · cases h
  split at h
  · split at h
    · cases h
    · exact afterWhole_suffix h
  · exact (afterWhole_suffix h).trans (gatherWhole_suffix _ _ _)

theorem number_trims (negative : Bool) : Trims (number negative) := by
  intro s n rest h
  cases s with
  | nil => cases h
  | cons b s => exact (number_suffix h).trans (List.suffix_cons b s)

end Numbers

/-! ## Strings -/

theorem hexDigits_suffix {n : Nat} (h : hexDigits s = .ok (n, rest)) : rest <:+ s := by
  unfold hexDigits at h
  split at h
  · rename_i a b c d after
    split at h
    · cases h
      exact ⟨[a, b, c, d], rfl⟩
    · cases h
  · cases h

theorem trailingSurrogate_suffix {leading : Nat} {c : Char}
    (h : trailingSurrogate leading s = .ok (c, rest)) : rest <:+ s := by
  unfold trailingSurrogate at h
  split at h
  · cases h
  rename_i b after
  split at h
  · cases h
  split at h
  · cases h
  rename_i u behind
  split at h
  · cases h
  split at h
  · cases h
  rename_i hdigits
  split at h
  · simp only [Except.ok.injEq, Prod.mk.injEq] at h
    obtain ⟨-, rfl⟩ := h
    exact (hexDigits_suffix hdigits).trans ⟨[b, u], rfl⟩
  · cases h

theorem escape_suffix {c : Char} (h : escape s = .ok (c, rest)) : rest <:+ s := by
  unfold escape at h
  split at h
  · cases h
  rename_i b after
  refine List.IsSuffix.trans ?_ (List.suffix_cons b after)
  split at h
  · unfold unicodeEscape at h
    split at h
    · cases h
    rename_i hdigits
    have hafter := hexDigits_suffix hdigits
    split at h
    · cases h
    split at h
    · exact (trailingSurrogate_suffix h).trans hafter
    · simp only [Except.ok.injEq, Prod.mk.injEq] at h
      obtain ⟨-, rfl⟩ := h
      exact hafter
  · split at h
    · cases h
      exact List.suffix_refl _
    · cases h

theorem stringBytes_suffix {seen bytes : Bytes} (h : stringBytes seen s = .ok (bytes, rest)) :
    rest <:+ s := by
  fun_induction stringBytes seen s with
  | case1 => cases h
  | case2 seen s =>
      cases h
      exact List.suffix_cons _ _
  | case3 => cases h
  | case4 seen s _ after hescape c _ ih =>
      exact (ih h).trans ((escape_suffix hescape).trans (List.suffix_cons _ _))
  | case5 => cases h
  | case6 seen b s _ _ _ ih => exact (ih h).trans (List.suffix_cons b s)

theorem string_trims : Trims string := by
  intro s value rest h
  unfold string at h
  split at h
  · cases h
  rename_i hbytes
  split at h
  · cases h
    exact stringBytes_suffix hbytes
  · cases h

/-! ## Scalars -/

theorem scalar_trims (b : UInt8) : Trims (scalar b) := by
  intro s value rest h
  unfold scalar at h
  split at h
  · obtain ⟨after, hafter, hvalue⟩ := eq_ok_of_map h
    cases hvalue
    exact word_suffix hafter
  split at h
  · obtain ⟨after, hafter, hvalue⟩ := eq_ok_of_map h
    cases hvalue
    exact word_suffix hafter
  split at h
  · obtain ⟨after, hafter, hvalue⟩ := eq_ok_of_map h
    cases hvalue
    exact word_suffix hafter
  split at h
  · exact suffix_of_map h fun _ _ hread => number_trims true _ _ _ hread
  split at h
  · exact suffix_of_map h fun _ _ hread => number_suffix hread
  split at h
  · exact suffix_of_map h fun _ _ => string_trims _ _ _
  · cases h

/-! ## Between values -/

theorem nextElement_suffix {first : Bool} (h : nextElement first s = .ok (some rest)) : rest <:+ s := by
  unfold nextElement at h
  split at h
  · cases h
  rename_i b after hblanks
  split at h
  · cases h
  split at h
  · cases h
    exact hblanks ▸ skipBlanks_suffix s
  split at h
  · split at h
    · cases h
    rename_i c behind hbehind
    split at h
    · cases h
    · cases h
      exact (hbehind ▸ skipBlanks_suffix after).trans (suffix_of_skipBlanks hblanks)
  · cases h

theorem closeArray_suffix (h : closeArray s = .ok rest) : rest <:+ s := by
  unfold closeArray at h
  split at h
  · cases h
  rename_i b after hblanks
  split at h
  · cases h
    exact suffix_of_skipBlanks hblanks
  split at h
  · split at h
    · cases h
    split at h
    · cases h
    · cases h
  · cases h

theorem nextKey_suffix {first : Bool} {key : String}
    (h : nextKey first s = .ok (some (key, rest))) : rest <:+ s := by
  unfold nextKey at h
  split at h
  · cases h
  rename_i b after hblanks
  have hafter := suffix_of_skipBlanks hblanks
  split at h
  · cases h
  split at h
  · split at h
    · obtain ⟨_, hkey, hread⟩ := eq_ok_of_map h
      cases hread
      exact (string_trims _ _ _ hkey).trans hafter
    · cases h
  split at h
  · split at h
    · cases h
    rename_i c behind hbehind
    split at h
    · obtain ⟨_, hkey, hread⟩ := eq_ok_of_map h
      cases hread
      exact (string_trims _ _ _ hkey).trans ((suffix_of_skipBlanks hbehind).trans hafter)
    split at h
    · cases h
    · cases h
  · cases h

theorem colon_suffix (h : Reader.colon s = .ok rest) : rest <:+ s := by
  unfold Reader.colon at h
  split at h
  · cases h
  rename_i b after hblanks
  split at h
  · cases h
    exact suffix_of_skipBlanks hblanks
  · cases h

/-- The brace that closes an object stands at the end of what is in front of the rest. -/
theorem closeObject_split (h : closeObject s = .ok rest) : Byte.closeBrace :: rest <:+ s := by
  unfold closeObject at h
  split at h
  · cases h
  rename_i b after hblanks
  split at h
  · rename_i hbrace
    cases h
    rw [← hbrace, ← hblanks]
    exact skipBlanks_suffix s
  split at h
  · cases h
  · cases h

/-! ## Loops -/

theorem elements_suffix {element : Bytes → Result α} (helement : Trims element) {rounds : Nat}
    {seen items : List α} (h : elements element rounds seen s = .ok (items, rest)) : rest <:+ s := by
  induction rounds generalizing seen s with
  | zero => cases h
  | succ rounds ih =>
      rw [elements] at h
      split at h
      · cases h
      · cases h
        exact List.suffix_refl _
      · rename_i hnext
        split at h
        · cases h
        · rename_i hread
          exact (ih h).trans ((helement _ _ _ hread).trans (nextElement_suffix hnext))

theorem members_suffix {member : σ → String → Bytes → Result σ}
    (hmember : ∀ state key, Trims (member state key)) {rounds : Nat} {first : Bool} {state last : σ}
    (h : members member rounds first state s = .ok (last, rest)) : rest <:+ s := by
  induction rounds generalizing first state s with
  | zero => cases h
  | succ rounds ih =>
      rw [members] at h
      split at h
      · cases h
      · cases h
        exact List.suffix_refl _
      · rename_i hnext
        split at h
        · cases h
        · rename_i hread
          exact (ih h).trans ((hmember _ _ _ _ _ hread).trans (nextKey_suffix hnext))

variable {item : Bytes → Result α} (hitem : Trims item)

include hitem

theorem uniformMember_trims (seen : List (String × α)) (key : String) :
    Trims (uniformMember item seen key) := by
  intro s state rest h
  unfold uniformMember at h
  split at h
  · cases h
  rename_i hcolon
  split at h
  · cases h
  · rename_i hread
    cases h
    exact (hitem _ _ _ hread).trans (colon_suffix hcolon)

theorem arrayOf_trims (rounds : Nat) : Trims (arrayOf rounds item) := by
  intro s items rest h
  unfold arrayOf at h
  split at h
  · cases h
  · rename_i hitems
    obtain ⟨after, hclose, hread⟩ := eq_ok_of_map h
    cases hread
    exact (closeArray_suffix hclose).trans (elements_suffix hitem hitems)

/-- The brace that closes an object is the end of what was read of it. -/
theorem objectOf_split {rounds : Nat} {m : KeyMap α} (h : objectOf rounds item s = .ok (m, rest)) :
    Byte.closeBrace :: rest <:+ s := by
  unfold objectOf at h
  split at h
  · cases h
  · rename_i hmembers
    obtain ⟨after, hclose, hread⟩ := eq_ok_of_map h
    cases hread
    exact (closeObject_split hclose).trans (members_suffix (uniformMember_trims hitem) hmembers)

theorem objectOf_trims (rounds : Nat) : Trims (objectOf rounds item) :=
  fun _ _ rest h => (List.suffix_cons _ rest).trans (objectOf_split hitem h)

omit hitem

/-! ## Values -/

theorem valueWith_trims (rounds : Nat) {inner : Option (Bytes → Result Json)}
    (hinner : ∀ item ∈ inner, Trims item) : Trims (valueWith rounds inner) := by
  intro s v rest h
  unfold valueWith at h
  split at h
  · cases h
  rename_i b after hblanks
  refine List.IsSuffix.trans ?_ (suffix_of_skipBlanks hblanks)
  split at h
  · cases inner with
    | none => cases h
    | some item => exact suffix_of_map h fun _ _ => arrayOf_trims (hinner item rfl) _ _ _ _
  split at h
  · cases inner with
    | none => cases h
    | some item => exact suffix_of_map h fun _ _ => objectOf_trims (hinner item rfl) _ _ _ _
  · exact scalar_trims b _ _ _ h

/-- **What is left behind a value** is an end of the text. By induction on the brackets that may still be
    opened. -/
theorem value_trims (rounds depth : Nat) : Trims (value rounds depth) := by
  induction depth with
  | zero => exact valueWith_trims rounds fun _ hitem => nomatch hitem
  | succ depth ih =>
      refine valueWith_trims rounds fun item hitem => ?_
      obtain rfl := Option.some.inj hitem
      exact ih

/-! ## Objects -/

theorem mapping_split {item : Nat → Bytes → Result α} (hitem : ∀ depth, Trims (item depth))
    {rounds depth : Nat} {m : KeyMap α} (h : mapping rounds depth item s = .ok (m, rest)) :
    Byte.closeBrace :: rest <:+ s := by
  unfold mapping at h
  split at h
  · cases h
  rename_i b after hblanks
  split at h
  · cases depth with
    | zero => cases h
    | succ depth => exact (objectOf_split (hitem depth) h).trans (suffix_of_skipBlanks hblanks)
  · cases h

/-- White space that ends a text is nothing else. -/
theorem isBlank_of_skipBlanks_eq_nil (h : skipBlanks s = []) : ∀ b ∈ s, Byte.isBlank b = true := by
  induction s with
  | nil => simp
  | cons b s ih =>
      rw [skipBlanks] at h
      split at h
      · rename_i hb
        exact List.forall_mem_cons.mpr ⟨hb, ih h⟩
      · cases h

/-- A whole text is read up to white space. -/
theorem rest_of_parseWith {reader : Nat → Bytes → Result α} {text : Bytes} {result : α}
    (h : parseWith reader text = .ok result) :
    ∃ rest, reader (text.length + 1) text = .ok (result, rest) ∧ skipBlanks rest = [] := by
  unfold parseWith at h
  split at h
  · cases h
  · rename_i answer rest hanswer
    split at h
    · rename_i hrest
      cases h
      exact ⟨rest, hanswer, hrest⟩
    · cases h

end DocStore.Json.Reader

namespace DocStore.Json

open Reader

/-- **The last byte of the text of an object** closes the object or is white space. -/
theorem parseObject_last {text : Text.Bytes} {payload : Payload}
    (h : parseObject text = .ok payload) :
    ∃ b ∈ text.getLast?, b = Byte.closeBrace ∨ Byte.isBlank b = true := by
  obtain ⟨rest, hread, hrest⟩ := rest_of_parseWith h
  obtain ⟨front, rfl⟩ := mapping_split (fun depth => value_trims _ depth) hread
  have hne : Byte.closeBrace :: rest ≠ [] := List.cons_ne_nil _ _
  have hlast : (front ++ Byte.closeBrace :: rest).getLast? =
      some ((Byte.closeBrace :: rest).getLast hne) := by
    rw [List.getLast?_append, List.getLast?_eq_some_getLast hne]
    rfl
  refine ⟨_, hlast, ?_⟩
  rcases List.mem_cons.mp (List.getLast_mem hne) with hbrace | hblank
  · exact Or.inl hbrace
  · exact Or.inr (isBlank_of_skipBlanks_eq_nil hrest _ hblank)

end DocStore.Json
