import DocStore.Proofs.Json.LongerScalars

/-!
# Reading longer texts

An array or an object that was read is the same one in every longer text, since it is closed by a byte of its
own. The loops over items and members may have more rounds for the longer text, and so may the readers for
values of a known type.

## Contents
- `nextElement_append`, `nextKey_append` and their companions: the steps between values.
- `elements_append`, `members_append`: the loops.
- `value_continues`: **values**.
- `int64_continues`, `sequence_settles`, `mapping_settles`: values of a known type.
- `field_continues`, `opened_settles`: values with fixed parts.
-/

namespace DocStore.Json.Reader

open Text (Bytes)

variable {α σ : Type} {s rest : Bytes}

/-! ## Between values -/

theorem nextElement_append {first : Bool} {next : Option Bytes} (h : nextElement first s = .ok next)
    (more : Bytes) : nextElement first (s ++ more) = .ok (next.map (· ++ more)) := by
  unfold nextElement at h
  split at h
  · cases h
  rename_i b after hblanks
  rw [nextElement, skipBlanks_append hblanks]
  dsimp only
  by_cases hclose : b = Byte.closeBracket
  · rw [if_pos hclose] at h ⊢
    cases h
    rfl
  rw [if_neg hclose] at h ⊢
  by_cases hfirst : first = true
  · rw [if_pos hfirst] at h ⊢
    cases h
    rfl
  rw [if_neg hfirst] at h ⊢
  by_cases hcomma : b = Byte.comma
  · rw [if_pos hcomma] at h ⊢
    split at h
    · cases h
    rename_i c behind hbehind
    rw [skipBlanks_append hbehind]
    dsimp only
    by_cases hend : c = Byte.closeBracket
    · rw [if_pos hend] at h
      cases h
    · rw [if_neg hend] at h ⊢
      cases h
      rfl
  · rw [if_neg hcomma] at h
    cases h

theorem closeArray_append (h : closeArray s = .ok rest) (more : Bytes) :
    closeArray (s ++ more) = .ok (rest ++ more) := by
  unfold closeArray at h
  split at h
  · cases h
  rename_i b after hblanks
  rw [closeArray, skipBlanks_append hblanks]
  dsimp only
  by_cases hclose : b = Byte.closeBracket
  · rw [if_pos hclose] at h ⊢
    cases h
    rfl
  rw [if_neg hclose] at h
  split at h
  · split at h
    · cases h
    · split at h <;> cases h
  · cases h

/-- A key is closed by its quote, and the end of an object by its brace. -/
theorem nextKey_append {first : Bool} {next : Option (String × Bytes)} (h : nextKey first s = .ok next)
    (more : Bytes) :
    nextKey first (s ++ more) = .ok (next.map fun (key, rest) => (key, rest ++ more)) := by
  have hkey : ∀ {s}, (string s).map some = .ok next →
      (string (s ++ more)).map some = .ok (next.map fun (key, rest) => (key, rest ++ more)) := by
    intro s h
    obtain ⟨⟨key, rest⟩, hread, hnext⟩ := eq_ok_of_map h
    cases hnext
    rw [string_settles _ _ _ hread]
    rfl
  unfold nextKey at h
  split at h
  · cases h
  rename_i b after hblanks
  rw [nextKey, skipBlanks_append hblanks]
  dsimp only
  by_cases hclose : b = Byte.closeBrace
  · rw [if_pos hclose] at h ⊢
    cases h
    rfl
  rw [if_neg hclose] at h ⊢
  by_cases hfirst : first = true
  · rw [if_pos hfirst] at h ⊢
    by_cases hquote : b = Byte.quote
    · rw [if_pos hquote] at h ⊢
      exact hkey h
    · rw [if_neg hquote] at h
      cases h
  rw [if_neg hfirst] at h ⊢
  by_cases hcomma : b = Byte.comma
  · rw [if_pos hcomma] at h ⊢
    split at h
    · cases h
    rename_i c behind hbehind
    rw [skipBlanks_append hbehind]
    dsimp only
    by_cases hquote : c = Byte.quote
    · rw [if_pos hquote] at h ⊢
      exact hkey h
    · rw [if_neg hquote] at h
      split at h <;> cases h
  · rw [if_neg hcomma] at h
    cases h

theorem colon_append (h : Reader.colon s = .ok rest) (more : Bytes) :
    Reader.colon (s ++ more) = .ok (rest ++ more) := by
  unfold Reader.colon at h
  split at h
  · cases h
  rename_i b after hblanks
  rw [Reader.colon, skipBlanks_append hblanks]
  dsimp only
  split at h
  · rename_i hcolon
    cases h
    exact if_pos hcolon
  · cases h

theorem closeObject_append (h : closeObject s = .ok rest) (more : Bytes) :
    closeObject (s ++ more) = .ok (rest ++ more) := by
  unfold closeObject at h
  split at h
  · cases h
  rename_i b after hblanks
  rw [closeObject, skipBlanks_append hblanks]
  dsimp only
  split at h
  · rename_i hclose
    cases h
    exact if_pos hclose
  · split at h <;> cases h

/-! ## Loops -/

variable {rounds later : Nat}

/-- At the end of the text no array is complete. -/
theorem elements_nil {element : Bytes → Result α} {seen : List α} {answer : List α × Bytes} :
    elements element rounds seen [] ≠ .ok answer := by
  cases rounds with
  | zero => exact fun h => nomatch h
  | succ rounds => exact fun h => nomatch h

/-- At the end of the text no object is complete. -/
theorem members_nil {member : σ → String → Bytes → Result σ} {first : Bool} {state : σ}
    {answer : σ × Bytes} : members member rounds first state [] ≠ .ok answer := by
  cases rounds with
  | zero => exact fun h => nomatch h
  | succ rounds => exact fun h => nomatch h

/-- The items that are still to come, by induction on the rounds. Something follows each item, if only the
    bracket that ends the array. -/
theorem elements_append {element further : Bytes → Result α} (helement : Continues element further)
    (hrounds : rounds ≤ later) {seen items : List α}
    (h : elements element rounds seen s = .ok (items, rest)) (more : Bytes) :
    elements further later seen (s ++ more) = .ok (items, rest ++ more) := by
  induction rounds generalizing later seen s with
  | zero => cases h
  | succ rounds ih =>
      obtain ⟨later, rfl⟩ : ∃ n, later = n + 1 := ⟨later - 1, by omega⟩
      rw [elements] at h ⊢
      split at h
      · cases h
      · rename_i hnext
        cases h
        rw [nextElement_append hnext]
        rfl
      · rename_i after hnext
        rw [nextElement_append hnext]
        split at h
        · cases h
        · rename_i item behind hread
          -- the loop goes on behind the item, so the text does not end there
          have hbehind : behind ≠ [] := by
            rintro rfl
            exact elements_nil h
          simp only [Option.map_some, helement _ _ _ hread hbehind]
          exact ih (Nat.le_of_succ_le_succ hrounds) h

/-- The members that are still to come. -/
theorem members_append {member further : σ → String → Bytes → Result σ}
    (hmember : ∀ state key, Continues (member state key) (further state key)) (hrounds : rounds ≤ later)
    {first : Bool} {state last : σ} (h : members member rounds first state s = .ok (last, rest))
    (more : Bytes) : members further later first state (s ++ more) = .ok (last, rest ++ more) := by
  induction rounds generalizing later first state s with
  | zero => cases h
  | succ rounds ih =>
      obtain ⟨later, rfl⟩ : ∃ n, later = n + 1 := ⟨later - 1, by omega⟩
      rw [members] at h ⊢
      split at h
      · cases h
      · rename_i hnext
        cases h
        rw [nextKey_append hnext]
        rfl
      · rename_i key after hnext
        rw [nextKey_append hnext]
        split at h
        · cases h
        · rename_i next behind hread
          have hbehind : behind ≠ [] := by
            rintro rfl
            exact members_nil h
          simp only [Option.map_some, hmember _ _ _ _ _ hread hbehind]
          exact ih (Nat.le_of_succ_le_succ hrounds) h

variable {item further : Bytes → Result α}

theorem uniformMember_continues (hitem : Continues item further) (seen : List (String × α))
    (key : String) : Continues (uniformMember item seen key) (uniformMember further seen key) := by
  intro s state rest h hrest more
  unfold uniformMember at h
  split at h
  · cases h
  rename_i after hcolon
  split at h
  · cases h
  rename_i value behind hread
  cases h
  simp only [uniformMember, colon_append hcolon, hitem _ _ _ hread hrest]

theorem arrayOf_settles (hitem : Continues item further) (hrounds : rounds ≤ later) :
    Settles (arrayOf rounds item) (arrayOf later further) := by
  intro s items rest h more
  unfold arrayOf at h
  split at h
  · cases h
  rename_i items after hitems
  obtain ⟨behind, hclose, hread⟩ := eq_ok_of_map h
  cases hread
  simp only [arrayOf, elements_append hitem hrounds hitems, closeArray_append hclose]
  rfl

theorem objectOf_settles (hitem : Continues item further) (hrounds : rounds ≤ later) :
    Settles (objectOf rounds item) (objectOf later further) := by
  intro s m rest h more
  unfold objectOf at h
  split at h
  · cases h
  rename_i seen after hmembers
  obtain ⟨behind, hclose, hread⟩ := eq_ok_of_map h
  cases hread
  simp only [objectOf, members_append (uniformMember_continues hitem) hrounds hmembers,
    closeObject_append hclose]
  rfl

/-! ## Values -/

theorem valueWith_continues (hrounds : rounds ≤ later) {inner further : Option (Bytes → Result Json)}
    (hinner : ∀ item ∈ inner, ∃ next ∈ further, Continues item next) :
    Continues (valueWith rounds inner) (valueWith later further) := by
  intro s v rest h hrest more
  unfold valueWith at h
  split at h
  · cases h
  rename_i b after hblanks
  rw [valueWith, skipBlanks_append hblanks]
  dsimp only
  by_cases hbracket : b = Byte.openBracket
  · rw [if_pos hbracket] at h ⊢
    cases inner with
    | none => cases h
    | some item =>
        obtain ⟨next, hnext, hitem⟩ := hinner item rfl
        obtain rfl := Option.mem_def.mp hnext
        exact map_append h fun items hread => arrayOf_settles hitem hrounds _ _ _ hread more
  rw [if_neg hbracket] at h ⊢
  by_cases hbrace : b = Byte.openBrace
  · rw [if_pos hbrace] at h ⊢
    cases inner with
    | none => cases h
    | some item =>
        obtain ⟨next, hnext, hitem⟩ := hinner item rfl
        obtain rfl := Option.mem_def.mp hnext
        exact map_append h fun payload hread => objectOf_settles hitem hrounds _ _ _ hread more
  · rw [if_neg hbrace] at h ⊢
    exact scalar_continues b _ _ _ h hrest more

/-- **A value stands in every longer text**, if something is left that ends it. By induction on the brackets
    that may still be opened. -/
theorem value_continues (hrounds : rounds ≤ later) (depth : Nat) :
    Continues (value rounds depth) (value later depth) := by
  induction depth with
  | zero => exact valueWith_continues hrounds fun _ hitem => nomatch hitem
  | succ depth ih =>
      refine valueWith_continues hrounds fun item hitem => ⟨_, rfl, ?_⟩
      obtain rfl := Option.some.inj hitem
      exact ih

/-! ## Values of a known type -/

theorem text_settles : Settles text text := by
  intro s value rest h more
  unfold text at h
  split at h
  · cases h
  rename_i b after hblanks
  rw [text, skipBlanks_append hblanks]
  dsimp only
  split at h
  · rename_i hquote
    rw [if_pos hquote]
    exact string_settles _ _ _ h more
  · cases h

theorem int64_continues : Continues int64 int64 := by
  intro s value rest h hrest more
  unfold int64 at h
  split at h
  · cases h
  rename_i b after hblanks
  rw [int64, skipBlanks_append hblanks]
  dsimp only
  have hsign : (if b = Byte.minus then after ++ more else b :: (after ++ more)) =
      (if b = Byte.minus then after else b :: after) ++ more := by
    split <;> rfl
  rw [hsign]
  split at h
  · rename_i hstart
    rw [if_pos hstart]
    split at h
    · cases h
    rename_i n behind hnumber
    split at h
    · rename_i time htime
      cases h
      rw [number_continues _ _ _ _ hnumber hrest]
      simp only [htime]
    · cases h
  · cases h

/-- A time that may be missing. -/
theorem optional_int64_continues : Continues (optional int64) (optional int64) := by
  intro s value rest h hrest more
  unfold optional at h
  split at h
  · cases h
  rename_i b after hblanks
  rw [optional, skipBlanks_append hblanks]
  dsimp only
  by_cases hnull : b = 0x6e
  · rw [if_pos hnull] at h ⊢
    exact map_word_append h more
  · rw [if_neg hnull] at h ⊢
    exact map_append h fun time hread => int64_continues _ _ _ hread hrest more

theorem sequence_settles (hitem : Continues item further) (hrounds : rounds ≤ later) (depth : Nat) :
    Settles (sequence rounds depth item) (sequence later depth further) := by
  intro s items rest h more
  unfold sequence at h
  split at h
  · cases h
  rename_i b after hblanks
  rw [sequence, skipBlanks_append hblanks]
  dsimp only
  split at h
  · rename_i hbracket
    rw [if_pos hbracket]
    split at h
    · cases h
    · rename_i hdepth
      rw [if_neg hdepth]
      exact arrayOf_settles hitem hrounds _ _ _ h more
  · cases h

theorem mapping_settles {item further : Nat → Bytes → Result α}
    (hitem : ∀ depth, Continues (item depth) (further depth)) (hrounds : rounds ≤ later) (depth : Nat) :
    Settles (mapping rounds depth item) (mapping later depth further) := by
  intro s m rest h more
  unfold mapping at h
  split at h
  · cases h
  rename_i b after hblanks
  rw [mapping, skipBlanks_append hblanks]
  dsimp only
  split at h
  · rename_i hbrace
    rw [if_pos hbrace]
    cases depth with
    | zero => cases h
    | succ depth => exact objectOf_settles (hitem depth) hrounds _ _ _ h more
  · cases h

/-! ## Fixed parts -/

theorem part_continues (hitem : Continues item further) (first : Bool) :
    Continues (part first item) (part first further) := by
  intro s value rest h hrest more
  unfold part at h
  split at h
  · cases h
  · rename_i hnext
    cases h
    rw [part, nextElement_append hnext]
    rfl
  · rename_i after hnext
    rw [part, nextElement_append hnext]
    exact map_append h fun value hread => hitem _ _ _ hread hrest more

theorem field_continues (hitem : Continues item further) (name : String) (seen : Option α) :
    Continues (field name seen item) (field name seen further) := by
  intro s value rest h hrest more
  unfold field at h
  split at h
  · cases h
  rename_i hseen
  split at h
  · cases h
  rename_i after hcolon
  rw [field, if_neg hseen, colon_append hcolon]
  exact map_append h fun value hread => hitem _ _ _ hread hrest more

/-- What is made of the value of a field. -/
theorem map_field_append {β : Type} (f : Option α → β) (hitem : Continues item further) {name : String}
    {seen : Option α} {value : β}
    (h : ((field name seen item s).map fun (part, rest) => (f part, rest)) = .ok (value, rest))
    (hrest : rest ≠ []) (more : Bytes) :
    ((field name seen further (s ++ more)).map fun (part, rest) => (f part, rest)) =
      .ok (value, rest ++ more) :=
  map_append h fun _ hread => field_continues hitem name seen _ _ _ hread hrest more

theorem closeArray_nil : closeArray [] ≠ .ok rest := fun h => nomatch h

theorem closeObject_nil : closeObject [] ≠ .ok rest := fun h => nomatch h

/-- A value with fixed parts is closed by its bracket or its brace. -/
theorem opened_settles {parts fields parts' fields' : Nat → Bytes → Result α}
    (hparts : ∀ depth, Continues (parts depth) (parts' depth))
    (hfields : ∀ depth, Continues (fields depth) (fields' depth)) (name : String) (depth : Nat) :
    Settles (opened name depth parts fields) (opened name depth parts' fields') := by
  intro s value rest h more
  unfold opened at h
  split at h
  · cases h
  rename_i b after hblanks
  rw [opened, skipBlanks_append hblanks]
  dsimp only
  by_cases hbracket : b = Byte.openBracket
  · rw [if_pos hbracket] at h ⊢
    cases depth with
    | zero => cases h
    | succ depth =>
        dsimp only at h ⊢
        split at h
        · cases h
        rename_i answer behind hread
        obtain ⟨last, hclose, hvalue⟩ := eq_ok_of_map h
        cases hvalue
        have hbehind : behind ≠ [] := by
          rintro rfl
          exact closeArray_nil hclose
        rw [hparts depth _ _ _ hread hbehind]
        simp only [closeArray_append hclose]
        rfl
  rw [if_neg hbracket] at h ⊢
  split at h
  · rename_i hbrace
    rw [if_pos hbrace]
    cases depth with
    | zero => cases h
    | succ depth =>
        dsimp only at h ⊢
        split at h
        · cases h
        rename_i answer behind hread
        obtain ⟨last, hclose, hvalue⟩ := eq_ok_of_map h
        cases hvalue
        have hbehind : behind ≠ [] := by
          rintro rfl
          exact closeObject_nil hclose
        rw [hfields depth _ _ _ hread hbehind]
        simp only [closeObject_append hclose]
        rfl
  · cases h

end DocStore.Json.Reader
