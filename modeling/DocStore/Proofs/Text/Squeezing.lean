import DocStore.Text.Blank
import Mathlib.Data.List.Chain

/-!
# Squeezed texts

The words of a text with single blanks between them are the text in which every run of blanks is one
blank, if the text starts and ends with a word. So what becomes of a text that is cut into words and put
together again can be told character by character.

## Contents
- `squeeze`: every run of characters of a kind as one blank; `squeeze_append_left`,
  `squeeze_append_right`: part by part.
- `Tidy`, `squeeze_eq_self_iff`: when squeezing changes nothing; `squeeze_tidy`: it never does twice.
- `Solid`: texts that start and end with a word.
- `words_append`, `words_head`, `words_last`: the words of a text by its parts.
- `squeeze_eq_words`: **the words of a solid text, put together again**.
-/

namespace DocStore.Text

/-! ## Squeezing -/

/-- The text in which every run of characters of a kind is one blank. -/
def squeeze (p : Char → Bool) : List Char → List Char
  | [] => []
  | c :: rest =>
    if p c then
      if rest.head?.any p then squeeze p rest else ' ' :: squeeze p rest
    else c :: squeeze p rest

section Squeezing

variable {p : Char → Bool} {c : Char} {a b text : List Char}

theorem squeeze_cons (h : p c = false) (rest : List Char) :
    squeeze p (c :: rest) = c :: squeeze p rest := by
  rw [squeeze, h, if_neg Bool.false_ne_true]

/-- A character of another kind separates what is before it from what is behind it. -/
theorem squeeze_append_cons (h : p c = false) (a b : List Char) :
    squeeze p (a ++ c :: b) = squeeze p a ++ c :: squeeze p b := by
  induction a with
  | nil => exact squeeze_cons h b
  | cons d a ih =>
      -- what comes after `d` starts with the same kind on both sides
      have hhead : (a ++ c :: b).head?.any p = a.head?.any p := by
        cases a with
        | nil => simp [h]
        | cons e a => rfl
      rw [List.cons_append, squeeze, squeeze, hhead, ih]
      split
      · split
        · rfl
        · rfl
      · rfl

theorem squeeze_append_left (h : ∀ c ∈ a.getLast?, p c = false) :
    squeeze p (a ++ b) = squeeze p a ++ squeeze p b := by
  rcases List.eq_nil_or_concat' a with rfl | ⟨front, c, rfl⟩
  · rfl
  · have hc : p c = false := h c (by simp)
    rw [List.append_assoc, List.singleton_append, squeeze_append_cons hc, squeeze_append_cons hc,
      List.append_assoc]
    rfl

theorem squeeze_append_right (h : ∀ c ∈ b.head?, p c = false) :
    squeeze p (a ++ b) = squeeze p a ++ squeeze p b := by
  cases b with
  | nil => simp [squeeze]
  | cons c b =>
      have hc : p c = false := h c rfl
      rw [squeeze_append_cons hc, squeeze_cons hc]

/-- A text without such characters stays as it is. -/
theorem squeeze_none (h : ∀ c ∈ text, p c = false) : squeeze p text = text := by
  induction text with
  | nil => rfl
  | cons c text ih =>
      obtain ⟨hc, htext⟩ := List.forall_mem_cons.mp h
      rw [squeeze_cons hc, ih htext]

/-- A run is one blank. -/
theorem squeeze_all (hne : text ≠ []) (h : ∀ c ∈ text, p c = true) : squeeze p text = [' '] := by
  induction text with
  | nil => exact absurd rfl hne
  | cons c text ih =>
      obtain ⟨hc, htext⟩ := List.forall_mem_cons.mp h
      rw [squeeze, if_pos hc]
      cases text with
      | nil => rfl
      | cons d text =>
          have hd : p d = true := htext d List.mem_cons_self
          rw [List.head?_cons, Option.any_some, if_pos hd]
          exact ih (List.cons_ne_nil _ _) htext

/-! ## Tidy texts -/

/-- Whether a text has no character of a kind but single blanks. -/
def Tidy (p : Char → Bool) (text : List Char) : Prop :=
  (∀ c ∈ text, p c = true → c = ' ') ∧ ¬ [' ', ' '] <:+: text

/-- Whether two characters may follow each other in a tidy text. -/
def Single (c d : Char) : Prop :=
  ¬ (c = ' ' ∧ d = ' ')

theorem no_pair_iff : ¬ [' ', ' '] <:+: text ↔ text.IsChain Single := by
  constructor
  · intro h
    induction text with
    | nil => exact List.IsChain.nil
    | cons c text ih =>
        cases text with
        | nil => exact List.IsChain.singleton c
        | cons d text =>
            refine List.isChain_cons_cons.mpr ⟨?_, ih fun hpair => h (List.infix_cons hpair)⟩
            rintro ⟨rfl, rfl⟩
            exact h ⟨[], text, rfl⟩
  · intro h hpair
    have hsingle := List.IsChain.infix h hpair
    exact List.isChain_pair.mp hsingle ⟨rfl, rfl⟩

theorem mem_squeeze (h : c ∈ squeeze p text) (hc : p c = true) : c = ' ' := by
  induction text with
  | nil => exact absurd h List.not_mem_nil
  | cons d text ih =>
      rw [squeeze] at h
      split at h
      · split at h
        · exact ih h
        · rcases List.mem_cons.mp h with h | h
          · exact h
          · exact ih h
      · rename_i hd
        rcases List.mem_cons.mp h with rfl | h
        · exact absurd hc hd
        · exact ih h

/-- What follows a run starts with a character of another kind. -/
theorem squeeze_head (h : text.head?.any p = false) : ∀ c ∈ (squeeze p text).head?, p c = false := by
  cases text with
  | nil => simp [squeeze]
  | cons d text =>
      have hd : p d = false := by simpa using h
      rw [squeeze_cons hd]
      simpa using hd

/-- A squeezed text is tidy. -/
theorem squeeze_tidy (hblank : p ' ' = true) (text : List Char) : Tidy p (squeeze p text) := by
  refine ⟨fun c hc => mem_squeeze hc, no_pair_iff.mpr ?_⟩
  induction text with
  | nil => exact List.IsChain.nil
  | cons c text ih =>
      rw [squeeze]
      split
      · split
        · exact ih
        · rename_i hend
          refine List.isChain_cons.mpr ⟨?_, ih⟩
          rintro d hd ⟨-, rfl⟩
          rw [squeeze_head (by simpa using hend) ' ' hd] at hblank
          cases hblank
      · rename_i hc
        refine List.isChain_cons.mpr ⟨?_, ih⟩
        rintro d - ⟨rfl, -⟩
        exact hc hblank

/-- Squeezing changes nothing exactly if the text is tidy. -/
theorem squeeze_eq_self_iff (hblank : p ' ' = true) : squeeze p text = text ↔ Tidy p text := by
  constructor
  · intro h
    rw [← h]
    exact squeeze_tidy hblank text
  · rintro ⟨hchars, hpairs⟩
    rw [no_pair_iff] at hpairs
    induction text with
    | nil => rfl
    | cons c text ih =>
        obtain ⟨hc, htext⟩ := List.forall_mem_cons.mp hchars
        obtain ⟨hsingle, hpairs⟩ := List.isChain_cons.mp hpairs
        rw [squeeze, ih htext hpairs]
        split
        · rename_i hp
          obtain rfl := hc hp
          -- a second character of the kind would be a second blank
          rw [if_neg]
          intro hsecond
          obtain ⟨d, hd, hpd⟩ := (Option.any_eq_true _ _).mp hsecond
          exact hsingle d hd ⟨rfl, htext d (List.mem_of_mem_head? hd) hpd⟩
        · rfl

end Squeezing

/-! ## Words -/

/-- A text that starts and ends with a word. -/
structure Solid (text : List Char) : Prop where
  ne_nil : text ≠ []
  head : ∀ c ∈ text.head?, isBlank c = false
  last : ∀ c ∈ text.getLast?, isBlank c = false

section Words

variable {c : Char} {text : List Char}

/-- A character before a blank, or at the end, is a word of its own. -/
theorem words_cons_end (h : isBlank c = false) (hend : ∀ d ∈ text.head?, isBlank d = true) :
    words (c :: text) = [c] :: words text := by
  have hword : ∀ d ∈ [c], isBlank d = false := by simpa using h
  cases text with
  | nil => exact words_word (List.cons_ne_nil _ _) hword
  | cons d text =>
      have hd : isBlank d = true := hend d rfl
      rw [words_cons_blank hd]
      exact words_append_blank (List.cons_ne_nil _ _) hword hd text

/-- A character before a word belongs to the word. -/
theorem words_cons_word {d : Char} (hc : isBlank c = false) (hd : isBlank d = false)
    (text : List Char) :
    ∃ word later, words (d :: text) = word :: later ∧ words (c :: d :: text) = (c :: word) :: later :=
  ⟨d :: (text.foldr wordStep ([], [])).1, (text.foldr wordStep ([], [])).2,
    by simp [words, wordStep, hd, consWord], by simp [words, wordStep, hc, hd, consWord]⟩

/-- **The words of two texts with a blank between them.** -/
theorem words_append {blank : Char} (hblank : isBlank blank = true) (a b : List Char) :
    words (a ++ blank :: b) = words a ++ words b := by
  induction a with
  | nil => exact words_cons_blank hblank b
  | cons c a ih =>
      cases hc : isBlank c with
      | true => rw [List.cons_append, words_cons_blank hc, words_cons_blank hc, ih]
      | false =>
          cases a with
          | nil =>
              have hends : ∀ d ∈ (blank :: b).head?, isBlank d = true := by simpa using hblank
              have halone : words [c] = [[c]] := words_cons_end hc (by simp)
              rw [halone]
              show words (c :: blank :: b) = [c] :: words b
              rw [words_cons_end hc hends, words_cons_blank hblank]
          | cons d a =>
              cases hd : isBlank d with
              | true =>
                  have hends : ∀ text : List Char, ∀ e ∈ (d :: text).head?, isBlank e = true := by
                    simpa using hd
                  rw [List.cons_append, List.cons_append, words_cons_end hc (hends _),
                    words_cons_end hc (hends _), ← List.cons_append, ih]
                  rfl
              | false =>
                  obtain ⟨word, later, hwords, hlonger⟩ := words_cons_word hc hd (a ++ blank :: b)
                  obtain ⟨word', later', hwords', hlonger'⟩ := words_cons_word hc hd a
                  rw [List.cons_append, hwords, hwords', List.cons_append] at ih
                  obtain ⟨rfl, rfl⟩ := List.cons.inj ih
                  rw [List.cons_append, List.cons_append, hlonger, hlonger']
                  rfl

/-- The first word of a text that starts with one. -/
theorem words_head (h : isBlank c = false) (text : List Char) :
    ∃ word later, words (c :: text) = (c :: word) :: later := by
  cases text with
  | nil => exact ⟨[], [], words_cons_end h (by simp)⟩
  | cons d text =>
      cases hd : isBlank d with
      | true => exact ⟨[], _, words_cons_end h (by simpa using hd)⟩
      | false =>
          obtain ⟨word, later, -, hwords⟩ := words_cons_word h hd text
          exact ⟨word, later, hwords⟩

/-- The last word of a text that ends with one. -/
theorem words_last (h : isBlank c = false) (text : List Char) :
    ∃ earlier word, words (text ++ [c]) = earlier ++ [word ++ [c]] := by
  induction text with
  | nil => exact ⟨[], [], words_cons_end h (by simp)⟩
  | cons d text ih =>
      obtain ⟨earlier, word, hwords⟩ := ih
      cases hd : isBlank d with
      | true => exact ⟨earlier, word, (words_cons_blank hd _).trans hwords⟩
      | false =>
          obtain ⟨e, rest, htext⟩ := List.exists_cons_of_ne_nil (List.concat_ne_nil c text)
          cases he : isBlank e with
          | true =>
              refine ⟨[d] :: earlier, word, ?_⟩
              have hends : ∀ e' ∈ (text ++ [c]).head?, isBlank e' = true := by simpa [htext] using he
              rw [List.cons_append, words_cons_end hd hends, hwords]
              rfl
          | false =>
              obtain ⟨first, later, hrest, hlonger⟩ := words_cons_word hd he rest
              rw [List.cons_append, htext, hlonger]
              rw [htext, hrest] at hwords
              -- the character goes to the first word, which may be the last one
              cases earlier with
              | nil =>
                  obtain ⟨rfl, rfl⟩ := List.cons.inj hwords
                  exact ⟨[], d :: word, rfl⟩
              | cons first' earlier =>
                  obtain ⟨rfl, rfl⟩ := List.cons.inj hwords
                  exact ⟨(d :: first) :: earlier, word, rfl⟩

theorem words_ne_nil (hne : text ≠ []) (h : ∀ c ∈ text.getLast?, isBlank c = false) :
    words text ≠ [] := by
  obtain ⟨front, c, rfl⟩ := (List.eq_nil_or_concat' text).resolve_left hne
  obtain ⟨earlier, word, hwords⟩ := words_last (h c (by simp)) front
  rw [hwords]
  simp

/-- **The words of a text, put together again.** By induction on the text: a blank in front of it is all
    that the words do not show. -/
theorem squeeze_eq_words (h : ∀ c ∈ text.getLast?, isBlank c = false) :
    squeeze isBlank text =
      (if text.head?.any isBlank then [' '] else []) ++ List.intercalate [' '] (words text) := by
  induction text with
  | nil => rfl
  | cons c text ih =>
      cases text with
      | nil =>
          have hc : isBlank c = false := h c rfl
          rw [squeeze_cons hc, words_cons_end hc (by simp)]
          simp [squeeze, hc]
      | cons d text =>
          rw [List.getLast?_cons_cons] at h
          have hrest := ih h
          rw [List.head?_cons, Option.any_some] at hrest ⊢
          cases hc : isBlank c with
          | true =>
              rw [squeeze, if_pos hc, words_cons_blank hc, hrest, List.head?_cons, Option.any_some]
              cases hd : isBlank d with
              | true => rfl
              | false => rfl
          | false =>
              rw [squeeze_cons hc, hrest]
              cases hd : isBlank d with
              | true =>
                  -- the text goes on, so there is another word behind the blank
                  have hends : ∀ e ∈ (d :: text).head?, isBlank e = true := by simpa using hd
                  obtain ⟨word, later, hwords⟩ :=
                    List.exists_cons_of_ne_nil (words_ne_nil (List.cons_ne_nil d text) h)
                  rw [words_cons_end hc hends, hwords, List.intercalate_cons_cons]
                  rfl
              | false =>
                  obtain ⟨word, later, hwords, hlonger⟩ := words_cons_word hc hd text
                  rw [hwords, hlonger]
                  cases later with
                  | nil => simp
                  | cons next later => simp [List.intercalate_cons_cons]

/-- A solid text is squeezed by cutting it into its words. -/
theorem Solid.squeeze_eq (h : Solid text) :
    squeeze isBlank text = List.intercalate [' '] (words text) := by
  rw [squeeze_eq_words h.last]
  obtain ⟨c, rest, rfl⟩ := List.exists_cons_of_ne_nil h.ne_nil
  have hc : isBlank c = false := h.head c rfl
  simp [hc]

end Words

end DocStore.Text
