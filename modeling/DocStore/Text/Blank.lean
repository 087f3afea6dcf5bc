/-!
# White space

The characters with the Unicode property `White_Space`, and the two operations that the rest of
the library needs on them: cutting a text into its words and trimming its ends.

## Contents
- `isBlank`: the property, as a test.
- `words`: the maximal runs of characters that are not blank, in order.
- `trimStart`, `trimEnd`, `trim`: a text without its outer blanks.
- `words_cons_blank`, `mem_words`: a blank contributes nothing, and a word is never empty and holds
  no blank.
- `words_word`, `words_append_blank`: a text without blanks is a word, which ends at a blank.
-/

namespace DocStore.Text

/-- The Unicode property `White_Space`. -/
def isBlank (c : Char) : Bool :=
  let n := c.toNat
  (9 ≤ n && n ≤ 13) || n == 0x20 || n == 0x85 || n == 0xA0 || n == 0x1680 ||
    (0x2000 ≤ n && n ≤ 0x200A) || n == 0x2028 || n == 0x2029 || n == 0x202F || n == 0x205F ||
    n == 0x3000

/-! ## Words -/

/-- Puts a finished word in front of the words after it; an empty one is no word. -/
def consWord (word : List Char) (later : List (List Char)) : List (List Char) :=
  if word.isEmpty then later else word :: later

/-- Reads one character from the right: the word that is open at its left end, and the finished
    words after that one. -/
def wordStep (c : Char) (state : List Char × List (List Char)) : List Char × List (List Char) :=
  if isBlank c then ([], consWord state.1 state.2) else (c :: state.1, state.2)

/-- The maximal runs of characters that are not blank, from left to right. -/
def words (text : List Char) : List (List Char) :=
  let state := text.foldr wordStep ([], [])
  consWord state.1 state.2

@[simp] theorem words_nil : words [] = [] := rfl

/-- A leading blank contributes nothing. -/
theorem words_cons_blank {c : Char} (h : isBlank c = true) (text : List Char) :
    words (c :: text) = words text := by
  simp [words, wordStep, h, consWord]

/-- The words seen so far, the open one apart, are not empty and hold no blank. -/
private theorem wordStep_inv (text : List Char) :
    (∀ c ∈ (text.foldr wordStep ([], [])).1, isBlank c = false) ∧
      ∀ w ∈ (text.foldr wordStep ([], [])).2, w ≠ [] ∧ ∀ c ∈ w, isBlank c = false := by
  induction text with
  | nil => simp
  | cons c rest ih =>
      obtain ⟨open_ok, closed_ok⟩ := ih
      by_cases h : isBlank c = true
      · refine ⟨by simp [wordStep, h], ?_⟩
        intro w hw
        simp only [List.foldr_cons, wordStep, h, if_true, consWord] at hw
        split at hw
        · exact closed_ok w hw
        · rename_i hne
          rcases List.mem_cons.mp hw with rfl | hw
          · exact ⟨by simpa using hne, open_ok⟩
          · exact closed_ok w hw
      · have hb : isBlank c = false := by simpa using h
        simp only [List.foldr_cons, wordStep, hb]
        refine ⟨?_, closed_ok⟩
        intro d hd
        rcases List.mem_cons.mp hd with rfl | hd
        · exact hb
        · exact open_ok d hd

/-- A word is not empty and holds no blank. -/
theorem mem_words {text w : List Char} (h : w ∈ words text) :
    w ≠ [] ∧ ∀ c ∈ w, isBlank c = false := by
  obtain ⟨open_ok, closed_ok⟩ := wordStep_inv text
  simp only [words, consWord] at h
  split at h
  · exact closed_ok w h
  · rename_i hne
    rcases List.mem_cons.mp h with rfl | h
    · exact ⟨by simpa using hne, open_ok⟩
    · exact closed_ok w h

private theorem foldr_wordStep_append {word : List Char} (h : ∀ c ∈ word, isBlank c = false)
    (state : List Char × List (List Char)) :
    word.foldr wordStep state = (word ++ state.1, state.2) := by
  induction word with
  | nil => rfl
  | cons c rest ih =>
      rw [List.foldr_cons, ih fun d hd => h d (List.mem_cons_of_mem _ hd), wordStep,
        h c List.mem_cons_self, if_neg Bool.false_ne_true]
      rfl

private theorem consWord_of_ne_nil {word : List Char} (h : word ≠ []) (later : List (List Char)) :
    consWord word later = word :: later := by
  cases word with
  | nil => exact absurd rfl h
  | cons c rest => rfl

/-- A text without blanks is one word. -/
theorem words_word {word : List Char} (hne : word ≠ []) (h : ∀ c ∈ word, isBlank c = false) :
    words word = [word] := by
  rw [words, foldr_wordStep_append h]
  dsimp only
  rw [List.append_nil, consWord_of_ne_nil hne]

/-- A blank ends a word. -/
theorem words_append_blank {word : List Char} (hne : word ≠ []) (h : ∀ c ∈ word, isBlank c = false)
    {blank : Char} (hblank : isBlank blank = true) (text : List Char) :
    words (word ++ blank :: text) = word :: words text := by
  rw [words, List.foldr_append, foldr_wordStep_append h, List.foldr_cons, wordStep, if_pos hblank]
  dsimp only
  rw [List.append_nil, consWord_of_ne_nil hne]
  rfl

/-! ## Trimming -/

/-- A text without its leading blanks. -/
def trimStart (text : List Char) : List Char :=
  text.dropWhile isBlank

/-- A text without its trailing blanks. -/
def trimEnd (text : List Char) : List Char :=
  (text.reverse.dropWhile isBlank).reverse

/-- A text without its leading and trailing blanks. -/
def trim (text : List Char) : List Char :=
  trimEnd (trimStart text)

end DocStore.Text
