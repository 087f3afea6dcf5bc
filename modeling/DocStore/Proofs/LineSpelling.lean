import DocStore.Proofs.Execution
import DocStore.Proofs.Text.Squeezing
import Mathlib.Logic.Relation

/-!
# How a line is spelt

A line may be spelt in many ways: its words may stand any number of blanks apart, and its verb may be
written in either case. What is executed are the words, so none of this shows in the reply or in the
database.

## Contents
- `Text.words_append_blanks`, `Text.words_eq_nil_iff`, `Text.flatten_words`: words and the blanks between
  them.
- `Text.SameLetters`, `Text.uppercase_congr`: letters of ASCII in either case.
- `Respelt`: the changes of spelling; `Respelt.keyWords_eq`: what one of them keeps.
- `respelt_iff`: **which lines are spellings of one another**.
- `parse_joinTokens`: the words of a line with single blanks between them.
- `execute_respelt`: **lines that differ in their spelling do the same**.
-/

namespace DocStore

namespace Text

/-! ## Blanks between words -/

section Blanks

variable {gap text : List Char}

theorem words_blanks_append (h : ∀ c ∈ gap, isBlank c = true) (text : List Char) :
    words (gap ++ text) = words text := by
  induction gap with
  | nil => rfl
  | cons c gap ih =>
      obtain ⟨hc, hgap⟩ := List.forall_mem_cons.mp h
      rw [List.cons_append, words_cons_blank hc, ih hgap]

/-- A run of blanks separates the words before it from those behind it. -/
theorem words_append_blanks (hne : gap ≠ []) (h : ∀ c ∈ gap, isBlank c = true) (a b : List Char) :
    words (a ++ gap ++ b) = words a ++ words b := by
  obtain ⟨c, rest, rfl⟩ := List.exists_cons_of_ne_nil hne
  obtain ⟨hc, hrest⟩ := List.forall_mem_cons.mp h
  rw [List.append_assoc, List.cons_append, words_append hc, words_blanks_append hrest]

/-- Only a text of blanks has no words. -/
theorem words_eq_nil_iff (text : List Char) : words text = [] ↔ ∀ c ∈ text, isBlank c = true := by
  induction text with
  | nil => simp
  | cons c text ih =>
      cases hc : isBlank c with
      | true => rw [words_cons_blank hc, ih, List.forall_mem_cons, and_iff_right hc]
      | false =>
          obtain ⟨word, later, hwords⟩ := words_head hc text
          simp [hwords, hc]

/-- **The characters of the words** are those of the text that are no blanks, in their order. -/
theorem flatten_words (text : List Char) : (words text).flatten = text.filter (!isBlank ·) := by
  induction text with
  | nil => rfl
  | cons c text ih =>
      cases hc : isBlank c with
      | true =>
          rw [words_cons_blank hc, ih, List.filter_cons_of_neg (by simp [hc])]
      | false =>
          rw [List.filter_cons_of_pos (by simp [hc]), ← ih]
          -- the character is a word of its own or belongs to the word behind it
          cases text with
          | nil => rw [words_cons_end hc (by simp)]; rfl
          | cons d text =>
              cases hd : isBlank d with
              | true => rw [words_cons_end hc (by simpa using hd)]; rfl
              | false =>
                  obtain ⟨word, later, hwords, hlonger⟩ := words_cons_word hc hd text
                  rw [hwords, hlonger]
                  rfl

/-- The first word of a text and what is left behind it. -/
theorem exists_word {c : Char} (hc : isBlank c = false) (text : List Char) :
    ∃ word rest, c :: text = word ++ rest ∧ word ≠ [] ∧ (∀ d ∈ word, isBlank d = false) ∧
      ∀ d ∈ rest.head?, isBlank d = true := by
  induction text generalizing c with
  | nil => exact ⟨[c], [], rfl, by simp, by simpa using hc, by simp⟩
  | cons d text ih =>
      cases hd : isBlank d with
      | true => exact ⟨[c], d :: text, rfl, by simp, by simpa using hc, by simpa using hd⟩
      | false =>
          obtain ⟨word, rest, htext, -, hword, hrest⟩ := ih hd
          exact ⟨c :: word, rest, by rw [htext]; rfl, by simp,
            List.forall_mem_cons.mpr ⟨hc, hword⟩, hrest⟩

/-- A word ends where the text ends or a blank begins. -/
theorem words_append_rest {word rest : List Char} (hne : word ≠ [])
    (hword : ∀ c ∈ word, isBlank c = false) (hrest : ∀ c ∈ rest.head?, isBlank c = true) :
    words (word ++ rest) = word :: words rest := by
  cases rest with
  | nil => rw [List.append_nil, words_word hne hword, words_nil]
  | cons c rest =>
      have hc : isBlank c = true := hrest c rfl
      rw [words_append_blank hne hword hc, words_cons_blank hc]

end Blanks

/-! ## Letters in either case -/

/-- Whether two texts differ in nothing but the case of letters of ASCII. -/
def SameLetters (a b : List Char) : Prop :=
  a.map Char.toUpper = b.map Char.toUpper

section Letters

variable {c d : Char} {a b : List Char}

theorem toNat_toUpper (c : Char) :
    c.toUpper.toNat = if 97 ≤ c.toNat ∧ c.toNat ≤ 122 then c.toNat - 32 else c.toNat := by
  have hlower : 'a'.val ≤ c.val ∧ c.val ≤ 'z'.val ↔ 97 ≤ c.toNat ∧ c.toNat ≤ 122 := by
    simp only [UInt32.le_iff_toNat_le]
    rfl
  unfold Char.toUpper
  split
  · rename_i h
    have hrange := hlower.mp h
    -- the distance of the cases is negative, so the sum passes the end of the word
    have hsum : (c.val + ('A'.val - 'a'.val)).toNat = (c.toNat + (2 ^ 32 - 32)) % 2 ^ 32 := by
      rw [UInt32.toNat_add]
      rfl
    rw [if_pos hrange]
    show (c.val + ('A'.val - 'a'.val)).toNat = _
    omega
  · rename_i h
    rw [if_neg fun hrange => h (hlower.mpr hrange)]

/-- Characters that differ in case only lie among the letters of ASCII. -/
theorem eq_or_among_letters (h : c.toUpper = d.toUpper) :
    c = d ∨ (65 ≤ c.toNat ∧ c.toNat ≤ 122) ∧ 65 ≤ d.toNat ∧ d.toNat ≤ 122 := by
  have hnat := congrArg Char.toNat h
  rw [toNat_toUpper, toNat_toUpper] at hnat
  by_cases hsame : c.toNat = d.toNat
  · exact Or.inl (Char.toNat_inj.mp hsame)
  · refine Or.inr ?_
    split at hnat <;> split at hnat <;> omega

theorem isBlank_of_letter (h : 65 ≤ c.toNat ∧ c.toNat ≤ 122) : isBlank c = false := by
  simp [isBlank]
  omega

theorem isBlank_congr (h : c.toUpper = d.toUpper) : isBlank c = isBlank d := by
  rcases eq_or_among_letters h with rfl | ⟨hc, hd⟩
  · rfl
  · rw [isBlank_of_letter hc, isBlank_of_letter hd]

theorem upperChar_congr (h : c.toUpper = d.toUpper) : upperChar c = upperChar d := by
  rcases eq_or_among_letters h with rfl | ⟨hc, hd⟩
  · rfl
  · rw [upperChar_ascii (by omega), upperChar_ascii (by omega), h]

theorem SameLetters.cons_inv (h : SameLetters (c :: a) b) :
    ∃ d later, b = d :: later ∧ c.toUpper = d.toUpper ∧ SameLetters a later := by
  cases b with
  | nil => cases h
  | cons d later =>
      obtain ⟨hhead, htail⟩ := List.cons.inj h
      exact ⟨d, later, rfl, hhead, htail⟩

/-- **The upper case of a text** does not depend on the case of its letters of ASCII. -/
theorem uppercase_congr (h : SameLetters a b) : uppercase a = uppercase b := by
  induction a generalizing b with
  | nil => rw [List.map_eq_nil_iff.mp h.symm]
  | cons c a ih =>
      obtain ⟨d, later, rfl, hhead, htail⟩ := h.cons_inv
      show upperChar c ++ uppercase a = upperChar d ++ uppercase later
      rw [upperChar_congr hhead, ih htail]

theorem SameLetters.no_blank (h : SameLetters a b) (ha : ∀ c ∈ a, isBlank c = false) :
    ∀ d ∈ b, isBlank d = false := by
  induction a generalizing b with
  | nil => simp [List.map_eq_nil_iff.mp h.symm]
  | cons c a ih =>
      obtain ⟨d, later, rfl, hhead, htail⟩ := h.cons_inv
      obtain ⟨hc, hrest⟩ := List.forall_mem_cons.mp ha
      exact List.forall_mem_cons.mpr ⟨isBlank_congr hhead ▸ hc, ih htail hrest⟩

end Letters

end Text

/-! ## Changes of spelling -/

open Text

/-- One change of the spelling of a line. With their inverses, and one after another, these are all the
    ways in which a line may be spelt anew. -/
inductive Respelt : List Char → List Char → Prop
  /-- Another run of blanks takes the place of one. -/
  | gap {gap other : List Char} (front back : List Char) (hgap : gap ≠ [] ∧ ∀ c ∈ gap, isBlank c = true)
      (hother : other ≠ [] ∧ ∀ c ∈ other, isBlank c = true) :
      Respelt (front ++ gap ++ back) (front ++ other ++ back)
  /-- Blanks are put in front of the line. -/
  | leading {gap : List Char} (text : List Char) (hgap : ∀ c ∈ gap, isBlank c = true) :
      Respelt text (gap ++ text)
  /-- Blanks are put behind the line. -/
  | trailing {gap : List Char} (text : List Char) (hgap : ∀ c ∈ gap, isBlank c = true) :
      Respelt text (text ++ gap)
  /-- Letters of ASCII in the first word change their case. -/
  | verb {gap verb other rest : List Char} (hgap : ∀ c ∈ gap, isBlank c = true)
      (hverb : ∀ c ∈ verb, isBlank c = false) (hrest : ∀ c ∈ rest.head?, isBlank c = true)
      (hsame : SameLetters verb other) : Respelt (gap ++ verb ++ rest) (gap ++ other ++ rest)

/-- The words of a line, with the letters of ASCII in the first one in upper case. -/
def keyWords (line : List Char) : List (List Char) :=
  (words line).modifyHead (List.map Char.toUpper)

/-- **A change of spelling** keeps the words, up to the case of the first one. -/
theorem Respelt.keyWords_eq {line other : List Char} (h : Respelt line other) :
    keyWords line = keyWords other := by
  cases h with
  | gap front back hgap hother =>
      unfold keyWords
      rw [words_append_blanks hgap.1 hgap.2, words_append_blanks hother.1 hother.2]
  | leading text hgap =>
      unfold keyWords
      rw [words_blanks_append hgap]
  | @trailing gap text hgap =>
      unfold keyWords
      cases gap with
      | nil => rw [List.append_nil]
      | cons c gap =>
          have hwords := words_append_blanks (List.cons_ne_nil c gap) hgap line []
          rw [List.append_nil, words_nil, List.append_nil] at hwords
          rw [hwords]
  | @verb gap verb other rest hgap hverb hrest hsame =>
      cases verb with
      | nil => rw [List.map_eq_nil_iff.mp hsame.symm]
      | cons c verb =>
          have hother := hsame.no_blank hverb
          obtain ⟨d, later, rfl, -, -⟩ := hsame.cons_inv
          unfold keyWords
          rw [List.append_assoc, List.append_assoc, words_blanks_append hgap, words_blanks_append hgap,
            words_append_rest (List.cons_ne_nil _ _) hverb hrest,
            words_append_rest (List.cons_ne_nil _ _) hother hrest, List.modifyHead_cons,
            List.modifyHead_cons, hsame]

/-- Any number of changes keeps them. -/
theorem keyWords_eq_of_respelt {line other : List Char} (h : Relation.EqvGen Respelt line other) :
    keyWords line = keyWords other := by
  induction h with
  | rel line other h => exact h.keyWords_eq
  | refl line => rfl
  | symm line other _ ih => exact ih.symm
  | trans line between other _ _ ih ih' => exact ih.trans ih'

/-- Words with a single blank behind each of them. -/
def spaced (tokens : List (List Char)) : List Char :=
  tokens.flatMap (· ++ [' '])

theorem spaced_cons (token : List Char) (tokens : List (List Char)) :
    spaced (token :: tokens) = token ++ ' ' :: spaced tokens := by
  simp [spaced]

/-- A single blank takes the place of a run of blanks. -/
theorem Respelt.single {gap : List Char} (front back : List Char) (hgap : gap ≠ [])
    (h : ∀ c ∈ gap, isBlank c = true) : Respelt (front ++ gap ++ back) (front ++ ' ' :: back) := by
  have hgap : Respelt (front ++ gap ++ back) (front ++ [' '] ++ back) :=
    .gap front back ⟨hgap, h⟩ (by simp [isBlank])
  rwa [List.append_assoc front [' ']] at hgap

/-- Behind a blank, a text can be respelt with a single blank behind each word. By induction on the
    length, a blank or a word at a time. -/
theorem respelt_spaced (front text : List Char) :
    Relation.EqvGen Respelt (front ++ ' ' :: text) (front ++ ' ' :: spaced (words text)) := by
  have hspace : isBlank ' ' = true := by decide
  induction hlength : text.length using Nat.strongRecOn generalizing front text with
  | ind n ih =>
      cases text with
      | nil => exact .refl _
      | cons c text =>
          cases hc : isBlank c with
          | true =>
              have hgap : Respelt (front ++ [' ', c] ++ text) (front ++ ' ' :: text) :=
                .single front text (by simp) (by simp [hspace, hc])
              have hrest := ih text.length (by simp [← hlength]) front text rfl
              rw [List.append_assoc] at hgap
              rw [words_cons_blank hc]
              exact .trans _ _ _ (.rel _ _ hgap) hrest
          | false =>
              obtain ⟨word, rest, htext, hne, hword, hrest⟩ := exists_word hc text
              rw [htext] at hlength ⊢
              rw [words_append_rest hne hword hrest, spaced_cons]
              cases rest with
              | nil =>
                  have htrailing := @Respelt.trailing [' '] (front ++ ' ' :: word) (by simp [hspace])
                  rw [List.append_assoc] at htrailing
                  rw [List.append_nil]
                  exact .rel _ _ htrailing
              | cons d rest =>
                  have hd : isBlank d = true := hrest d rfl
                  have hgap : Respelt ((front ++ ' ' :: word) ++ [d] ++ rest)
                      ((front ++ ' ' :: word) ++ ' ' :: rest) :=
                    .single _ rest (by simp) (by simp [hd])
                  have hlater := ih rest.length (by simp at hlength; omega) (front ++ ' ' :: word) rest rfl
                  simp only [List.append_assoc, List.cons_append, List.nil_append] at hgap hlater
                  rw [words_cons_blank hd]
                  exact .trans _ _ _ (.rel _ _ hgap) hlater

/-- **Which lines are spellings of one another**: those with the same words, up to the case of the first. -/
theorem respelt_iff {line other : List Char} :
    Relation.EqvGen Respelt line other ↔ keyWords line = keyWords other := by
  refine ⟨keyWords_eq_of_respelt, fun h => ?_⟩
  have hspace : isBlank ' ' = true := by decide
  have hline : ∀ line, Relation.EqvGen Respelt line (' ' :: spaced (words line)) := fun line =>
    .trans _ _ _ (.rel _ _ (@Respelt.leading [' '] line (by simp [hspace]))) (respelt_spaced [] line)
  -- the lines with single blanks differ in the case of the first word only
  have hverb : Relation.EqvGen Respelt (' ' :: spaced (words line)) (' ' :: spaced (words other)) := by
    unfold keyWords at h
    cases hwords : words line with
    | nil =>
        rw [hwords] at h
        rw [List.modifyHead_eq_nil_iff.mp h.symm]
        exact .refl _
    | cons verb later =>
        have hmem : ∀ c ∈ verb, isBlank c = false :=
          (mem_words (hwords ▸ List.mem_cons_self : verb ∈ words line)).2
        rw [hwords] at h
        cases hothers : words other with
        | nil =>
            rw [hothers] at h
            cases h
        | cons verb' later' =>
            rw [hothers, List.modifyHead_cons, List.modifyHead_cons] at h
            obtain ⟨hsame, rfl⟩ := List.cons.inj h
            rw [spaced_cons, spaced_cons]
            exact .rel _ _ (@Respelt.verb [' '] verb verb' (' ' :: spaced later) (by simp [hspace]) hmem
              (by simp [hspace]) hsame)
  exact .trans _ _ _ (hline line) (.trans _ _ _ hverb (.symm _ _ (hline other)))

/-! ## Lines -/

namespace CommandLine

variable {line other : String} {parsed : CommandLine}

theorem parse_congr (h : words line.toList = words other.toList) : parse line = parse other := by
  unfold parse
  rw [h]

theorem parse_eq_none_iff (line : String) :
    parse line = none ↔ ∀ c ∈ line.toList, isBlank c = true := by
  rw [← words_eq_nil_iff]
  unfold parse
  split
  · rename_i hwords
    simp [hwords]
  · rename_i hwords
    simp [hwords]

theorem tokens_of_parse (h : parse line = some parsed) :
    parsed.tokens = (words line.toList).map String.ofList := by
  unfold parse at h
  split at h
  · cases h
  · rename_i hwords
    cases h
    rw [hwords]
    rfl

/-- **The words of a line with single blanks between them** are cut into the same words. -/
theorem parse_joinTokens (h : parse line = some parsed) :
    parse (joinTokens parsed.tokens) = some parsed := by
  rw [← h]
  apply parse_congr
  rw [tokens_of_parse h, toList_joinTokens, String.toList_ofList,
    words_intercalate fun token htoken => mem_words htoken]

end CommandLine

namespace Database

/-- What is executed are the words, up to the case of the first one. -/
theorem execute_of_keyWords (db : Database) (now : Millis) {line other : String}
    (h : keyWords line.toList = keyWords other.toList) : db.execute now other = db.execute now line := by
  unfold keyWords at h
  unfold execute CommandLine.parse
  cases hline : words line.toList with
  | nil =>
      rw [hline] at h
      cases hother : words other.toList with
      | nil => rfl
      | cons first rest =>
          rw [hother] at h
          cases h
  | cons first rest =>
      rw [hline] at h
      cases hother : words other.toList with
      | nil =>
          rw [hother] at h
          cases h
      | cons first' rest' =>
          rw [hother, List.modifyHead_cons, List.modifyHead_cons] at h
          obtain ⟨hfirst, rfl⟩ := List.cons.inj h
          -- the verb is read in upper case, where the difference is gone
          have hverb : uppercase first' = uppercase first := uppercase_congr hfirst.symm
          simp only [executeLine, CommandLine.verb, String.toList_ofList, hverb]

/-- **The spelling of a line does not matter.** Lines that differ in it have the same reply and leave the
    same database behind, and a line has no reply exactly if it is blank. The words of any other line,
    with single blanks between them, are cut into these words again, so they do the same as the line;
    together they are its characters that are no blanks. -/
theorem execute_respelt (db : Database) (now : Millis) (line : String) :
    (∀ other, Relation.EqvGen Respelt line.toList other.toList →
      db.execute now other = db.execute now line) ∧
    ((db.execute now line).1 = none ↔ ∀ c ∈ line.toList, isBlank c = true) ∧
    ∀ parsed, CommandLine.parse line = some parsed →
      CommandLine.parse (joinTokens parsed.tokens) = some parsed ∧
      db.execute now (joinTokens parsed.tokens) = db.execute now line ∧
      (∀ token ∈ parsed.tokens, token ≠ "" ∧ ∀ c ∈ token.toList, isBlank c = false) ∧
      parsed.tokens.flatMap String.toList = line.toList.filter (!isBlank ·) := by
  refine ⟨?_, ?_, ?_⟩
  · intro other hrespelt
    exact execute_of_keyWords db now (keyWords_eq_of_respelt hrespelt)
  · rw [← CommandLine.parse_eq_none_iff]
    unfold execute
    cases CommandLine.parse line with
    | none => simp
    | some parsed => simp
  · intro parsed hparse
    have hjoined := CommandLine.parse_joinTokens hparse
    have htokens := CommandLine.tokens_of_parse hparse
    refine ⟨hjoined, ?_, ?_, ?_⟩
    · unfold execute
      rw [hjoined, hparse]
    · intro token htoken
      rw [htokens] at htoken
      obtain ⟨word, hword, rfl⟩ := List.mem_map.mp htoken
      obtain ⟨hne, hblank⟩ := mem_words hword
      rw [String.toList_ofList]
      exact ⟨fun hempty => hne (by simpa using congrArg String.toList hempty), hblank⟩
    · rw [htokens, List.flatMap_map, ← flatten_words]
      simp only [String.toList_ofList]
      rw [List.flatMap_id']

/-- The line `get k` with a tab and a blank in front, with a line separator and a blank between its words,
    and with its verb as `gEt`. -/
theorem execute_respelt_verb :
    Relation.EqvGen Respelt "get k".toList "\t gEt\u2028 k".toList ∧
      empty.execute 0 "\t gEt\u2028 k" = empty.execute 0 "get k" := by
  have hline : "get k".toList = ['g', 'e', 't'] ++ [' '] ++ ['k'] := rfl
  have hother : "\t gEt\u2028 k".toList =
      ['\t', ' '] ++ ['g', 'E', 't'] ++ ['\u2028', ' ', 'k'] := rfl
  have hrespelt : Relation.EqvGen Respelt "get k".toList "\t gEt\u2028 k".toList := by
    rw [hline, hother]
    have hgap : Respelt (['g', 'e', 't'] ++ [' '] ++ ['k'])
        (['g', 'e', 't'] ++ ['\u2028', ' '] ++ ['k']) :=
      .gap _ _ (by simp [isBlank]) (by simp [isBlank])
    have hleading : Respelt (['g', 'e', 't'] ++ ['\u2028', ' '] ++ ['k'])
        (['\t', ' '] ++ ['g', 'e', 't'] ++ ['\u2028', ' ', 'k']) :=
      @Respelt.leading ['\t', ' '] _ (by simp [isBlank])
    have hverb : Respelt (['\t', ' '] ++ ['g', 'e', 't'] ++ ['\u2028', ' ', 'k'])
        (['\t', ' '] ++ ['g', 'E', 't'] ++ ['\u2028', ' ', 'k']) :=
      .verb (by simp [isBlank]) (by simp [isBlank]) (by simp [isBlank]) rfl
    exact .trans _ _ _ (.rel _ _ hgap) (.trans _ _ _ (.rel _ _ hleading) (.rel _ _ hverb))
  exact ⟨hrespelt, (execute_respelt empty 0 "get k").1 _ hrespelt⟩

end Database

end DocStore
