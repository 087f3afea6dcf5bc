import DocStore.View
import Mathlib.Data.List.Basic

/-!
# The lines of a view

A view is written line by line, each with its line break, and then trimmed. If the last line ends with a
character that is no blank, trimming takes off the last line break and nothing else. So the lines are found
again as long as none of them holds a line break.

## Contents
- `Text.EndsInWord`, `Text.trimEnd_append`: what trimming takes off.
- `lines_concat`, `lines_newline`: a view and its last line break.
- `splitOn_lines`: **the lines of a view are found again**.
-/

namespace DocStore

namespace Text

/-- Whether the last character of a text is no blank. -/
def EndsInWord (text : List Char) : Prop :=
  ∃ front c, text = front ++ [c] ∧ isBlank c = false

section Trimming

variable {text gap : List Char}

theorem EndsInWord.of_last (hne : text ≠ []) (h : ∀ c ∈ text.getLast?, isBlank c = false) :
    EndsInWord text := by
  obtain ⟨front, c, rfl⟩ := (List.eq_nil_or_concat' text).resolve_left hne
  exact ⟨front, c, rfl, h c (by rw [List.getLast?_concat]; rfl)⟩

theorem EndsInWord.of_word (hne : text ≠ []) (h : ∀ c ∈ text, isBlank c = false) : EndsInWord text :=
  .of_last hne fun c hc => h c (List.mem_of_getLast? hc)

theorem EndsInWord.append (h : EndsInWord text) (front : List Char) : EndsInWord (front ++ text) := by
  obtain ⟨start, c, rfl, hc⟩ := h
  exact ⟨front ++ start, c, (List.append_assoc _ _ _).symm, hc⟩

/-- A text without blanks is on one line. -/
theorem newline_notMem (h : ∀ c ∈ text, isBlank c = false) : '\n' ∉ text :=
  fun hmem => absurd (h _ hmem) (by decide)

/-- Trimming takes off the blanks behind the last character that is none. -/
theorem trimEnd_append (h : EndsInWord text) (hgap : ∀ c ∈ gap, isBlank c = true) :
    trimEnd (text ++ gap) = text := by
  obtain ⟨front, c, rfl, hc⟩ := h
  have hreverse : ∀ d ∈ gap.reverse, isBlank d = true := fun d hd => hgap d (List.mem_reverse.mp hd)
  rw [trimEnd, List.reverse_append, List.reverse_concat, List.dropWhile_append_of_pos hreverse,
    List.dropWhile_cons_of_neg (by simp [hc]), List.reverse_cons, List.reverse_reverse]

end Trimming

end Text

namespace View

open Text (EndsInWord)

theorem flatMap_newline (front : List (List Char)) (last : List Char) :
    front.flatMap (· ++ ['\n']) ++ last = List.intercalate ['\n'] (front ++ [last]) := by
  induction front with
  | nil => simp
  | cons part front ih =>
      obtain ⟨next, rest, hrest⟩ := List.exists_cons_of_ne_nil (List.concat_ne_nil last front)
      rw [List.flatMap_cons, List.append_assoc, ih, List.cons_append, hrest,
        List.intercalate_cons_cons]

/-- Only the last line break is trimmed. -/
theorem lines_concat (front : List (List Char)) {last : List Char} (h : EndsInWord last) :
    lines (front ++ [last]) = front.flatMap (· ++ ['\n']) ++ last := by
  have htext : (front ++ [last]).flatMap (· ++ ['\n']) =
      (front.flatMap (· ++ ['\n']) ++ last) ++ ['\n'] := by simp
  unfold lines
  rw [htext]
  exact Text.trimEnd_append (h.append _) (by simp [Text.isBlank])

/-- What is trimmed off a view whose parts end with words. -/
theorem lines_newline {parts : List (List Char)} (hne : parts ≠ [])
    (h : ∀ part ∈ parts, EndsInWord part) : lines parts ++ ['\n'] = parts.flatMap (· ++ ['\n']) := by
  obtain ⟨front, last, rfl⟩ := (List.eq_nil_or_concat' parts).resolve_left hne
  rw [lines_concat front (h last (by simp))]
  simp

/-- **The lines of a view are found again** between its line breaks. -/
theorem splitOn_lines (front : List (List Char)) {last : List Char} (h : EndsInWord last)
    (hparts : ∀ part ∈ front ++ [last], '\n' ∉ part) :
    (lines (front ++ [last])).splitOn '\n' = front ++ [last] := by
  rw [lines_concat front h, flatMap_newline]
  exact List.splitOn_intercalate '\n' hparts (by simp)

end View

end DocStore
