import DocStore.Console

/-!
# The lines of an input

A console cuts lines out of bytes that arrive in pieces. It gets the lines that the whole input has when it
is split at its line breaks. A carriage return before a line break makes no difference, as blanks around
a line do not count.

## Contents
- `inputLines`, `inputTexts`: the lines of an input, as bytes and as texts.
- `lineText_withoutReturn`: the carriage return does not matter.
- `Console.cutLines_append`: lines are cut **piece by piece** as at once.
- `Console.inputTexts_eq`: and they are the lines of the input.
-/

namespace DocStore

open Text (Bytes)

/-! ## Lines -/

/-- The lines of an input. They end at line breaks; what is left behind the last one is a line if there is
    anything. -/
def inputLines (input : Bytes) : List Bytes :=
  let pieces := input.splitOn 0x0a
  if pieces.getLast? = some [] then pieces.dropLast else pieces

/-- The text of a line without blanks around it, if it is a text. -/
def lineText (line : Bytes) : Option String :=
  (Text.Utf8.decode line).toOption.map fun text => String.ofList (Text.trim text)

/-- The lines of an input as texts. -/
def inputTexts (input : Bytes) : List (Option String) :=
  (inputLines input).map lineText

/-! ## Lines and carriage returns -/

namespace Text

namespace Utf8

theorem isTail_return : isTail 13 = false := by decide

theorem isSecond_return (lead : Nat) : isSecond lead 13 = false := by
  rw [isSecond, isTail_return, Bool.false_and, Bool.false_and, Bool.false_and, Bool.false_and]

/-- A carriage return behind some bytes is a carriage return behind their text, as it is part of no other
    character. -/
theorem decodeFrom_concat_return (bytes : Bytes) (index : Nat) (seen : List Char) :
    (decodeFrom index seen (bytes ++ [0x0d])).toOption =
      (decodeFrom index seen bytes).toOption.map (· ++ ['\r']) := by
  have hreturn : width 13 = 1 := by decide
  have hok : ∀ text : List Char, (Except.ok text : Except Flaw (List Char)).toOption = some text :=
    fun _ => rfl
  have herror : ∀ flaw : Flaw, (Except.error flaw : Except Flaw (List Char)).toOption = none :=
    fun _ => rfl
  fun_induction decodeFrom index seen bytes with
  | case1 index seen => simp [decodeFrom, hreturn, hok]
  | _ =>
    rw [decodeFrom.eq_def]
    simp [isTail_return, isSecond_return, *]

end Utf8

/-- A blank at the end is trimmed. -/
theorem trim_concat {blank : Char} (h : isBlank blank = true) (text : List Char) :
    trim (text ++ [blank]) = trim text := by
  unfold trim trimStart
  rw [List.dropWhile_append]
  split
  · rename_i hnone
    rw [List.isEmpty_iff.mp hnone, List.dropWhile_cons_of_pos h]
    rfl
  · rw [trimEnd, List.reverse_concat, List.dropWhile_cons_of_pos h]
    rfl

end Text

/-- The carriage return at the end of a line does not matter. -/
theorem lineText_withoutReturn (line : Bytes) :
    lineText (Console.withoutReturn line.reverse).reverse = lineText line := by
  rcases List.eq_nil_or_concat line with rfl | ⟨front, last, rfl⟩
  · rfl
  rw [List.concat_eq_append, List.reverse_concat, Console.withoutReturn]
  split
  · rename_i hreturn
    rw [hreturn, List.reverse_reverse, lineText, lineText, Text.Utf8.decode, Text.Utf8.decode,
      Text.Utf8.decodeFrom_concat_return, Option.map_map]
    congr 1
    funext text
    show _ = String.ofList (Text.trim (text ++ ['\r']))
    rw [Text.trim_concat (by decide)]
  · rw [List.reverse_cons, List.reverse_reverse]

/-! ## Cutting lines -/

namespace Console

/-- Lines are cut piece by piece as at once. -/
theorem cutLines_append (first second : Bytes) : ∀ (done : List Bytes) (current : Bytes),
    cutLines done current (first ++ second) =
      cutLines (cutLines done current first).1.reverse (cutLines done current first).2.reverse
        second := by
  induction first with
  | nil =>
      intro done current
      rw [List.nil_append, cutLines, List.reverse_reverse, List.reverse_reverse]
  | cons b rest ih =>
      intro done current
      rw [List.cons_append, cutLines, cutLines]
      split
      · exact ih _ _
      · exact ih _ _

/-- The lines that came before stay in front. -/
theorem cutLines_done (bytes : Bytes) : ∀ (done : List Bytes) (current : Bytes),
    cutLines done current bytes =
      (done.reverse ++ (cutLines [] current bytes).1, (cutLines [] current bytes).2) := by
  induction bytes with
  | nil =>
      intro done current
      rw [cutLines, cutLines, List.reverse_nil, List.append_nil]
  | cons b rest ih =>
      intro done current
      rw [cutLines, cutLines]
      split
      · rw [ih, ih [_], List.reverse_cons, List.reverse_singleton, List.append_assoc]
      · exact ih _ _

private theorem modifyHead_nil (pieces : List Bytes) :
    pieces.modifyHead (([] : Bytes).reverse ++ ·) = pieces := by
  cases pieces with
  | nil => rfl
  | cons piece more => rfl

/-- Cutting lines is splitting at line breaks, but for the carriage returns. By induction on the bytes: the
    line that is open goes in front of the first piece. -/
theorem cutLines_eq_splitOn (bytes : Bytes) : ∀ current : Bytes, ∃ front last,
    (bytes.splitOn 0x0a).modifyHead (current.reverse ++ ·) = front ++ [last] ∧
      cutLines [] current bytes =
        (front.map fun line => (withoutReturn line.reverse).reverse, last) := by
  induction bytes with
  | nil =>
      intro current
      exact ⟨[], current.reverse, by simp, rfl⟩
  | cons b rest ih =>
      intro current
      rw [List.splitOn_eq_splitOnP, List.splitOnP_cons_eq_if_modifyHead, ← List.splitOn_eq_splitOnP,
        cutLines]
      by_cases hbreak : b = 0x0a
      · obtain ⟨front, last, hpieces, hcut⟩ := ih []
        have hsplit := (modifyHead_nil _).symm.trans hpieces
        refine ⟨current.reverse :: front, last, ?_, ?_⟩
        · rw [if_pos (beq_iff_eq.mpr hbreak), hsplit]
          simp
        · rw [if_pos hbreak, cutLines_done, hcut]
          simp
      · obtain ⟨front, last, hpieces, hcut⟩ := ih (b :: current)
        refine ⟨front, last, ?_, ?_⟩
        · rw [if_neg (by simpa using hbreak), List.modifyHead_modifyHead, ← hpieces]
          congr 1
          funext line
          simp
        · rw [if_neg hbreak, hcut]

/-- The lines of an input are those that are cut, and the open one if it is not empty. -/
theorem inputTexts_eq (input : Bytes) :
    inputTexts input = (cutLines [] [] input).1.map lineText ++
      if (cutLines [] [] input).2.isEmpty then [] else [lineText (cutLines [] [] input).2] := by
  obtain ⟨front, last, hpieces, hcut⟩ := cutLines_eq_splitOn input []
  have hsplit := (modifyHead_nil _).symm.trans hpieces
  have hfront : (front.map fun line => (withoutReturn line.reverse).reverse).map lineText =
      front.map lineText := by
    rw [List.map_map]
    apply List.map_congr_left
    intro line _
    exact lineText_withoutReturn line
  rw [inputTexts, inputLines, hsplit, hcut, List.getLast?_concat, hfront]
  cases last with
  | nil => simp
  | cons b more => simp

end Console

end DocStore
