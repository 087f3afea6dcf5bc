import DocStore.Proofs.Decimal.Numerals
import DocStore.Proofs.Json.ReadBack
import DocStore.Proofs.Text.Squeezing

/-!
# Squeezed JSON texts

The compact and the pretty text of a tree differ in the blanks between the parts, and a blank that stands
anywhere else is in a string. Squeezing such a text squeezes its parts: what is left of the blanks between
them is at most one, and the strings are squeezed one by one.

## Contents
- `Tree.isLoose`, `Tree.squeezeText`: the blanks that a string shows as they are, and the string without
  runs of them; `squeeze_quoted`: its text.
- `Tree.container`: parts between brackets with blanks around them; `squeeze_container`.
- `Tree.laidOut`: both texts of a tree; `laidOut_array`, `laidOut_object`: by its parts.
- `solid_laidOut`: the text of a tree starts and ends with a word.
-/

namespace DocStore.Tree

open Text (Solid squeeze squeeze_cons squeeze_append_cons squeeze_append_left squeeze_append_right
  squeeze_none squeeze_all isBlank)

/-! ## Strings -/

/-- Whether a character is a blank that stands in a JSON text as it is. -/
def isLoose (c : Char) : Bool :=
  isBlank c && decide (0x20 ≤ c.toNat)

/-- A string in which every run of such blanks is one blank. -/
def squeezeText (s : String) : String :=
  String.ofList (squeeze isLoose s.toList)

/-- A blank that is not escaped stands for itself, and no other character is written with a blank. -/
theorem escapeChar_cases (c : Char) :
    isLoose c = true ∧ isBlank c = true ∧ escapeChar c = [c] ∨
      isLoose c = false ∧ escapeChar c ≠ [] ∧ ∀ d ∈ escapeChar c, isBlank d = false := by
  have hdigit : ∀ n, isBlank (hexDigit n) = false := by
    have hall : ∀ m < 16, isBlank (Nat.digitChar m) = false := by decide
    exact fun n => hall (n % 16) (Nat.mod_lt _ (by decide))
  have hnamed : ∀ name, isBlank name = false →
      ['\\', name] ≠ [] ∧ ∀ d ∈ ['\\', name], isBlank d = false := by
    intro name hname
    have hescape : isBlank '\\' = false := rfl
    simp [hescape, hname]
  unfold escapeChar
  split
  · subst_vars
    exact Or.inr ⟨rfl, hnamed _ rfl⟩
  split
  · subst_vars
    exact Or.inr ⟨rfl, hnamed _ rfl⟩
  split
  · subst_vars
    exact Or.inr ⟨rfl, hnamed _ rfl⟩
  split
  · subst_vars
    exact Or.inr ⟨rfl, hnamed _ rfl⟩
  split
  · subst_vars
    exact Or.inr ⟨rfl, hnamed _ rfl⟩
  split
  · subst_vars
    exact Or.inr ⟨rfl, hnamed _ rfl⟩
  split
  · subst_vars
    exact Or.inr ⟨rfl, hnamed _ rfl⟩
  split
  · rename_i hcontrol
    refine Or.inr ⟨?_, List.cons_ne_nil _ _, ?_⟩
    · simp [isLoose, Nat.not_le.mpr hcontrol]
    · simp only [List.forall_mem_cons, hdigit, List.not_mem_nil, false_implies, implies_true, and_true]
      decide
  · rename_i hcontrol
    cases hblank : isBlank c with
    | true => exact Or.inl ⟨by simp [isLoose, hblank, Nat.not_lt.mp hcontrol], rfl, rfl⟩
    | false => exact Or.inr ⟨by simp [isLoose, hblank], List.cons_ne_nil _ _, by simpa using hblank⟩

/-- Squeezing the text of some characters squeezes the characters. -/
theorem squeeze_escaped (text : List Char) :
    squeeze isBlank (text.flatMap escapeChar) = (squeeze isLoose text).flatMap escapeChar := by
  induction text with
  | nil => rfl
  | cons c text ih =>
      rw [List.flatMap_cons]
      rcases escapeChar_cases c with ⟨hloose, hblank, hself⟩ | ⟨hloose, -, hsolid⟩
      · -- the text behind the blank starts with a blank exactly if the next character is one
        have hhead : (text.flatMap escapeChar).head?.any isBlank = text.head?.any isLoose := by
          cases text with
          | nil => rfl
          | cons d text =>
              rw [List.flatMap_cons]
              rcases escapeChar_cases d with ⟨hd, hdblank, hdself⟩ | ⟨hd, hne, hdsolid⟩
              · simp [hdself, hd, hdblank]
              · obtain ⟨e, rest, hcons⟩ := List.exists_cons_of_ne_nil hne
                have he : isBlank e = false := hdsolid e (by rw [hcons]; exact List.mem_cons_self)
                simp [hcons, hd, he]
        rw [hself, List.singleton_append, squeeze, squeeze, if_pos hblank, if_pos hloose, hhead, ih]
        split
        · rfl
        · rfl
      · have hlast : ∀ d ∈ (escapeChar c).getLast?, isBlank d = false :=
          fun d hd => hsolid d (List.mem_of_getLast? hd)
        rw [squeeze_append_left hlast, squeeze_none hsolid, ih, squeeze_cons hloose, List.flatMap_cons]

/-- **Squeezing the text of a string squeezes the string.** -/
theorem squeeze_quoted (s : String) : squeeze isBlank (quoted s) = quoted (squeezeText s) := by
  have hquote : isBlank '"' = false := by decide
  unfold quoted squeezeText
  rw [squeeze_cons hquote, squeeze_append_cons hquote, squeeze_escaped, String.toList_ofList]
  rfl

/-! ## Containers -/

/-- Parts between brackets, separated by commas, with blanks before each part and before the closing
    bracket. -/
def container (opening closing : Char) (gap margin : List Char) (parts : List (List Char)) :
    List Char :=
  opening :: (commaSeparated (parts.map (gap ++ ·)) ++ (margin ++ [closing]))

/-- Whether a text holds nothing but blanks. -/
def Blanks (text : List Char) : Prop :=
  ∀ c ∈ text, isBlank c = true

theorem blanks_nil : Blanks [] := fun _ h => absurd h List.not_mem_nil

theorem commaSeparated_cons (part next : List Char) (parts : List (List Char)) :
    commaSeparated (part :: next :: parts) = part ++ ',' :: commaSeparated (next :: parts) := rfl

/-- The last part ends a list of parts. -/
theorem commaSeparated_last {parts : List (List Char)}
    (h : ∀ part ∈ parts, ∀ c ∈ part.getLast?, isBlank c = false) (hne : ∀ part ∈ parts, part ≠ []) :
    ∀ c ∈ (commaSeparated parts).getLast?, isBlank c = false := by
  induction parts with
  | nil =>
      intro c hc
      cases hc
  | cons part parts ih =>
      obtain ⟨hpart, hrest⟩ := List.forall_mem_cons.mp h
      obtain ⟨-, hnonempty⟩ := List.forall_mem_cons.mp hne
      cases parts with
      | nil =>
          rw [show commaSeparated [part] = part from List.append_nil part]
          exact hpart
      | cons next parts =>
          intro c hc
          rw [commaSeparated_cons, List.getLast?_append_cons] at hc
          have hnext : commaSeparated (next :: parts) ≠ [] := by
            have hfirst := hnonempty next List.mem_cons_self
            cases parts with
            | nil => simpa [commaSeparated] using hfirst
            | cons second parts => simp [commaSeparated_cons]
          rw [List.getLast?_cons_of_ne_nil hnext] at hc
          exact ih hrest hnonempty c hc

/-- Squeezing a list of parts squeezes each part and the blanks before it. -/
theorem squeeze_commaSeparated (gap : List Char) {parts : List (List Char)}
    (h : ∀ part ∈ parts, Solid part) :
    squeeze isBlank (commaSeparated (parts.map (gap ++ ·))) =
      commaSeparated ((parts.map (squeeze isBlank)).map (squeeze isBlank gap ++ ·)) := by
  have hcomma : isBlank ',' = false := by decide
  induction parts with
  | nil => rfl
  | cons part parts ih =>
      obtain ⟨hpart, hrest⟩ := List.forall_mem_cons.mp h
      have hfirst : squeeze isBlank (gap ++ part) = squeeze isBlank gap ++ squeeze isBlank part :=
        squeeze_append_right hpart.head
      cases parts with
      | nil =>
          show squeeze isBlank (commaSeparated [gap ++ part]) = commaSeparated [_]
          unfold commaSeparated
          rw [List.intercalate_singleton, List.intercalate_singleton, hfirst]
      | cons next parts =>
          have hrest := ih hrest
          simp only [List.map_cons] at hrest ⊢
          rw [commaSeparated_cons, commaSeparated_cons, squeeze_append_cons hcomma, hfirst, hrest]

/-- **Squeezing a container squeezes its parts.** -/
theorem squeeze_container {opening closing : Char} (hopening : isBlank opening = false)
    (hclosing : isBlank closing = false) (gap margin : List Char) {parts : List (List Char)}
    (h : ∀ part ∈ parts, Solid part) :
    squeeze isBlank (container opening closing gap margin parts) =
      container opening closing (squeeze isBlank gap) (squeeze isBlank margin)
        (parts.map (squeeze isBlank)) := by
  have hlast : ∀ c ∈ (commaSeparated (parts.map (gap ++ ·))).getLast?, isBlank c = false := by
    apply commaSeparated_last
    · intro part hpart c hc
      obtain ⟨source, hsource, rfl⟩ := List.mem_map.mp hpart
      rw [List.getLast?_append_of_ne_nil _ (h source hsource).ne_nil] at hc
      exact (h source hsource).last c hc
    · intro part hpart
      obtain ⟨source, hsource, rfl⟩ := List.mem_map.mp hpart
      simp [(h source hsource).ne_nil]
  have hend : squeeze isBlank (margin ++ [closing]) = squeeze isBlank margin ++ [closing] := by
    rw [squeeze_append_cons hclosing]
    rfl
  unfold container
  rw [squeeze_cons hopening, squeeze_append_left hlast, squeeze_commaSeparated gap h, hend]

/-- What is left of blanks between the parts of a text are blanks between the parts. -/
theorem gap_squeeze {text : List Char} (h : Blanks text) :
    Json.Reader.Gap (Text.Utf8.encode (squeeze isBlank text)) := by
  by_cases hne : text = []
  · subst hne
    exact Json.Reader.gap_nil
  · rw [squeeze_all hne h]
    exact Json.Reader.gap_space

theorem encode_container (opening closing : Char) (gap margin : List Char) (parts : List (List Char)) :
    Text.Utf8.encode (container opening closing gap margin parts) =
      Text.Utf8.encodeChar opening ++
        (Json.Reader.listed true (Text.Utf8.encode gap) (parts.map Text.Utf8.encode) ++
          (Text.Utf8.encode margin ++ Text.Utf8.encodeChar closing)) := by
  unfold container
  rw [Text.Utf8.encode_cons, Text.Utf8.encode_append, Text.Utf8.encode_append,
    Json.Reader.encode_commaSeparated]
  congr 3
  exact List.append_nil _

theorem solid_container {opening closing : Char} (hopening : isBlank opening = false)
    (hclosing : isBlank closing = false) (gap margin : List Char) (parts : List (List Char)) :
    Solid (container opening closing gap margin parts) where
  ne_nil := List.cons_ne_nil _ _
  head := by simpa [container] using hopening
  last := by
    unfold container
    rw [← List.append_assoc, ← List.cons_append, List.getLast?_concat]
    simpa using hclosing

/-! ## Both texts of a tree -/

/-- A text of a tree: on one line, or with one item a line for a tree that starts on a line of a given
    level. -/
def laidOut : (level : Option Nat) → Tree → List Char
  | none, tree => tree.compact
  | some level, tree => tree.prettyAt level

theorem blanks_newline (level : Nat) : Blanks (newline level) := by
  refine List.forall_mem_cons.mpr ⟨by decide, ?_⟩
  intro c hc
  rw [List.eq_of_mem_replicate hc]
  decide

theorem block_eq_container (level : Nat) (opening closing : Char) (parts : List (List Char)) :
    ∃ margin, Blanks margin ∧
      block level opening closing parts =
        container opening closing (newline (level + 1)) margin parts := by
  cases parts with
  | nil => exact ⟨[], blanks_nil, rfl⟩
  | cons part parts =>
      refine ⟨newline level, blanks_newline level, ?_⟩
      rw [block, container, if_neg (by simp), List.append_assoc]

theorem compact_eq_container (opening closing : Char) (parts : List (List Char)) :
    opening :: (commaSeparated parts ++ [closing]) = container opening closing [] [] parts := by
  simp [container]

/-- The text of an array by the texts of its items. -/
theorem laidOut_array (level : Option Nat) (items : List Tree) :
    ∃ gap margin, Blanks gap ∧ Blanks margin ∧ laidOut level (.array items) =
      container '[' ']' gap margin (items.map (laidOut (level.map (· + 1)))) := by
  cases level with
  | none =>
      refine ⟨[], [], blanks_nil, blanks_nil, ?_⟩
      rw [laidOut, compact, compact_eq_container, compactItems_eq]
      rfl
  | some level =>
      obtain ⟨margin, hmargin, hblock⟩ := block_eq_container level '[' ']' (prettyItems (level + 1) items)
      refine ⟨newline (level + 1), margin, blanks_newline _, hmargin, ?_⟩
      rw [laidOut, prettyAt, hblock, prettyItems_eq]
      rfl

/-- The text of an object by the texts of its members. -/
theorem laidOut_object (level : Option Nat) (members : List (String × Tree)) :
    ∃ gap margin space, Blanks gap ∧ Blanks margin ∧ Blanks space ∧ laidOut level (.object members) =
      container '\x7b' '\x7d' gap margin (members.map fun member =>
        quoted member.1 ++ ':' :: (space ++ laidOut (level.map (· + 1)) member.2)) := by
  cases level with
  | none =>
      refine ⟨[], [], [], blanks_nil, blanks_nil, blanks_nil, ?_⟩
      rw [laidOut, compact, compact_eq_container, compactMembers_eq]
      rfl
  | some level =>
      obtain ⟨margin, hmargin, hblock⟩ :=
        block_eq_container level '\x7b' '\x7d' (prettyMembers (level + 1) members)
      have hspace : Blanks [' '] := by
        intro c hc
        rw [List.mem_singleton.mp hc]
        decide
      refine ⟨newline (level + 1), margin, [' '], blanks_newline _, hmargin, hspace, ?_⟩
      rw [laidOut, prettyAt, hblock, prettyMembers_eq]
      rfl

/-- A scalar has one text. -/
theorem laidOut_scalar {tree : Tree} (h : ∀ level, prettyAt level tree = tree.compact)
    (level : Option Nat) : laidOut level tree = tree.compact := by
  cases level with
  | none => rfl
  | some level => exact h level

theorem isBlank_null : ∀ c ∈ null.compact, isBlank c = false := by
  simp [compact, isBlank]

theorem isBlank_bool (b : Bool) : ∀ c ∈ (bool b).compact, isBlank c = false := by
  cases b with
  | false => simp [compact, isBlank]
  | true => simp [compact, isBlank]

theorem isNumeral_numberText (n : Number) : ∀ c ∈ numberText n, Decimal.isNumeral c = true := by
  cases n with
  | integer value lower upper => exact Decimal.mem_intText value
  | binary value finite =>
      have hmark : ∀ c ∈ Decimal.Layout.json.wholeMark, Decimal.isNumeral c = true := by
        simp [Decimal.Layout.json, Decimal.isNumeral, Decimal.isDigit]
      exact Decimal.mem_finite hmark value

/-- A number text holds no blank. -/
theorem isBlank_numberText (n : Number) : ∀ c ∈ numberText n, isBlank c = false :=
  fun c hc => Decimal.isBlank_of_numeral (isNumeral_numberText n c hc)

theorem numberText_ne_nil (n : Number) : numberText n ≠ [] := by
  intro hnil
  obtain ⟨read, hread⟩ := Json.Reader.signed_numberText n
  obtain ⟨b, tail, htext, -⟩ := hread [] Json.Reader.delimited_nil
  rw [hnil] at htext
  cases htext

theorem solid_of_no_blank {text : List Char} (hne : text ≠ []) (h : ∀ c ∈ text, isBlank c = false) :
    Solid text where
  ne_nil := hne
  head := fun c hc => h c (List.mem_of_mem_head? hc)
  last := fun c hc => h c (List.mem_of_getLast? hc)

theorem solid_quoted (s : String) : Solid (quoted s) where
  ne_nil := List.cons_ne_nil _ _
  head := by simp [quoted, isBlank]
  last := by
    unfold quoted
    rw [← List.cons_append, List.getLast?_concat]
    simp [isBlank]

theorem solid_member (key : String) (space : List Char) {text : List Char} (h : Solid text) :
    Solid (quoted key ++ ':' :: (space ++ text)) where
  ne_nil := List.cons_ne_nil _ _
  head := by simp [quoted, isBlank]
  last := by
    have hne : space ++ text ≠ [] := by simp [h.ne_nil]
    intro c hc
    rw [List.getLast?_append_cons, List.getLast?_cons_of_ne_nil hne,
      List.getLast?_append_of_ne_nil _ h.ne_nil] at hc
    exact h.last c hc

/-- Squeezing a member squeezes its key and its value. -/
theorem squeeze_member (key : String) (space : List Char) {text : List Char} (h : Solid text) :
    squeeze isBlank (quoted key ++ ':' :: (space ++ text)) =
      quoted (squeezeText key) ++ ':' :: (squeeze isBlank space ++ squeeze isBlank text) := by
  rw [squeeze_append_cons (by decide), squeeze_quoted, squeeze_append_right h.head]

/-- **The text of a tree starts and ends with a word.** -/
theorem solid_laidOut (level : Option Nat) (tree : Tree) : Solid (laidOut level tree) := by
  cases tree with
  | null =>
      rw [laidOut_scalar fun _ => rfl]
      exact solid_of_no_blank (List.cons_ne_nil _ _) isBlank_null
  | bool b =>
      have hne : (bool b).compact ≠ [] := by
        cases b with
        | false => exact List.cons_ne_nil _ _
        | true => exact List.cons_ne_nil _ _
      rw [laidOut_scalar fun _ => rfl]
      exact solid_of_no_blank hne (isBlank_bool b)
  | number n =>
      rw [laidOut_scalar fun _ => rfl]
      exact solid_of_no_blank (numberText_ne_nil n) (isBlank_numberText n)
  | string s =>
      rw [laidOut_scalar fun _ => rfl]
      exact solid_quoted s
  | array items =>
      obtain ⟨gap, margin, -, -, htext⟩ := laidOut_array level items
      rw [htext]
      exact solid_container (by decide) (by decide) _ _ _
  | object members =>
      obtain ⟨gap, margin, space, -, -, -, htext⟩ := laidOut_object level members
      rw [htext]
      exact solid_container (by decide) (by decide) _ _ _

end DocStore.Tree
