import DocStore.Proofs.Decimal.ReadBack
import DocStore.Proofs.Json.Spelling

/-!
# Values and their pretty texts

A pretty text shows where it ends and which value it is: two texts that start alike, with something behind
them that does not continue a number, are those of one value. The first character tells the kind of a value.
A string ends at its closing quote and a number before the first character that no number has. Behind an
item there is a comma or a line break, so the items of an array are told apart one after the other.

## Contents
- `Layout.code_inj`, `Layout.finite_inj`: the text of a finite number tells the number, signed zeros included.
- `Tree.numberText_inj`: integers and other numbers are told apart.
- `Tree.Ends`, `quoted_append_inj`, `numberText_append_inj`: where strings and numbers end.
- `Tree.SameKind`: trees of one kind, which their first characters tell.
- `Tree.Tells`, `Tree.tells`: **a pretty text tells its tree**, whatever stands behind it.
-/

namespace DocStore

/-! ## Numbers -/

namespace Decimal

open Binary64

section Layouts

variable {layout : Layout}

/-- The text of a finite magnitude tells the magnitude, which is nearest to what the text says. -/
theorem Layout.code_inj (hmark : layout.wholeMark = [] ∨ layout.wholeMark = ['.', '0']) {a b : Nat}
    (ha : a < infinityCode) (hb : b < infinityCode) (h : layout.code a = layout.code b) : a = b := by
  have hsays := layout.says_code hmark a
  have hnearest : Nearest (if a = 0 then 0 else (shortest layout.tie a).exact) a :=
    nearest_says_code ha
  rw [h] at hsays
  have hvalue := hsays.unique (layout.says_code hmark b)
  rw [hvalue] at hnearest
  exact hnearest.unique (nearest_says_code hb)

theorem Layout.splitSign_finite (hmark : layout.wholeMark = [] ∨ layout.wholeMark = ['.', '0'])
    (x : Binary64) : splitSign (layout.finite x) = (x.negative, layout.code x.code) := by
  unfold Layout.finite
  cases x.negative with
  | true => rw [if_pos rfl, splitSign]
  | false =>
      rw [if_neg Bool.false_ne_true]
      refine splitSign_of_head fun c hc => ?_
      obtain ⟨hminus, hplus, -⟩ := (layout.says_code hmark x.code).head c hc
      exact ⟨hminus, hplus⟩

/-- **The text of a finite number tells the number**, with the sign of a zero. -/
theorem Layout.finite_inj (hmark : layout.wholeMark = [] ∨ layout.wholeMark = ['.', '0'])
    {x y : Binary64} (hx : x.isFinite = true) (hy : y.isFinite = true)
    (h : layout.finite x = layout.finite y) : x = y := by
  have hsplit := layout.splitSign_finite hmark x
  rw [h, layout.splitSign_finite hmark y] at hsplit
  obtain ⟨hnegative, hcode⟩ := Prod.mk.inj hsplit
  exact ext_code hnegative.symm
    (layout.code_inj hmark (of_decide_eq_true hx) (of_decide_eq_true hy) hcode.symm)

end Layouts

/-- A number that is no integer is marked by a point or by an exponent. -/
theorem json_finite_marked (x : Binary64) : ∃ c ∈ Layout.json.finite x, c = '.' ∨ c = 'e' := by
  have hmark : '.' ∈ Layout.json.wholeMark := by decide
  have hcode : ∃ c ∈ Layout.json.code x.code, c = '.' ∨ c = 'e' := by
    unfold Layout.code Layout.decimal Layout.magnitude
    dsimp only
    split
    · exact ⟨'.', List.mem_cons_of_mem _ hmark, Or.inl rfl⟩
    split
    · exact ⟨'e', by simp [scientific], Or.inr rfl⟩
    split
    · exact ⟨'.', by simp, Or.inl rfl⟩
    split
    · exact ⟨'.', by simp, Or.inl rfl⟩
    · exact ⟨'.', List.mem_append_right _ hmark, Or.inl rfl⟩
  obtain ⟨c, hc, hmarked⟩ := hcode
  unfold Layout.finite
  split
  · exact ⟨c, List.mem_cons_of_mem _ hc, hmarked⟩
  · exact ⟨c, hc, hmarked⟩

theorem intText_unmarked (n : Int) : ∀ c ∈ intText n, c ≠ '.' ∧ c ≠ 'e' := by
  have hdigit : ∀ c ∈ digits n.natAbs, c ≠ '.' ∧ c ≠ 'e' := by
    intro c hc
    have hdigit := mem_digits c hc
    constructor
    · rintro rfl
      cases hdigit
    · rintro rfl
      cases hdigit
  unfold intText
  split
  · exact List.forall_mem_cons.mpr ⟨by decide, hdigit⟩
  · exact hdigit

end Decimal

/-- A run of characters of one kind shows where it ends. -/
theorem Text.run_append_inj {p : Char → Bool} {run run' tail tail' : List Char}
    (hrun : ∀ c ∈ run, p c = true) (hrun' : ∀ c ∈ run', p c = true)
    (htail : ∀ c ∈ tail.head?, p c = false) (htail' : ∀ c ∈ tail'.head?, p c = false)
    (h : run ++ tail = run' ++ tail') : run = run' ∧ tail = tail' := by
  obtain ⟨htake, hdrop⟩ := Decimal.takeWhile_run hrun htail
  obtain ⟨htake', hdrop'⟩ := Decimal.takeWhile_run hrun' htail'
  rw [h] at htake hdrop
  exact ⟨htake.symm.trans htake', hdrop.symm.trans hdrop'⟩

namespace Tree

open Text.Utf8 (encode encode_cons encode_append)
open Decimal (isNumeral)

/-- **A number text tells the number**: an integer is read back from it, and other numbers are marked. -/
theorem numberText_inj {a b : Number} (h : numberText a = numberText b) : a = b := by
  cases a with
  | integer value lower upper =>
      cases b with
      | integer other lower' upper' =>
          -- one text is read as one integer
          obtain ⟨first, tail, htext, -, hread⟩ :=
            Json.Reader.signed_integer lower upper Json.Reader.delimited_nil
          obtain ⟨first', tail', htext', -, hread'⟩ :=
            Json.Reader.signed_integer lower' upper' Json.Reader.delimited_nil
          rw [show Decimal.intText value = Decimal.intText other from h, htext'] at htext
          obtain ⟨rfl, rfl⟩ := List.cons.inj htext
          exact (Prod.mk.inj (Except.ok.inj (hread.symm.trans hread'))).1
      | binary x finite =>
          obtain ⟨c, hc, hmarked⟩ := Decimal.json_finite_marked x
          rw [show Decimal.Layout.json.finite x = Decimal.intText value from h.symm] at hc
          have hunmarked := Decimal.intText_unmarked value c hc
          exact absurd hmarked (not_or.mpr hunmarked)
  | binary x finite =>
      cases b with
      | integer other lower upper =>
          obtain ⟨c, hc, hmarked⟩ := Decimal.json_finite_marked x
          rw [show Decimal.Layout.json.finite x = Decimal.intText other from h] at hc
          have hunmarked := Decimal.intText_unmarked other c hc
          exact absurd hmarked (not_or.mpr hunmarked)
      | binary y finite' =>
          obtain rfl := Decimal.Layout.finite_inj (Or.inr rfl) finite finite' h
          rfl

/-! ## Where scalars end -/

/-- Whether a text does not continue a number that stands in front of it. -/
def Ends (rest : List Char) : Prop :=
  ∀ c ∈ rest.head?, isNumeral c = false

theorem ends_cons {c : Char} (h : isNumeral c = false) (rest : List Char) : Ends (c :: rest) := by
  intro d hd
  obtain rfl := Option.mem_some_iff.mp hd
  exact h

section Scalars

variable {rest rest' : List Char}

/-- A number ends before the first character that no number has. -/
theorem numberText_append_inj {a b : Number} (hrest : Ends rest) (hrest' : Ends rest')
    (h : numberText a ++ rest = numberText b ++ rest') : a = b ∧ rest = rest' := by
  obtain ⟨htext, hrests⟩ := Text.run_append_inj (isNumeral_numberText a) (isNumeral_numberText b)
    hrest hrest' h
  exact ⟨numberText_inj htext, hrests⟩

/-- A string ends at its closing quote, and reading it gives it back. -/
theorem quoted_append_inj {s t : String} (h : quoted s ++ rest = quoted t ++ rest') :
    s = t ∧ rest = rest' := by
  have hread : ∀ (s : String) (rest : List Char),
      Json.Reader.string (encode (s.toList.flatMap escapeChar ++ '"' :: rest)) =
        .ok (s, encode rest) := by
    intro s rest
    rw [encode_append, encode_cons]
    exact Json.Reader.string_quoted s (encode rest)
  have htext : ∀ (s : String) (rest : List Char),
      quoted s ++ rest = '"' :: (s.toList.flatMap escapeChar ++ '"' :: rest) := by
    intro s rest
    simp [quoted]
  have hinner := h
  rw [htext, htext, List.cons.injEq] at hinner
  -- the bytes behind the opening quote are the same, and they are read as one string
  have hsame := hread s rest
  rw [hinner.2, hread] at hsame
  obtain rfl := (Prod.mk.inj (Except.ok.inj hsame)).1
  exact ⟨rfl, List.append_cancel_left h⟩

end Scalars

/-! ## Kinds -/

/-- Trees of one kind. -/
inductive SameKind : Tree → Tree → Prop
  | null : SameKind null null
  | bool (a b : Bool) : SameKind (bool a) (bool b)
  | number (a b : Number) : SameKind (number a) (number b)
  | string (s t : String) : SameKind (string s) (string t)
  | array (items items' : List Tree) : SameKind (array items) (array items')
  | object (members members' : List (String × Tree)) : SameKind (object members) (object members')

/-- The place of the kind of a tree among the kinds. -/
def kindIndex : Tree → Nat
  | null => 0
  | bool _ => 1
  | number _ => 2
  | string _ => 3
  | array _ => 4
  | object _ => 5

/-- The place of the kind of the trees that are written with a given character first. -/
def kindIndexOfHead (c : Char) : Nat :=
  if c = 'n' then 0 else if c = 't' ∨ c = 'f' then 1 else if c = '"' then 3 else if c = '[' then 4
  else if c = '\x7b' then 5 else 2

theorem sameKind_of_index {x y : Tree} (h : x.kindIndex = y.kindIndex) : SameKind x y := by
  cases x <;> cases y <;> first | constructor | cases h

theorem kindIndexOfHead_numeral {c : Char} (h : isNumeral c = true) : kindIndexOfHead c = 2 := by
  unfold kindIndexOfHead
  split
  · subst_vars; cases h
  split
  · rename_i hc
    rcases hc with rfl | rfl
    · cases h
    · cases h
  split
  · subst_vars; cases h
  split
  · subst_vars; cases h
  split
  · subst_vars; cases h
  · rfl

/-- A block starts with its opening bracket. -/
theorem block_cons (level : Nat) (opening closing : Char) (parts : List (List Char)) :
    ∃ inner, block level opening closing parts = opening :: inner := by
  unfold block
  split
  · exact ⟨_, rfl⟩
  · exact ⟨_, rfl⟩

/-- **The first character of a text tells the kind of its tree.** -/
theorem prettyAt_head (level : Nat) (tree : Tree) :
    ∃ c text, prettyAt level tree = c :: text ∧ kindIndexOfHead c = tree.kindIndex := by
  cases tree with
  | null => exact ⟨_, _, rfl, rfl⟩
  | bool b =>
      cases b with
      | false => exact ⟨_, _, rfl, rfl⟩
      | true => exact ⟨_, _, rfl, rfl⟩
  | number n =>
      obtain ⟨c, text, htext⟩ := List.exists_cons_of_ne_nil (numberText_ne_nil n)
      refine ⟨c, text, htext, kindIndexOfHead_numeral (isNumeral_numberText n c ?_)⟩
      rw [htext]
      exact List.mem_cons_self
  | string s => exact ⟨_, _, rfl, rfl⟩
  | array items =>
      obtain ⟨inner, hinner⟩ := block_cons level '[' ']' (prettyItems (level + 1) items)
      exact ⟨_, inner, hinner, rfl⟩
  | object members =>
      obtain ⟨inner, hinner⟩ := block_cons level '\x7b' '\x7d' (prettyMembers (level + 1) members)
      exact ⟨_, inner, hinner, rfl⟩

/-- Trees whose texts start alike are of one kind. -/
theorem sameKind_of_text {x y : Tree} {level : Nat} {rest rest' : List Char}
    (h : prettyAt level x ++ rest = prettyAt level y ++ rest') : SameKind x y := by
  obtain ⟨c, text, htext, hkind⟩ := prettyAt_head level x
  obtain ⟨d, text', htext', hkind'⟩ := prettyAt_head level y
  rw [htext, htext', List.cons_append, List.cons_append] at h
  apply sameKind_of_index
  rw [← hkind, ← hkind', (List.cons.inj h).1]

/-! ## Containers -/

/-- Whether the text of `x` tells it from all others and shows where it ends. -/
def Tells {α : Type} (text : α → List Char) (x : α) : Prop :=
  ∀ y rest rest', Ends rest → Ends rest' → text x ++ rest = text y ++ rest' → x = y ∧ rest = rest'

/-- What follows the first part of a block: the other parts behind commas, and the closing bracket. -/
def following (level : Nat) (closing : Char) : List (List Char) → List Char
  | [] => newline level ++ [closing]
  | part :: parts => ',' :: (newline (level + 1) ++ part ++ following level closing parts)

theorem block_eq_following (level : Nat) (opening closing : Char) (part : List Char)
    (parts : List (List Char)) : block level opening closing (part :: parts) =
      opening :: (newline (level + 1) ++ part ++ following level closing parts) := by
  have hparts : ∀ (part : List Char) (parts : List (List Char)),
      commaSeparated ((part :: parts).map (newline (level + 1) ++ ·)) ++ newline level ++ [closing] =
        newline (level + 1) ++ part ++ following level closing parts := by
    intro part parts
    induction parts generalizing part with
    | nil => simp [commaSeparated, following]
    | cons next parts ih =>
        rw [List.map_cons, List.map_cons, commaSeparated_cons, ← List.map_cons, following, ← ih next]
        simp
  rw [← hparts part parts]
  rfl

section Blocks

variable {α : Type} {text : α → List Char} {level : Nat} {closing : Char} {rest rest' : List Char}

theorem ends_following (level : Nat) (closing : Char) (parts : List (List Char)) (rest : List Char) :
    Ends (following level closing parts ++ rest) := by
  cases parts with
  | nil => exact ends_cons (by decide) _
  | cons part parts => exact ends_cons (by decide) _

/-- Behind a part there is a comma or a line break, so the part shows where it ends. -/
theorem part_append_inj {x y : α} (hx : Tells text x) {parts parts' : List (List Char)}
    (h : newline (level + 1) ++ text x ++ following level closing parts ++ rest =
      newline (level + 1) ++ text y ++ following level closing parts' ++ rest') :
    x = y ∧ following level closing parts ++ rest = following level closing parts' ++ rest' := by
  rw [List.append_assoc, List.append_assoc, List.append_assoc, List.append_assoc] at h
  exact hx y _ _ (ends_following _ _ _ _) (ends_following _ _ _ _) (List.append_cancel_left h)

/-- The parts behind the first one are told one by one. -/
theorem following_append_inj {xs ys : List α} (hxs : ∀ x ∈ xs, Tells text x)
    (h : following level closing (xs.map text) ++ rest =
      following level closing (ys.map text) ++ rest') : xs = ys ∧ rest = rest' := by
  induction xs generalizing ys with
  | nil =>
      cases ys with
      | nil => exact ⟨rfl, List.append_cancel_left h⟩
      | cons y ys => exact absurd (List.cons.inj h).1 (by decide)
  | cons x xs ih =>
      obtain ⟨hx, hxs⟩ := List.forall_mem_cons.mp hxs
      cases ys with
      | nil => exact absurd (List.cons.inj h).1 (by decide)
      | cons y ys =>
          obtain ⟨rfl, hlater⟩ := part_append_inj hx (List.cons.inj h).2
          obtain ⟨rfl, hrest⟩ := ih hxs hlater
          exact ⟨rfl, hrest⟩

/-- **A block tells its parts.** -/
theorem block_append_inj {opening : Char} (hclosing : closing ≠ '\n') {xs ys : List α}
    (hxs : ∀ x ∈ xs, Tells text x)
    (h : block level opening closing (xs.map text) ++ rest =
      block level opening closing (ys.map text) ++ rest') : xs = ys ∧ rest = rest' := by
  cases xs with
  | nil =>
      cases ys with
      | nil => exact ⟨rfl, List.append_cancel_left h⟩
      | cons y ys =>
          rw [List.map_cons, block_eq_following] at h
          exact absurd (List.cons.inj (List.cons.inj h).2).1 hclosing
  | cons x xs =>
      obtain ⟨hx, hxs⟩ := List.forall_mem_cons.mp hxs
      cases ys with
      | nil =>
          rw [List.map_cons, block_eq_following] at h
          exact absurd (List.cons.inj (List.cons.inj h).2).1.symm hclosing
      | cons y ys =>
          rw [List.map_cons, List.map_cons, block_eq_following, block_eq_following] at h
          obtain ⟨rfl, hlater⟩ := part_append_inj hx (List.cons.inj h).2
          obtain ⟨rfl, hrest⟩ := following_append_inj hxs hlater
          exact ⟨rfl, hrest⟩

end Blocks

/-! ## Trees -/

/-- The text of a member tells its key and its value. -/
theorem tells_member {level : Nat} {member : String × Tree} (h : Tells (prettyAt level) member.2) :
    Tells (fun member : String × Tree => quoted member.1 ++ ':' :: ' ' :: prettyAt level member.2)
      member := by
  intro other rest rest' hrest hrest' htext
  rw [List.append_assoc, List.append_assoc] at htext
  obtain ⟨hkey, htext⟩ := quoted_append_inj htext
  rw [List.cons_append, List.cons_append, List.cons_append, List.cons_append] at htext
  obtain ⟨hvalue, hrests⟩ :=
    h other.2 rest rest' hrest hrest' (List.cons.inj (List.cons.inj htext).2).2
  exact ⟨Prod.ext hkey hvalue, hrests⟩

/-- **A pretty text tells its tree**, whatever stands behind it. -/
theorem tells (tree : Tree) (level : Nat) : Tells (prettyAt level) tree := by
  -- the two texts start alike, so the other tree is of the same kind, and its parts are told in turn
  induction tree using Tree.induction generalizing level with
  | null =>
      intro y rest rest' _ _ h
      cases sameKind_of_text h with
      | null => exact ⟨rfl, List.append_cancel_left h⟩
  | bool a =>
      intro y rest rest' _ _ h
      cases sameKind_of_text h with
      | bool _ b =>
          cases a <;> cases b
          · exact ⟨rfl, List.append_cancel_left h⟩
          · exact absurd (List.cons.inj h).1 (by decide)
          · exact absurd (List.cons.inj h).1 (by decide)
          · exact ⟨rfl, List.append_cancel_left h⟩
  | number a =>
      intro y rest rest' hrest hrest' h
      cases sameKind_of_text h with
      | number _ b =>
          obtain ⟨rfl, hrests⟩ := numberText_append_inj hrest hrest' h
          exact ⟨rfl, hrests⟩
  | string s =>
      intro y rest rest' _ _ h
      cases sameKind_of_text h with
      | string _ t =>
          obtain ⟨rfl, hrests⟩ := quoted_append_inj h
          exact ⟨rfl, hrests⟩
  | array items ih =>
      intro y rest rest' _ _ h
      cases sameKind_of_text h with
      | array _ items' =>
          rw [prettyAt, prettyAt, prettyItems_eq, prettyItems_eq] at h
          obtain ⟨rfl, hrests⟩ :=
            block_append_inj (by decide) (fun item hitem => ih item hitem (level + 1)) h
          exact ⟨rfl, hrests⟩
  | object members ih =>
      intro y rest rest' _ _ h
      cases sameKind_of_text h with
      | object _ members' =>
          rw [prettyAt, prettyAt, prettyMembers_eq, prettyMembers_eq] at h
          obtain ⟨rfl, hrests⟩ := block_append_inj (by decide)
            (fun member hmember => tells_member (ih member hmember (level + 1))) h
          exact ⟨rfl, hrests⟩

end Tree

end DocStore
