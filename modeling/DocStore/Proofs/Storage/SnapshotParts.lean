import DocStore.Proofs.Json.ReadBack
import DocStore.Storage.Snapshot

/-!
# Reading the parts of a snapshot

The readers for strings, times, sets and maps on what the printer wrote for them. Only the values inside
a map can be refused; everything else is read back as it was.

## Contents
- `reads_text`, `signed_int64`, `reads_time`: scalars.
- `reads_set`, `reads_treeWith`: **sets and maps**.
- `field_reads`, `opened_object`: the parts of a value with fixed fields.
-/

namespace DocStore.Json.Reader

open Text (Bytes)
open Text.Utf8 (encode)

variable {α β : Type}

/-! ## Scalars -/

theorem reads_text (s : String) : Reads text (quotedBytes s) (some s) where
  head := ⟨Byte.quote, _, quotedBytes_eq s, by decide, by decide⟩
  read := by
    intro gap rest hgap hrest
    have hblank : Byte.isBlank Byte.quote = false := by decide
    rw [quotedBytes_eq, List.cons_append, List.append_assoc, List.singleton_append]
    simp only [text, skipBlanks_gap hgap, skipBlanks_cons hblank, if_true, string_quoted]
    rfl

/-- The text of a signed integer of 64 bits. -/
theorem signed_int64 (n : Int64) (rest : Bytes) (hrest : Delimited rest) :
    ∃ b tail, encode (Tree.numberText (Number.ofInt64 n)) ++ rest = b :: tail ∧
      (b = Byte.minus ∨ Byte.isDigit b = true) ∧ int64 (b :: tail) = .ok (n, rest) := by
  have hlow := n.le_toInt
  have hhigh := n.toInt_lt
  obtain ⟨b, tail, htext, hb, hsigned⟩ := @signed_integer n.toInt (by omega) (by omega) rest hrest
  refine ⟨b, tail, htext, hb, ?_⟩
  rw [signed] at hsigned
  simp only [int64, skipBlanks_cons (signed_start hb).1, if_pos hb, hsigned, asInt64,
    if_pos (show n.toInt < 0x8000000000000000 by omega), Int64.ofInt_toInt]

/-- A time is read back, also if there is none. -/
theorem reads_time (level : Nat) (time : Option Millis) :
    Reads (optional int64) (prettyBytes level (Millis.tree? time)) (some time) := by
  cases time with
  | none =>
      refine ⟨⟨0x6e, _, rfl, by decide, by decide⟩, ?_⟩
      intro gap rest hgap hrest
      have hblank : Byte.isBlank 0x6e = false := by decide
      show (optional int64 (gap ++ 0x6e :: ([0x75, 0x6c, 0x6c] ++ rest))).toOption = _
      simp only [optional, skipBlanks_gap hgap, skipBlanks_cons hblank, if_true, word_append]
      rfl
  | some time =>
      constructor
      · obtain ⟨b, tail, htext, hb, -⟩ := signed_int64 time [] delimited_nil
        rw [List.append_nil] at htext
        obtain ⟨hblank, -, -, hclose, -⟩ := signed_start hb
        exact ⟨b, tail, htext, hblank, hclose⟩
      · intro gap rest hgap hrest
        obtain ⟨b, tail, htext, hb, hint⟩ := signed_int64 time rest hrest
        obtain ⟨hblank, -, -, -, hnull⟩ := signed_start hb
        rw [show prettyBytes level (Millis.tree? (some time)) =
          encode (Tree.numberText (Number.ofInt64 time)) from rfl, htext]
        simp only [optional, skipBlanks_gap hgap, skipBlanks_cons hblank, if_neg hnull, hint]
        rfl

/-! ## Sets and maps -/

section Containers

variable {rounds level : Nat} (depth : Nat)

/-- A set of texts is read back. -/
theorem reads_set (set : KeySet) (hlength : (prettyBytes level set.tree).length ≤ rounds) :
    Reads (Snapshot.readSet rounds (depth + 1)) (prettyBytes level set.tree) (some set) := by
  obtain ⟨margin, hmargin, htext⟩ := prettyBytes_array level set.keys Tree.string
  rw [KeySet.tree, htext] at hlength ⊢
  have hread : ∀ key ∈ set.keys,
      Reads text (prettyBytes (level + 1) (.string key)) (some key) := fun key _ => reads_text key
  have hcount := count_lt_rounds hlength fun key hkey => (hread key hkey).length_pos
  refine ⟨⟨_, _, rfl, by decide, by decide⟩, ?_⟩
  intro gap rest hgap hrest
  have hblank : Byte.isBlank Byte.openBracket = false := by decide
  have hitems := arrayOf_listed (gap_newline (level + 1)) hmargin rest hread hcount
  -- the members were listed in order, so the set of the list is the same set
  have hback : KeySet.ofTexts set.keys = set := by
    rw [KeySet.ofTexts, KeyMap.keys, List.map_map]
    exact (congrArg KeyMap.ofList (List.map_id _)).trans (KeyMap.ofList_entries set)
  have hkeys : set.keys.mapM some = some (set.keys.map id) := List.mapM_pure
  rw [hkeys] at hitems
  rw [List.cons_append, List.append_assoc, List.append_assoc, List.singleton_append]
  simp only [Snapshot.readSet, sequence, skipBlanks_gap hgap, skipBlanks_cons hblank, if_true,
    if_neg (Nat.succ_ne_zero depth), eq_ok_of_toOption hitems]
  show some (KeySet.ofTexts (set.keys.map id), rest) = some (set, rest)
  rw [List.map_id, hback]

/-- **A map** is read entry by entry; if one is refused, so is the map. -/
theorem reads_treeWith (item : Nat → Bytes → Result α) (tree : β → Tree) {p : β → Prop}
    [DecidablePred p] {f : β → α} {m : KeyMap β}
    (hlength : (prettyBytes level (m.treeWith tree)).length ≤ rounds)
    (hread : ∀ entry ∈ m.entries, (prettyBytes (level + 1) (tree entry.2)).length ≤ rounds →
      Reads (item depth) (prettyBytes (level + 1) (tree entry.2))
        (if p entry.2 then some (f entry.2) else none)) :
    Reads (mapping rounds (depth + 1) item) (prettyBytes level (m.treeWith tree))
      (if ∀ entry ∈ m.entries, p entry.2 then some (m.map f) else none) := by
  obtain ⟨margin, hmargin, htext⟩ := prettyBytes_entries level m.entries tree
  rw [KeyMap.treeWith, htext] at hlength ⊢
  have hcount := count_lt_rounds hlength fun entry _ => memberBytes_pos _ _ _
  have hentries : ∀ entry ∈ m.entries, Reads (item depth) (prettyBytes (level + 1) (tree entry.2))
      (if p entry.2 then some (f entry.2) else none) := fun entry hentry => hread entry hentry
    (Nat.le_trans (prettyBytes_le_memberBytes _ _ _) (part_le_rounds hlength entry hentry))
  refine ⟨⟨_, _, rfl, by decide, by decide⟩, ?_⟩
  intro gap rest hgap hrest
  have hblank : Byte.isBlank Byte.openBrace = false := by decide
  have hobject := objectOf_entries (fun x => prettyBytes (level + 1) (tree x))
    (gap_newline (level + 1)) hmargin gap_space rest hentries hcount
  rw [List.cons_append, List.append_assoc, List.append_assoc, List.singleton_append]
  simp only [mapping, skipBlanks_gap hgap, skipBlanks_cons hblank, if_true]
  refine hobject.trans ?_
  split
  · rfl
  · rfl

end Containers

/-! ## Fixed fields -/

section Fields

variable {gap margin : Bytes}

/-- A field that is given for the first time. -/
theorem field_reads {name : String} {item : Bytes → Result α} {level : Nat} {tree : Tree}
    {back : Option α} (h : Reads item (prettyBytes level tree) back) (rest : Bytes)
    (hrest : Delimited rest) :
    (field name none item (Byte.colon :: ([0x20] ++ prettyBytes level tree) ++ rest)).toOption =
      back.map fun value => (some value, rest) := by
  have hread := h.read [0x20] rest gap_space hrest
  rw [List.cons_append, List.append_assoc, field, Option.isSome_none, if_neg Bool.false_ne_true,
    colon_cons]
  cases back with
  | none =>
      obtain ⟨fault, herror⟩ := eq_error_of_toOption hread
      simp only [herror]
      rfl
  | some value =>
      simp only [eq_ok_of_toOption hread]
      rfl

theorem field_ok {name : String} {item : Bytes → Result α} {level : Nat} {tree : Tree} {value : α}
    (h : Reads item (prettyBytes level tree) (some value)) {rest : Bytes} (hrest : Delimited rest) :
    field name none item (Byte.colon :: ([0x20] ++ prettyBytes level tree) ++ rest) =
      .ok (some value, rest) :=
  eq_ok_of_toOption (field_reads h rest hrest)

theorem field_error {name : String} {item : Bytes → Result α} {level : Nat} {tree : Tree}
    (h : Reads item (prettyBytes level tree) none) {rest : Bytes} (hrest : Delimited rest) :
    ∃ fault, field name none item (Byte.colon :: ([0x20] ++ prettyBytes level tree) ++ rest) =
      .error fault :=
  eq_error_of_toOption (field_reads h rest hrest)

/-- A value with fixed fields, written as an object. -/
theorem opened_object {name : String} {parts fields : Nat → Bytes → Result α} {body : Bytes}
    {back : Option α} {depth : Nat} (hmargin : Gap margin)
    (h : ∀ rest, (fields depth (body ++ (margin ++ Byte.closeBrace :: rest))).toOption =
      back.map (·, margin ++ Byte.closeBrace :: rest)) :
    Reads (opened name (depth + 1) parts fields)
      (Byte.openBrace :: (body ++ (margin ++ [Byte.closeBrace]))) back where
  head := ⟨_, _, rfl, by decide, by decide⟩
  read := by
    intro gap rest hgap hrest
    have hblank : Byte.isBlank Byte.openBrace = false := by decide
    have hother : Byte.openBrace ≠ Byte.openBracket := by decide
    have hfields := h rest
    rw [List.cons_append, List.append_assoc, List.append_assoc, List.singleton_append]
    simp only [opened, skipBlanks_gap hgap, skipBlanks_cons hblank, if_neg hother, if_true]
    cases back with
    | none =>
        obtain ⟨fault, herror⟩ := eq_error_of_toOption hfields
        simp only [herror]
        rfl
    | some value =>
        simp only [eq_ok_of_toOption hfields, closeObject_end hmargin]
        rfl

end Fields

end DocStore.Json.Reader
