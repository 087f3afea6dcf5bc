import DocStore.Json.Decoder
import DocStore.Proofs.Json.Nesting
import DocStore.Proofs.Json.Spelling

/-!
# Values in squeezed texts

What is read from the squeezed text of a value: the value itself, but for the blanks in its keys and
strings. Keys that have become equal are one key, and of their members the last counts.

## Contents
- `Json.squeeze`, `Payload.squeeze`: the value with its keys and strings squeezed.
- `Tree.texts`: the keys and strings of a tree.
- `Json.squeeze_eq_self_iff`: **when squeezing changes nothing**.
- `reads_squeezed`: **a squeezed text is read** as the squeezed value, or refused for its depth.
- `parseObject_squeezed`: whole texts of objects.
-/

namespace DocStore

open Text (Bytes isBlank)
open Text.Utf8 (encode)

/-! ## Definitions -/

namespace Tree

mutual

/-- The value of a tree with its keys and strings squeezed. Of members with one key the last counts. -/
def squeezed : Tree → Json
  | .null => Json.null
  | .bool value => Json.bool value
  | .number value => Json.number value
  | .string value => Json.string (squeezeText value)
  | .array items => Json.array (squeezedItems items)
  | .object members => Json.object (KeyMap.ofList (squeezedMembers members))

/-- The values of items. -/
def squeezedItems : List Tree → List Json
  | [] => []
  | item :: rest => item.squeezed :: squeezedItems rest

/-- The members with their keys. -/
def squeezedMembers : List (String × Tree) → List (String × Json)
  | [] => []
  | (key, value) :: rest => (squeezeText key, value.squeezed) :: squeezedMembers rest

end

mutual

/-- The keys and strings in a tree. -/
def texts : Tree → List String
  | .string value => [value]
  | .array items => itemsTexts items
  | .object members => membersTexts members
  | _ => []

/-- The keys and strings in some items. -/
def itemsTexts : List Tree → List String
  | [] => []
  | item :: rest => item.texts ++ itemsTexts rest

/-- The keys and strings in some members. -/
def membersTexts : List (String × Tree) → List String
  | [] => []
  | (key, value) :: rest => key :: (value.texts ++ membersTexts rest)

end

theorem squeezedItems_eq (items : List Tree) : squeezedItems items = items.map squeezed := by
  induction items with
  | nil => rfl
  | cons item rest ih => rw [squeezedItems, ih, List.map_cons]

theorem squeezedMembers_eq (members : List (String × Tree)) :
    squeezedMembers members =
      members.map fun member => (squeezeText member.1, member.2.squeezed) := by
  induction members with
  | nil => rfl
  | cons member rest ih =>
      obtain ⟨key, value⟩ := member
      rw [squeezedMembers, ih, List.map_cons]

theorem mem_texts_array {items : List Tree} {s : String} :
    s ∈ (array items).texts ↔ ∃ item ∈ items, s ∈ item.texts := by
  rw [texts]
  induction items with
  | nil => simp [itemsTexts]
  | cons item rest ih => simp [itemsTexts, ih]

theorem mem_texts_object {members : List (String × Tree)} {s : String} :
    s ∈ (object members).texts ↔ ∃ member ∈ members, s = member.1 ∨ s ∈ member.2.texts := by
  rw [texts]
  induction members with
  | nil => simp [membersTexts]
  | cons member rest ih =>
      obtain ⟨key, value⟩ := member
      simp [membersTexts, ih, or_assoc]

/-- Whether the blanks that a string shows as they are are single blanks. -/
def TidyText (s : String) : Prop :=
  Text.Tidy isLoose s.toList

theorem tidy_squeezeText (s : String) : TidyText (squeezeText s) := by
  unfold TidyText squeezeText
  rw [String.toList_ofList]
  exact Text.squeeze_tidy (by decide) s.toList

theorem squeezeText_eq_self_iff (s : String) : squeezeText s = s ↔ TidyText s := by
  unfold TidyText squeezeText
  rw [← Text.squeeze_eq_self_iff (by decide), ← String.toList_inj, String.toList_ofList]

end Tree

/-- The value with its keys and strings squeezed. -/
def Json.squeeze (value : Json) : Json :=
  value.tree.squeezed

/-- The members of an object with their keys and strings squeezed. Of members with one key the last
    counts. -/
def Payload.squeeze (payload : Payload) : Payload :=
  KeyMap.ofList (payload.entries.map fun entry => (Tree.squeezeText entry.1, entry.2.squeeze))

namespace Json

open DocStore.Tree (squeezeText TidyText laidOut)

theorem squeeze_array (items : List Json) : (array items).squeeze = array (items.map squeeze) := by
  show Json.array (Tree.squeezedItems (items.map Json.tree)) = _
  rw [Tree.squeezedItems_eq, List.map_map]
  rfl

theorem squeeze_object (payload : Payload) :
    (object payload).squeeze = object (Payload.squeeze payload) := by
  show Json.object (KeyMap.ofList (Tree.squeezedMembers (members payload))) = _
  rw [Tree.squeezedMembers_eq, members, List.map_map]
  rfl

theorem mem_texts_array {items : List Json} {s : String} :
    s ∈ (array items).tree.texts ↔ ∃ v ∈ items, s ∈ v.tree.texts := by
  show s ∈ (Tree.array (items.map Json.tree)).texts ↔ _
  rw [Tree.mem_texts_array]
  simp

theorem mem_texts_object {payload : Payload} {s : String} :
    s ∈ (object payload).tree.texts ↔
      ∃ entry ∈ payload.entries, s = entry.1 ∨ s ∈ entry.2.tree.texts := by
  show s ∈ (Tree.object (members payload)).texts ↔ _
  rw [Tree.mem_texts_object, members]
  simp

/-! ## When nothing changes -/

/-- The keys and strings of a squeezed value are tidy. -/
theorem tidy_squeeze (v : Json) : ∀ s ∈ v.squeeze.tree.texts, TidyText s := by
  induction v using Json.induction with
  | null => exact fun s hs => absurd hs List.not_mem_nil
  | bool b => exact fun s hs => absurd hs List.not_mem_nil
  | number n => exact fun s hs => absurd hs List.not_mem_nil
  | string text =>
      intro s hs
      rw [List.mem_singleton.mp hs]
      exact Tree.tidy_squeezeText text
  | array items ih =>
      intro s hs
      rw [squeeze_array, mem_texts_array] at hs
      obtain ⟨_, hsqueezed, hs⟩ := hs
      obtain ⟨v, hv, rfl⟩ := List.mem_map.mp hsqueezed
      exact ih v hv s hs
  | object payload ih =>
      intro s hs
      rw [squeeze_object, mem_texts_object] at hs
      obtain ⟨_, hsqueezed, hs⟩ := hs
      -- the entries of the map are among those of the list
      obtain ⟨entry, hentry, rfl⟩ := List.mem_map.mp (KeyMap.mem_ofList hsqueezed)
      rcases hs with rfl | hs
      · exact Tree.tidy_squeezeText entry.1
      · exact ih entry hentry s hs

/-- **Squeezing changes nothing** exactly if all keys and strings are tidy. -/
theorem squeeze_eq_self_iff (v : Json) : v.squeeze = v ↔ ∀ s ∈ v.tree.texts, TidyText s := by
  constructor
  · intro h
    rw [← h]
    exact tidy_squeeze v
  · induction v using Json.induction with
    | null => exact fun _ => rfl
    | bool b => exact fun _ => rfl
    | number n => exact fun _ => rfl
    | string text =>
        intro h
        exact congrArg Json.string ((Tree.squeezeText_eq_self_iff text).mpr (h text List.mem_cons_self))
    | array items ih =>
        intro h
        have hself : ∀ v ∈ items, v.squeeze = id v := fun v hv =>
          ih v hv fun s hs => h s (mem_texts_array.mpr ⟨v, hv, hs⟩)
        rw [squeeze_array, List.map_congr_left hself, List.map_id]
    | object payload ih =>
        intro h
        have hself : ∀ entry ∈ payload.entries,
            (squeezeText entry.1, entry.2.squeeze) = id entry := by
          intro entry hentry
          refine Prod.ext ?_ ?_
          · exact (Tree.squeezeText_eq_self_iff _).mpr
              (h _ (mem_texts_object.mpr ⟨entry, hentry, Or.inl rfl⟩))
          · exact ih entry hentry fun s hs =>
              h s (mem_texts_object.mpr ⟨entry, hentry, Or.inr hs⟩)
        rw [squeeze_object, Payload.squeeze, List.map_congr_left hself, List.map_id,
          KeyMap.ofList_entries]

/-! ## Reading -/

theorem readsBack_array {items : List Json} (h : (array items).ReadsBack) :
    ∀ v ∈ items, v.ReadsBack := by
  intro v hv x finite hx
  exact h x finite (Tree.mem_numbers_array.mpr ⟨v.tree, List.mem_map_of_mem hv, hx⟩)

theorem readsBack_object {payload : Payload} (h : (object payload).ReadsBack) :
    ∀ entry ∈ payload.entries, entry.2.ReadsBack := by
  intro entry hentry x finite hx
  exact h x finite (Tree.mem_numbers_object.mpr ⟨_, List.mem_map_of_mem hentry, hx⟩)

namespace Reader

/-- The bytes of the squeezed text of a tree. -/
def squeezedBytes (level : Option Nat) (tree : Tree) : Bytes :=
  encode (Text.squeeze isBlank (laidOut level tree))

theorem squeezedBytes_scalar {tree : Tree} (h : ∀ level, Tree.prettyAt level tree = tree.compact)
    (hblank : ∀ c ∈ tree.compact, isBlank c = false) (level : Option Nat) :
    squeezedBytes level tree = encode tree.compact := by
  rw [squeezedBytes, Tree.laidOut_scalar h, Text.squeeze_none hblank]

theorem squeezedBytes_array (level : Option Nat) (items : List Json) :
    ∃ gap margin, Gap gap ∧ Gap margin ∧ squeezedBytes level (Json.array items).tree =
      Byte.openBracket :: (listed true gap
        (items.map fun v => squeezedBytes (level.map (· + 1)) v.tree) ++
        (margin ++ [Byte.closeBracket])) := by
  obtain ⟨gap, margin, hgap, hmargin, htext⟩ := Tree.laidOut_array level (items.map Json.tree)
  refine ⟨_, _, Tree.gap_squeeze hgap, Tree.gap_squeeze hmargin, ?_⟩
  rw [squeezedBytes, show (Json.array items).tree = .array (items.map Json.tree) from rfl, htext,
    Tree.squeeze_container (by decide) (by decide), Tree.encode_container, List.map_map, List.map_map,
    List.map_map]
  · rfl
  · exact List.forall_mem_map.mpr fun item _ => Tree.solid_laidOut _ item

theorem squeezedBytes_object (level : Option Nat) (payload : Payload) :
    ∃ gap margin space, Gap gap ∧ Gap margin ∧ Gap space ∧
      squeezedBytes level (Json.object payload).tree =
        Byte.openBrace :: (listed true gap
          (payload.entries.map fun entry => quotedBytes (squeezeText entry.1) ++
            Byte.colon :: (space ++ squeezedBytes (level.map (· + 1)) entry.2.tree)) ++
          (margin ++ [Byte.closeBrace])) := by
  obtain ⟨gap, margin, space, hgap, hmargin, hspace, htext⟩ :=
    Tree.laidOut_object level (Json.members payload)
  refine ⟨_, _, _, Tree.gap_squeeze hgap, Tree.gap_squeeze hmargin, Tree.gap_squeeze hspace, ?_⟩
  have hpart : ∀ entry ∈ payload.entries,
      encode (Text.squeeze isBlank (Tree.quoted entry.1 ++
        ':' :: (space ++ laidOut (level.map (· + 1)) entry.2.tree))) =
      quotedBytes (squeezeText entry.1) ++ Byte.colon ::
        (encode (Text.squeeze isBlank space) ++ squeezedBytes (level.map (· + 1)) entry.2.tree) := by
    intro entry _
    rw [Tree.squeeze_member _ _ (Tree.solid_laidOut _ _), Text.Utf8.encode_append,
      Text.Utf8.encode_cons, Text.Utf8.encode_append]
    rfl
  rw [squeezedBytes, show (Json.object payload).tree = .object (Json.members payload) from rfl, htext,
    Tree.squeeze_container (by decide) (by decide), Tree.encode_container, Json.members, List.map_map,
    List.map_map, List.map_map, ← List.map_congr_left hpart]
  · rfl
  · exact List.forall_mem_map.mpr fun member _ => Tree.solid_member _ _ (Tree.solid_laidOut _ _)

/-- **A squeezed text is read** as the squeezed value, unless it nests too deep. By induction on the
    value, like `reads_value`: the rounds suffice because they exceed the length of the text. -/
theorem reads_squeezed (rounds : Nat) (v : Json) : v.ReadsBack → ∀ level depth,
    (squeezedBytes level v.tree).length ≤ rounds →
      Reads (value rounds depth) (squeezedBytes level v.tree)
        (if v.depth ≤ depth then some v.squeeze else none) := by
  have hscalar : ∀ (v : Json) (depth : Nat), v.depth = 0 →
      (if v.depth ≤ depth then some v.squeeze else none) = some v.squeeze :=
    fun v depth h => if_pos (h ▸ Nat.zero_le depth)
  induction v using Json.induction with
  | null =>
      intro _ level depth _
      have htext : squeezedBytes level null.tree = encode Tree.null.compact :=
        squeezedBytes_scalar (fun _ => rfl) Tree.isBlank_null level
      rw [hscalar _ _ rfl, htext]
      exact reads_null rounds depth
  | bool b =>
      intro _ level depth _
      have htext : squeezedBytes level (bool b).tree = encode (Tree.bool b).compact :=
        squeezedBytes_scalar (fun _ => rfl) (Tree.isBlank_bool b) level
      rw [hscalar _ _ rfl, htext]
      exact reads_bool b rounds depth
  | number n =>
      intro hback level depth _
      have hsame : Json.number n.reread = Json.number n := (Json.reread_eq_self_iff _).mpr hback
      have hblank : ∀ c ∈ (Tree.number n).compact, isBlank c = false := Tree.isBlank_numberText n
      have htext : squeezedBytes level (Json.number n).tree = encode (Tree.numberText n) :=
        squeezedBytes_scalar (fun _ => rfl) hblank level
      rw [hscalar _ _ rfl, htext]
      show Reads _ _ (some (Json.number n))
      rw [← hsame]
      exact reads_number n rounds depth
  | string s =>
      intro _ level depth _
      rw [hscalar _ _ rfl, squeezedBytes, show (Json.string s).tree = .string s from rfl,
        Tree.laidOut_scalar fun _ => rfl, Tree.compact, Tree.squeeze_quoted]
      exact reads_scalar (fun rest _ => scalar_quoted (squeezeText s) rest) rounds depth
  | array items ih =>
      intro hback level depth hlength
      obtain ⟨gap, margin, hgap, hmargin, htext⟩ := squeezedBytes_array level items
      rw [htext] at hlength ⊢
      have hread : ∀ v ∈ items, ∀ depth,
          Reads (value rounds depth) (squeezedBytes (level.map (· + 1)) v.tree)
            (if v.depth ≤ depth then some v.squeeze else none) :=
        fun v hv depth => ih v hv (readsBack_array hback v hv) _ depth (part_le_rounds hlength v hv)
      have hcount := count_lt_rounds hlength fun v hv => (hread v hv 0).length_pos
      rw [squeeze_array]
      exact reads_array (fun v => squeezedBytes (level.map (· + 1)) v.tree) squeeze hgap hmargin hread
        hcount
  | object payload ih =>
      intro hback level depth hlength
      obtain ⟨gap, margin, space, hgap, hmargin, hspace, htext⟩ := squeezedBytes_object level payload
      rw [htext] at hlength ⊢
      have hread : ∀ entry ∈ payload.entries, ∀ depth,
          Reads (value rounds depth) (squeezedBytes (level.map (· + 1)) entry.2.tree)
            (if entry.2.depth ≤ depth then some entry.2.squeeze else none) := by
        intro entry hentry depth
        refine ih entry hentry (readsBack_object hback entry hentry) _ depth ?_
        have hpart := part_le_rounds hlength entry hentry
        rw [List.length_append, List.length_cons, List.length_append] at hpart
        omega
      have hpos : ∀ entry ∈ payload.entries, 0 < (quotedBytes (squeezeText entry.1) ++
          Byte.colon :: (space ++ squeezedBytes (level.map (· + 1)) entry.2.tree)).length := by
        intro entry _
        rw [List.length_append, List.length_cons]
        omega
      have hcount := count_lt_rounds hlength hpos
      rw [squeeze_object]
      exact reads_object (fun v => squeezedBytes (level.map (· + 1)) v.tree) squeeze squeezeText hgap hmargin
        hspace hread hcount

/-- What is read as an object is read alike where only an object is accepted. -/
theorem mapping_of_value {rounds depth : Nat} {tail rest : Bytes} {payload : Payload}
    (h : value rounds depth (Byte.openBrace :: tail) = .ok (Json.object payload, rest)) :
    mapping rounds depth (fun depth => value rounds depth) (Byte.openBrace :: tail) =
      .ok (payload, rest) := by
  have hblank : Byte.isBlank Byte.openBrace = false := by decide
  have hother : Byte.openBrace ≠ Byte.openBracket := by decide
  cases depth with
  | zero =>
      simp only [value, valueWith, skipBlanks_cons hblank, if_neg hother, if_true] at h
      cases h
  | succ depth =>
      simp only [value, valueWith, skipBlanks_cons hblank, if_neg hother, if_true] at h
      simp only [mapping, skipBlanks_cons hblank, if_true]
      cases hobject : objectOf rounds (value rounds depth) tail with
      | error fault =>
          rw [hobject] at h
          cases h
      | ok answer =>
          obtain ⟨found, after⟩ := answer
          rw [hobject] at h
          obtain ⟨hfound, hafter⟩ := Prod.mk.inj (Except.ok.inj h)
          have hsame : found = payload := object_inj.mp hfound
          have hrest : after = rest := hafter
          rw [hsame, hrest]

end Reader

/-- **The squeezed text of an object** is read as the squeezed object. -/
theorem parseObject_squeezed (level : Option Nat) {payload : Payload}
    (hdepth : (object payload).depth ≤ Reader.maxDepth) (hback : (object payload).ReadsBack) :
    parseObject (encode (Text.squeeze isBlank (laidOut level (object payload).tree))) =
      .ok (Payload.squeeze payload) := by
  obtain ⟨gap, margin, space, -, -, -, htext⟩ := Reader.squeezedBytes_object level payload
  have hreads := Reader.reads_squeezed ((Reader.squeezedBytes level (object payload).tree).length + 1)
    (object payload) hback level Reader.maxDepth (Nat.le_succ _)
  rw [if_pos hdepth, squeeze_object] at hreads
  have hvalue := hreads.ok Reader.delimited_nil
  rw [List.append_nil] at hvalue
  show parseObject (Reader.squeezedBytes level (object payload).tree) = _
  rw [htext] at hvalue ⊢
  unfold parseObject Reader.parseWith
  dsimp only
  rw [Reader.mapping_of_value hvalue]
  rfl

end Json

end DocStore
