import DocStore.Proofs.Json.Containers
import DocStore.Proofs.Json.Values

/-!
# Reading values back

What the reader makes of the text that the printer wrote for a value. The text of a value that nests too
deep is refused. Any other text is read as the value in which every number has gone through the printer
and the reader once more.

## Contents
- `Number.reread`, `Number.ReadsBack`: what becomes of a number, and whether it stays the same.
- `Json.reread`, `Json.ReadsBack`: what becomes of a value; `Json.reread_eq_self_iff` connects the two.
- `reads_scalar`, `reads_array`, `reads_object`: values by their construction.
- `reads_value`: **a pretty text is read back**, up to its numbers, or refused for its depth.
- `parse_pretty`: whole texts.
-/

namespace DocStore

open Text (Bytes)
open Text.Utf8 (encode encodeChar)

/-! ## Numbers that are read again -/

/-- The number that is read from the text of a number. -/
def Number.reread (n : Number) : Number :=
  match Json.parse (encode (Tree.numberText n)) with
  | .ok ⟨.number m, _⟩ => m
  | _ => n

/-- Whether the text of a number is read as that number. -/
def Number.ReadsBack (n : Number) : Prop :=
  Json.parse (encode (Tree.numberText n)) = .ok (Json.number n)

namespace Json

/-- The value that is read from the text of a value. -/
def reread (value : Json) : Json :=
  value.mapNumbers Number.reread

/-- Whether every binary number in a value is read back from its text. -/
def ReadsBack (value : Json) : Prop :=
  ∀ x finite, Number.binary x finite ∈ value.tree.numbers → (Number.binary x finite).ReadsBack

namespace Reader

variable {α β : Type}

/-! ## Whole texts -/

/-- A reader's answer for a whole text. -/
theorem parseWith_reads {reader : Nat → Bytes → Result α} {text : Bytes} {back : Option α}
    (h : Reads (reader (text.length + 1)) text back) : (parseWith reader text).toOption = back := by
  have hread := h.read [] [] gap_nil delimited_nil
  rw [List.nil_append, List.append_nil] at hread
  rw [parseWith]
  cases back with
  | none =>
      obtain ⟨fault, herror⟩ := eq_error_of_toOption hread
      rw [herror]
      rfl
  | some value =>
      rw [eq_ok_of_toOption hread]
      rfl

/-! ## Scalars -/

/-- Neither white space nor a bracket starts a scalar. -/
theorem scalar_start {b : UInt8} {s : Bytes} {answer : Json × Bytes} (h : scalar b s = .ok answer) :
    Byte.isBlank b = false ∧ b ≠ Byte.openBracket ∧ b ≠ Byte.openBrace ∧ b ≠ Byte.closeBracket := by
  have refused : ∀ c ∈ [0x20, 0x0a, 0x09, 0x0d, Byte.openBracket, Byte.openBrace, Byte.closeBracket],
      b ≠ c := by
    rintro c hc rfl
    have hother : ∀ c ∈ [0x20, 0x0a, 0x09, 0x0d, Byte.openBracket, Byte.openBrace, Byte.closeBracket],
        c ≠ 0x6e ∧ c ≠ 0x74 ∧ c ≠ 0x66 ∧ c ≠ Byte.minus ∧ Byte.isDigit c = false ∧
          c ≠ Byte.quote := by
      simp [Byte.isDigit, Byte.minus, Byte.openBracket, Byte.openBrace, Byte.closeBracket, Byte.quote]
    obtain ⟨h₁, h₂, h₃, h₄, h₅, h₆⟩ := hother b hc
    rw [scalar, if_neg h₁, if_neg h₂, if_neg h₃, if_neg h₄, h₅, if_neg Bool.false_ne_true,
      if_neg h₆] at h
    cases h
  refine ⟨?_, refused _ (by simp), refused _ (by simp), refused _ (by simp)⟩
  simp only [Byte.isBlank, Bool.or_eq_false_iff, beq_eq_false_iff_ne]
  exact ⟨⟨⟨refused _ (by simp), refused _ (by simp)⟩, refused _ (by simp)⟩, refused _ (by simp)⟩

/-- At every depth, the first byte decides what a value is. -/
theorem value_eq (rounds depth : Nat) : ∃ inner, value rounds depth = valueWith rounds inner := by
  cases depth with
  | zero => exact ⟨none, rfl⟩
  | succ depth => exact ⟨some (value rounds depth), rfl⟩

theorem reads_scalar {text : Bytes} {v : Json}
    (h : ∀ rest, Delimited rest → ∃ b tail, text ++ rest = b :: tail ∧ scalar b tail = .ok (v, rest))
    (rounds depth : Nat) : Reads (value rounds depth) text (some v) where
  head := by
    obtain ⟨b, tail, htext, hscalar⟩ := h [] delimited_nil
    rw [List.append_nil] at htext
    obtain ⟨hblank, -, -, hne⟩ := scalar_start hscalar
    exact ⟨b, tail, htext, hblank, hne⟩
  read := by
    intro gap rest hgap hrest
    obtain ⟨b, tail, htext, hscalar⟩ := h rest hrest
    obtain ⟨hblank, hbracket, hbrace, -⟩ := scalar_start hscalar
    obtain ⟨inner, hinner⟩ := value_eq rounds depth
    rw [htext, hinner]
    simp only [valueWith, skipBlanks_gap hgap, skipBlanks_cons hblank, if_neg hbracket,
      if_neg hbrace, hscalar]
    rfl

theorem reads_signed {text : Bytes} {n : Number}
    (h : ∀ rest, Delimited rest → ∃ b tail, text ++ rest = b :: tail ∧
      (b = Byte.minus ∨ Byte.isDigit b = true) ∧ signed b tail = .ok (n, rest))
    (rounds depth : Nat) : Reads (value rounds depth) text (some (Json.number n)) := by
  refine reads_scalar (fun rest hrest => ?_) rounds depth
  obtain ⟨b, tail, htext, hb, hsigned⟩ := h rest hrest
  refine ⟨b, tail, htext, ?_⟩
  rw [scalar_of_signed hb, hsigned]
  rfl

theorem reads_null (rounds depth : Nat) :
    Reads (value rounds depth) (encode (Tree.compact .null)) (some Json.null) := by
  refine reads_scalar (fun rest _ => ⟨_, _, rfl, ?_⟩) rounds depth
  show (word [0x75, 0x6c, 0x6c] ([0x75, 0x6c, 0x6c] ++ rest)).map _ = _
  rw [word_append]
  rfl

theorem reads_bool (b : Bool) (rounds depth : Nat) :
    Reads (value rounds depth) (encode (Tree.compact (.bool b))) (some (Json.bool b)) := by
  cases b with
  | true =>
      refine reads_scalar (fun rest _ => ⟨_, _, rfl, ?_⟩) rounds depth
      show (word [0x72, 0x75, 0x65] ([0x72, 0x75, 0x65] ++ rest)).map _ = _
      rw [word_append]
      rfl
  | false =>
      refine reads_scalar (fun rest _ => ⟨_, _, rfl, ?_⟩) rounds depth
      show (word [0x61, 0x6c, 0x73, 0x65] ([0x61, 0x6c, 0x73, 0x65] ++ rest)).map _ = _
      rw [word_append]
      rfl

/-- The text of a number is parsed as the number that is read again, before anything that may follow
    it. -/
theorem reads_number (n : Number) (rounds depth : Nat) :
    Reads (value rounds depth) (encode (Tree.numberText n)) (some (Json.number n.reread)) := by
  obtain ⟨read, hread⟩ := signed_numberText n
  have hparse : parse (encode (Tree.numberText n)) = .ok (Json.number read) :=
    eq_ok_of_toOption (parseWith_reads (reads_signed hread _ _))
  have hsame : n.reread = read := by
    rw [Number.reread, hparse]
    rfl
  rw [hsame]
  exact reads_signed hread rounds depth

theorem scalar_quoted (s : String) (rest : Bytes) :
    ∃ b tail, quotedBytes s ++ rest = b :: tail ∧ scalar b tail = .ok (Json.string s, rest) := by
  refine ⟨Byte.quote, encode (s.toList.flatMap Tree.escapeChar) ++ Byte.quote :: rest, ?_, ?_⟩
  · rw [quotedBytes_eq, List.cons_append, List.append_assoc, List.singleton_append]
  · show (string _).map _ = _
    rw [string_quoted]
    rfl

/-! ## Containers -/

/-- What is read from the text of a value at a depth. -/
def readBack (depth : Nat) (v : Json) : Option Json :=
  if v.depth ≤ depth then some v.reread else none

section Containers

variable {rounds depth : Nat} {gap margin : Bytes} (text : Json → Bytes) (f : Json → Json)

/-- An array is read from the texts of its items, unless it nests too deep. -/
theorem reads_array (hgap : Gap gap) (hmargin : Gap margin) {items : List Json}
    (hread : ∀ v ∈ items, ∀ depth,
      Reads (value rounds depth) (text v) (if v.depth ≤ depth then some (f v) else none))
    (hrounds : items.length < rounds) :
    Reads (value rounds depth)
      (Byte.openBracket :: (listed true gap (items.map text) ++ (margin ++ [Byte.closeBracket])))
      (if (Json.array items).depth ≤ depth then some (Json.array (items.map f)) else none) where
  head := ⟨_, _, rfl, by decide, by decide⟩
  read := by
    intro before rest hbefore hrest
    have hblank : Byte.isBlank Byte.openBracket = false := by decide
    have hbytes : Byte.openBracket ::
        (listed true gap (items.map text) ++ (margin ++ [Byte.closeBracket])) ++ rest =
        Byte.openBracket :: (listed true gap (items.map text) ++
          (margin ++ Byte.closeBracket :: rest)) := by
      rw [List.cons_append, List.append_assoc, List.append_assoc, List.singleton_append]
    rw [hbytes]
    cases depth with
    | zero =>
        have hdeep : ¬ (Json.array items).depth ≤ 0 := Nat.not_succ_le_zero _
        rw [if_neg hdeep]
        simp only [value, valueWith, skipBlanks_gap hbefore, skipBlanks_cons hblank, if_true]
        rfl
    | succ depth =>
        -- inside the array one bracket fewer may be opened
        have hitems := arrayOf_listed hgap hmargin rest (fun v hv => hread v hv depth) hrounds
        rw [mapM_guard] at hitems
        simp only [value, valueWith, skipBlanks_gap hbefore, skipBlanks_cons hblank, if_true]
        by_cases hdepth : ∀ v ∈ items, v.depth ≤ depth
        · rw [if_pos hdepth] at hitems
          rw [if_pos (depth_array_le.mpr hdepth), eq_ok_of_toOption hitems]
          rfl
        · rw [if_neg hdepth] at hitems
          obtain ⟨fault, herror⟩ := eq_error_of_toOption hitems
          rw [if_neg fun h => hdepth (depth_array_le.mp h), herror]
          rfl

/-- An object is read from the texts of its members, whose keys may have been changed, unless it nests too
    deep. Of members with one key the last counts. -/
theorem reads_object (g : String → String) (hgap : Gap gap) (hmargin : Gap margin) {space : Bytes}
    (hspace : Gap space) {payload : Payload}
    (hread : ∀ entry ∈ payload.entries, ∀ depth, Reads (value rounds depth) (text entry.2)
      (if entry.2.depth ≤ depth then some (f entry.2) else none))
    (hrounds : payload.entries.length < rounds) :
    Reads (value rounds depth)
      (Byte.openBrace :: (listed true gap (payload.entries.map fun entry => quotedBytes (g entry.1) ++
        Byte.colon :: (space ++ text entry.2)) ++ (margin ++ [Byte.closeBrace])))
      (if (Json.object payload).depth ≤ depth then
        some (Json.object (KeyMap.ofList (payload.entries.map fun entry => (g entry.1, f entry.2))))
      else none) where
  head := ⟨_, _, rfl, by decide, by decide⟩
  read := by
    intro before rest hbefore hrest
    have hblank : Byte.isBlank Byte.openBrace = false := by decide
    have hother : Byte.openBrace ≠ Byte.openBracket := by decide
    rw [List.cons_append, List.append_assoc, List.append_assoc, List.singleton_append]
    cases depth with
    | zero =>
        have hdeep : ¬ (Json.object payload).depth ≤ 0 := Nat.not_succ_le_zero _
        rw [if_neg hdeep]
        simp only [value, valueWith, skipBlanks_gap hbefore, skipBlanks_cons hblank, if_neg hother,
          if_true]
        rfl
    | succ depth =>
        have hpayload := objectOf_listed (fun entry => g entry.1) hgap hmargin hspace rest
          (fun entry hentry => hread entry hentry depth) hrounds
        rw [mapM_keyed] at hpayload
        simp only [value, valueWith, skipBlanks_gap hbefore, skipBlanks_cons hblank, if_neg hother,
          if_true]
        by_cases hdepth : ∀ entry ∈ payload.entries, entry.2.depth ≤ depth
        · rw [if_pos hdepth] at hpayload
          rw [if_pos (depth_object_le.mpr hdepth), eq_ok_of_toOption hpayload]
          rfl
        · rw [if_neg hdepth] at hpayload
          obtain ⟨fault, herror⟩ := eq_error_of_toOption hpayload
          rw [if_neg fun h => hdepth (depth_object_le.mp h), herror]
          rfl

end Containers

/-! ## Pretty texts -/

theorem readBack_scalar {v : Json} (h : v.depth = 0) (depth : Nat) :
    readBack depth v = some v.reread :=
  if_pos (h ▸ Nat.zero_le depth)

/-- The bytes of a tree with one item a line. -/
def prettyBytes (level : Nat) (tree : Tree) : Bytes :=
  encode (tree.prettyAt level)

theorem prettyBytes_array (level : Nat) (items : List β) (item : β → Tree) :
    ∃ margin, Gap margin ∧ prettyBytes level (.array (items.map item)) =
      Byte.openBracket :: (listed true (encode (Tree.newline (level + 1)))
        (items.map fun x => prettyBytes (level + 1) (item x)) ++ (margin ++ [Byte.closeBracket])) := by
  obtain ⟨margin, hmargin, hblock⟩ := encode_block level '[' ']'
    (Tree.prettyItems (level + 1) (items.map item))
  refine ⟨margin, hmargin, ?_⟩
  have hparts : (Tree.prettyItems (level + 1) (items.map item)).map encode =
      items.map fun x => prettyBytes (level + 1) (item x) := by
    rw [Tree.prettyItems_eq, List.map_map, List.map_map]
    rfl
  rw [hparts] at hblock
  exact hblock

theorem gap_space : Gap [0x20] := gap_cons (by decide) gap_nil

/-- The bytes of a member: its key, a colon, a blank and its value. -/
def memberBytes (level : Nat) (key : String) (tree : Tree) : Bytes :=
  quotedBytes key ++ Byte.colon :: ([0x20] ++ prettyBytes level tree)

theorem prettyBytes_object (level : Nat) (members : List (String × Tree)) :
    ∃ margin, Gap margin ∧ prettyBytes level (.object members) =
      Byte.openBrace :: (listed true (encode (Tree.newline (level + 1)))
        (members.map fun member => memberBytes (level + 1) member.1 member.2) ++
        (margin ++ [Byte.closeBrace])) := by
  obtain ⟨margin, hmargin, hblock⟩ := encode_block level '\x7b' '\x7d'
    (Tree.prettyMembers (level + 1) members)
  refine ⟨margin, hmargin, ?_⟩
  have hparts : (Tree.prettyMembers (level + 1) members).map encode =
      members.map fun member => memberBytes (level + 1) member.1 member.2 := by
    rw [Tree.prettyMembers_eq, List.map_map]
    exact List.map_congr_left fun member _ => Text.Utf8.encode_append _ _
  rw [hparts] at hblock
  exact hblock

theorem prettyBytes_entries (level : Nat) (entries : List (String × β)) (item : β → Tree) :
    ∃ margin, Gap margin ∧
      prettyBytes level (.object (entries.map fun entry => (entry.1, item entry.2))) =
      Byte.openBrace :: (listed true (encode (Tree.newline (level + 1)))
        (entries.map fun entry => memberBytes (level + 1) entry.1 (item entry.2)) ++
        (margin ++ [Byte.closeBrace])) := by
  obtain ⟨margin, hmargin, htext⟩ :=
    prettyBytes_object level (entries.map fun entry => (entry.1, item entry.2))
  rw [List.map_map] at htext
  exact ⟨margin, hmargin, htext⟩

section Lengths

variable {rounds : Nat} {gap margin : Bytes}

variable {items : List β} {text : β → Bytes} {b c : UInt8}

/-- The parts of a container are shorter than its text. -/
theorem part_le_rounds (hlength : (b :: (listed true gap (items.map text) ++
    (margin ++ [c]))).length ≤ rounds) : ∀ x ∈ items, (text x).length ≤ rounds := by
  intro x hx
  have hpart := length_le_of_mem true gap (List.mem_map_of_mem (f := text) hx)
  rw [List.length_cons, List.length_append, List.length_append, List.length_singleton] at hlength
  omega

/-- The parts of a container are fewer than the bytes of its text. -/
theorem count_lt_rounds (hlength : (b :: (listed true gap (items.map text) ++
    (margin ++ [c]))).length ≤ rounds) (hpos : ∀ x ∈ items, 0 < (text x).length) :
    items.length < rounds := by
  have hcount := length_le_listed true gap (List.forall_mem_map.mpr hpos)
  rw [List.length_map] at hcount
  rw [List.length_cons, List.length_append, List.length_append, List.length_singleton] at hlength
  omega

theorem prettyBytes_le_memberBytes (level : Nat) (key : String) (tree : Tree) :
    (prettyBytes level tree).length ≤ (memberBytes level key tree).length := by
  rw [memberBytes, List.length_append, List.length_cons, List.length_append]
  omega

theorem memberBytes_pos (level : Nat) (key : String) (tree : Tree) :
    0 < (memberBytes level key tree).length := by
  rw [memberBytes, quotedBytes_eq]
  exact Nat.succ_pos _

end Lengths

/-- **A pretty text is read back**, up to its numbers, unless it nests too deep. By induction on the
    value; the rounds suffice because they exceed the length of the text. -/
theorem reads_value (rounds : Nat) (v : Json) : ∀ level depth,
    (prettyBytes level v.tree).length ≤ rounds →
      Reads (value rounds depth) (prettyBytes level v.tree) (readBack depth v) := by
  induction v using Json.induction with
  | null =>
      intro level depth _
      rw [readBack_scalar rfl]
      exact reads_null rounds depth
  | bool b =>
      intro level depth _
      rw [readBack_scalar rfl]
      exact reads_bool b rounds depth
  | number n =>
      intro level depth _
      rw [readBack_scalar rfl]
      exact reads_number n rounds depth
  | string s =>
      intro level depth _
      rw [readBack_scalar rfl]
      exact reads_scalar (fun rest _ => scalar_quoted s rest) rounds depth
  | array items ih =>
      intro level depth hlength
      -- the items are shorter than the text, so the rounds suffice for each of them
      obtain ⟨margin, hmargin, htext⟩ := prettyBytes_array level items Json.tree
      rw [show (Json.array items).tree = .array (items.map Json.tree) from rfl, htext] at hlength ⊢
      have hread : ∀ v ∈ items, ∀ depth,
          Reads (value rounds depth) (prettyBytes (level + 1) v.tree) (readBack depth v) :=
        fun v hv depth => ih v hv _ depth (part_le_rounds hlength v hv)
      have hcount := count_lt_rounds hlength fun v hv => (hread v hv 0).length_pos
      rw [readBack, reread, mapNumbers_array]
      exact reads_array (fun v => prettyBytes (level + 1) v.tree) reread (gap_newline _) hmargin hread
        hcount
  | object payload ih =>
      intro level depth hlength
      obtain ⟨margin, hmargin, htext⟩ := prettyBytes_entries level payload.entries Json.tree
      rw [show (Json.object payload).tree =
        .object (payload.entries.map fun entry => (entry.1, entry.2.tree)) from rfl, htext] at hlength ⊢
      have hread : ∀ entry ∈ payload.entries, ∀ depth,
          Reads (value rounds depth) (prettyBytes (level + 1) entry.2.tree) (readBack depth entry.2) :=
        fun entry hentry depth => ih entry hentry _ depth
          (Nat.le_trans (prettyBytes_le_memberBytes _ _ _) (part_le_rounds hlength entry hentry))
      have hcount := count_lt_rounds hlength fun entry _ => memberBytes_pos _ _ _
      have hkeys : KeyMap.ofList (payload.entries.map fun entry => (entry.1, entry.2.reread)) =
          payload.map reread := KeyMap.ofList_entries (payload.map reread)
      rw [readBack, reread, mapNumbers_object]
      show Reads _ _ (if _ then some (Json.object (payload.map reread)) else none)
      rw [← hkeys]
      exact reads_object (fun v => prettyBytes (level + 1) v.tree) reread id (gap_newline _) hmargin
        gap_space hread hcount

end Reader

/-- The pretty text of a value is parsed as the value with its numbers read again, or refused. -/
theorem parse_pretty (v : Json) :
    (parse (encode v.tree.pretty)).toOption = Reader.readBack Reader.maxDepth v :=
  Reader.parseWith_reads (Reader.reads_value _ v 0 _ (Nat.le_succ _))

end Json

/-! ## When nothing changes -/

namespace Number

theorem readsBack_iff (n : Number) : n.ReadsBack ↔ n.reread = n := by
  have hparse : Json.parse (encode (Tree.numberText n)) = .ok (Json.number n.reread) :=
    Json.Reader.eq_ok_of_toOption
      (Json.Reader.parseWith_reads (Json.Reader.reads_number n _ _))
  rw [ReadsBack, hparse]
  constructor
  · intro h
    exact Tree.number.inj (congrArg Json.tree (Except.ok.inj h))
  · intro h
    rw [h]

/-- An integer is always read back. -/
theorem readsBack_integer {value : Int} (lower : -0x8000000000000000 ≤ value)
    (upper : value < 0x10000000000000000) : (Number.integer value lower upper).ReadsBack :=
  Json.Reader.eq_ok_of_toOption (Json.Reader.parseWith_reads (Json.Reader.reads_signed
    (fun _ hrest => Json.Reader.signed_integer lower upper hrest) _ _))

end Number

/-- A value is the same when it is read again exactly when all its binary numbers are. -/
theorem Json.reread_eq_self_iff (v : Json) : v.reread = v ↔ v.ReadsBack := by
  rw [reread, mapNumbers_eq_self_iff]
  constructor
  · intro h x finite hx
    exact (Number.readsBack_iff _).mpr (h _ hx)
  · intro h n hn
    refine (Number.readsBack_iff n).mp ?_
    cases n with
    | integer value lower upper => exact Number.readsBack_integer lower upper
    | binary x finite => exact h x finite hn

end DocStore
