import DocStore.Proofs.Json.Numbers

/-!
# Reading written containers

The readers for arrays and objects loop over items, and the printer writes items with gaps and commas
between them. A reader may refuse an item, so what it makes of a text is an optional value, and what a
loop makes of a list of texts is the same reader's answers in sequence.

## Contents
- `Reads`: what a reader makes of a text, before everything that may follow a value.
- `listed`: parts with gaps and commas, and `encode_block`: how the printer lists them.
- `nextElement_part`, `nextKey_part` and their companions: the steps between items and members.
- `elements_listed`, `arrayOf_listed`: **the items of an array**.
- `members_ok`, `members_error`, `members_end`: one round over the members of an object.
- `members_listed`, `objectOf_listed`: **the members of an object**.
- `mapM_guard`, `objectOf_entries`: readers that admit some items and refuse others.
-/

namespace DocStore.Json.Reader

open Text (Bytes)
open Text.Utf8 (encode encodeChar)

/-! ## Answers of a reader -/

section Answers

variable {ε α : Type} {result : Except ε α}

theorem eq_ok_of_toOption {a : α} (h : result.toOption = some a) : result = .ok a := by
  cases result with
  | error e => cases h
  | ok b => exact congrArg Except.ok (Option.some.inj h)

theorem eq_error_of_toOption (h : result.toOption = none) : ∃ e, result = .error e := by
  cases result with
  | error e => exact ⟨e, rfl⟩
  | ok b => cases h

/-- The value of a result that exists only under a condition. -/
theorem eq_of_toOption_ite {p : Prop} [Decidable p] {a b : α}
    (h : result.toOption = if p then some a else none) (hok : result = .ok b) : p ∧ b = a := by
  rw [hok] at h
  by_cases hp : p
  · rw [if_pos hp] at h
    exact ⟨hp, Option.some.inj h⟩
  · rw [if_neg hp] at h
    cases h

theorem isOk_iff_of_toOption_ite {p : Prop} [Decidable p] {a : α}
    (h : result.toOption = if p then some a else none) : (∃ b, result = .ok b) ↔ p := by
  constructor
  · rintro ⟨b, hok⟩
    exact (eq_of_toOption_ite h hok).1
  · intro hp
    rw [if_pos hp] at h
    exact ⟨a, eq_ok_of_toOption h⟩

end Answers

variable {α β σ : Type}

/-- What a reader makes of a text that starts with no closing bracket: the value `back`, or a fault
    where there is none. White space before the text and whatever may follow a value do not matter. -/
structure Reads (reader : Bytes → Result α) (text : Bytes) (back : Option α) : Prop where
  head : ∃ b tail, text = b :: tail ∧ Byte.isBlank b = false ∧ b ≠ Byte.closeBracket
  read : ∀ gap rest, Gap gap → Delimited rest →
    (reader (gap ++ (text ++ rest))).toOption = back.map (·, rest)

namespace Reads

variable {reader : Bytes → Result α} {text rest : Bytes}

theorem ok {value : α} (h : Reads reader text (some value)) (hrest : Delimited rest) :
    reader (text ++ rest) = .ok (value, rest) :=
  eq_ok_of_toOption (h.read [] rest gap_nil hrest)

theorem length_pos {back : Option α} (h : Reads reader text back) : 0 < text.length := by
  obtain ⟨b, tail, rfl, -, -⟩ := h.head
  exact Nat.succ_pos _

theorem error (h : Reads reader text none) (hrest : Delimited rest) :
    ∃ fault, reader (text ++ rest) = .error fault :=
  eq_error_of_toOption (h.read [] rest gap_nil hrest)

end Reads

/-! ## Lists of parts -/

/-- What stands before a part: a gap, and a comma unless it is the first one. -/
def lead (first : Bool) (gap : Bytes) : Bytes :=
  if first then gap else Byte.comma :: gap

/-- Parts with a gap before each and commas between them; the list may go on after others. -/
def listed (first : Bool) (gap : Bytes) : List Bytes → Bytes
  | [] => []
  | part :: rest => lead first gap ++ (part ++ listed false gap rest)

theorem encode_commaSeparated (gap : List Char) (parts : List (List Char)) :
    encode (Tree.commaSeparated (parts.map (gap ++ ·))) =
      listed true (encode gap) (parts.map encode) := by
  -- the induction is about the parts behind one that is there: only they have commas
  have more : ∀ parts : List (List Char), ∀ part,
      encode (Tree.commaSeparated (part :: parts.map (gap ++ ·))) =
        encode part ++ listed false (encode gap) (parts.map encode) := by
    intro parts
    induction parts with
    | nil => exact fun part => (congrArg encode (List.append_nil part)).trans (List.append_nil _).symm
    | cons next parts ih =>
        intro part
        have hcomma : Tree.commaSeparated (part :: (gap ++ next) :: parts.map (gap ++ ·)) =
            part ++ ',' :: Tree.commaSeparated ((gap ++ next) :: parts.map (gap ++ ·)) := rfl
        rw [List.map_cons, hcomma, Text.Utf8.encode_append, Text.Utf8.encode_cons, ih,
          Text.Utf8.encode_append, List.append_assoc]
        rfl
  cases parts with
  | nil => rfl
  | cons part parts =>
      rw [List.map_cons, more, Text.Utf8.encode_append, List.append_assoc]
      rfl

theorem gap_newline (level : Nat) : Gap (encode (Tree.newline level)) := by
  have blanks : ∀ n, Gap (encode (List.replicate n ' ')) := by
    intro n
    induction n with
    | zero => exact gap_nil
    | succ n ih => exact gap_cons (by decide) ih
  exact gap_cons (by decide) (blanks _)

/-- How the printer lists parts between brackets. -/
theorem encode_block (level : Nat) (opening closing : Char) (parts : List (List Char)) :
    ∃ margin, Gap margin ∧ encode (Tree.block level opening closing parts) =
      encodeChar opening ++ (listed true (encode (Tree.newline (level + 1))) (parts.map encode) ++
        (margin ++ encodeChar closing)) := by
  cases parts with
  | nil =>
      refine ⟨[], gap_nil, ?_⟩
      show encodeChar opening ++ (encodeChar closing ++ []) = _
      rw [List.append_nil]
      rfl
  | cons part parts =>
      refine ⟨encode (Tree.newline level), gap_newline level, ?_⟩
      rw [Tree.block, if_neg (by simp), Text.Utf8.encode_cons, Text.Utf8.encode_append,
        Text.Utf8.encode_append, encode_commaSeparated, List.append_assoc]
      congr 3
      exact List.append_nil _

/-- A part is no longer than the list. -/
theorem length_le_of_mem (first : Bool) (gap : Bytes) {part : Bytes} {parts : List Bytes}
    (h : part ∈ parts) : part.length ≤ (listed first gap parts).length := by
  induction parts generalizing first with
  | nil => exact absurd h List.not_mem_nil
  | cons head parts ih =>
      rw [listed, List.length_append, List.length_append]
      rcases List.mem_cons.mp h with rfl | h
      · omega
      · have := ih false h
        omega

/-- A list is at least as long as it has parts. -/
theorem length_le_listed (first : Bool) (gap : Bytes) {parts : List Bytes}
    (h : ∀ part ∈ parts, 0 < part.length) : parts.length ≤ (listed first gap parts).length := by
  induction parts generalizing first with
  | nil => exact Nat.zero_le _
  | cons head parts ih =>
      have hhead := h head List.mem_cons_self
      have hparts := ih false fun part hpart => h part (List.mem_cons_of_mem _ hpart)
      rw [listed, List.length_append, List.length_append, List.length_cons]
      omega

/-- What follows an item may follow a value. -/
theorem delimited_listed {margin : Bytes} {b : UInt8} (hmargin : Gap margin)
    (hb : b = Byte.closeBracket ∨ b = Byte.closeBrace) (gap : Bytes) (parts : List Bytes)
    (rest : Bytes) : Delimited (listed false gap parts ++ (margin ++ b :: rest)) := by
  cases parts with
  | nil =>
      rw [listed, List.nil_append]
      exact delimited_gap hmargin (delimited_cons rest (Or.inr (Or.inr hb)))
  | cons part parts => exact delimited_cons _ (Or.inr (Or.inl rfl))

/-! ## Arrays -/

section Arrays

variable {gap margin rest : Bytes}

theorem nextElement_part (first : Bool) (hgap : Gap gap) {b : UInt8}
    (hb : Byte.isBlank b = false) (hne : b ≠ Byte.closeBracket) :
    nextElement first (lead first gap ++ b :: rest) = .ok (some (b :: rest)) := by
  have hcomma : Byte.isBlank Byte.comma = false ∧ Byte.comma ≠ Byte.closeBracket := by decide
  cases first with
  | true =>
      rw [lead, if_pos rfl]
      simp only [nextElement, skipBlanks_gap hgap, skipBlanks_cons hb, if_neg hne, if_true]
  | false =>
      rw [lead, if_neg Bool.false_ne_true, List.cons_append]
      simp only [nextElement, skipBlanks_cons hcomma.1, if_neg hcomma.2, skipBlanks_gap hgap,
        skipBlanks_cons hb, if_neg hne, Bool.false_eq_true, if_false, if_true]

theorem nextElement_end (first : Bool) (hmargin : Gap margin) :
    nextElement first (margin ++ Byte.closeBracket :: rest) = .ok none := by
  simp only [nextElement, skipBlanks_gap hmargin,
    skipBlanks_cons (show Byte.isBlank Byte.closeBracket = false by decide), if_true]

theorem closeArray_end (hmargin : Gap margin) :
    closeArray (margin ++ Byte.closeBracket :: rest) = .ok rest := by
  simp only [closeArray, skipBlanks_gap hmargin,
    skipBlanks_cons (show Byte.isBlank Byte.closeBracket = false by decide), if_true]

variable {reader : Bytes → Result α} {text : β → Bytes} {back : β → Option α} {items : List β}

/-- The items that are still to come, by induction on them. -/
theorem elements_listed (hgap : Gap gap) (hmargin : Gap margin) (rest : Bytes)
    (hread : ∀ x ∈ items, Reads reader (text x) (back x)) {rounds : Nat}
    (hrounds : items.length < rounds) (seen : List α) :
    (elements reader rounds seen
      (listed seen.isEmpty gap (items.map text) ++ (margin ++ Byte.closeBracket :: rest))).toOption =
      (items.mapM back).map fun values =>
        (seen.reverse ++ values, margin ++ Byte.closeBracket :: rest) := by
  induction items generalizing rounds seen with
  | nil =>
      obtain ⟨n, rfl⟩ : ∃ n, rounds = n + 1 := ⟨rounds - 1, by omega⟩
      rw [List.map_nil, listed, List.nil_append, elements, nextElement_end _ hmargin,
        List.mapM_nil]
      show some (seen.reverse, _) = some (seen.reverse ++ [], _)
      rw [List.append_nil]
  | cons x items ih =>
      rw [List.length_cons] at hrounds
      obtain ⟨n, rfl⟩ : ∃ n, rounds = n + 1 := ⟨rounds - 1, by omega⟩
      -- the reader stands before the next item, and what is behind the item may follow a value
      have hx := hread x List.mem_cons_self
      have hdelimited := delimited_listed hmargin (Or.inl rfl) gap (items.map text) rest
      obtain ⟨b, tail, htext, hblank, hne⟩ := hx.head
      have hnext : nextElement seen.isEmpty
          (listed seen.isEmpty gap ((x :: items).map text) ++
            (margin ++ Byte.closeBracket :: rest)) =
          .ok (some (text x ++
            (listed false gap (items.map text) ++ (margin ++ Byte.closeBracket :: rest)))) := by
        rw [List.map_cons, listed, htext, List.append_assoc, List.append_assoc, List.cons_append]
        exact nextElement_part _ hgap hblank hne
      rw [elements, hnext, List.mapM_cons]
      cases hback : back x with
      | none =>
          obtain ⟨fault, herror⟩ := (hback ▸ hx).error hdelimited
          simp only [herror]
          rfl
      | some value =>
          have hok := (hback ▸ hx).ok hdelimited
          have hrest := ih (fun y hy => hread y (List.mem_cons_of_mem _ hy))
            (Nat.lt_of_succ_lt_succ hrounds) (value :: seen)
          rw [List.isEmpty_cons] at hrest
          simp only [hok]
          rw [hrest, List.reverse_cons]
          cases items.mapM back with
          | none => rfl
          | some values =>
              show some (seen.reverse ++ [value] ++ values, _) = some (seen.reverse ++ value :: values, _)
              rw [List.append_assoc, List.singleton_append]

/-- **The items of an array**, after its opening bracket. -/
theorem arrayOf_listed (hgap : Gap gap) (hmargin : Gap margin) (rest : Bytes)
    (hread : ∀ x ∈ items, Reads reader (text x) (back x)) {rounds : Nat}
    (hrounds : items.length < rounds) :
    (arrayOf rounds reader
      (listed true gap (items.map text) ++ (margin ++ Byte.closeBracket :: rest))).toOption =
      (items.mapM back).map (·, rest) := by
  have hitems := elements_listed hgap hmargin rest hread hrounds []
  rw [List.isEmpty_nil] at hitems
  rw [arrayOf]
  cases hvalues : items.mapM back with
  | none =>
      rw [hvalues] at hitems
      obtain ⟨fault, herror⟩ := eq_error_of_toOption hitems
      rw [herror]
      rfl
  | some values =>
      rw [hvalues] at hitems
      rw [eq_ok_of_toOption hitems]
      simp only [closeArray_end hmargin]
      rfl

end Arrays

/-! ## Objects -/

section Objects

variable {gap margin rest : Bytes}

theorem colon_cons : colon (Byte.colon :: rest) = .ok rest := by
  simp only [colon, skipBlanks_cons (show Byte.isBlank Byte.colon = false by decide), if_true]

theorem nextKey_part (first : Bool) (hgap : Gap gap) (key : String) :
    nextKey first (lead first gap ++ (quotedBytes key ++ rest)) = .ok (some (key, rest)) := by
  have hquote : Byte.isBlank Byte.quote = false ∧ Byte.quote ≠ Byte.closeBrace := by decide
  have hcomma : Byte.isBlank Byte.comma = false ∧ Byte.comma ≠ Byte.closeBrace := by decide
  rw [quotedBytes_eq, List.cons_append, List.append_assoc, List.singleton_append]
  cases first with
  | true =>
      rw [lead, if_pos rfl]
      simp only [nextKey, skipBlanks_gap hgap, skipBlanks_cons hquote.1, if_neg hquote.2, if_true,
        string_quoted]
      rfl
  | false =>
      rw [lead, if_neg Bool.false_ne_true, List.cons_append]
      simp only [nextKey, skipBlanks_cons hcomma.1, if_neg hcomma.2, skipBlanks_gap hgap,
        skipBlanks_cons hquote.1, Bool.false_eq_true, if_false, if_true, string_quoted]
      rfl

theorem nextKey_end (first : Bool) (hmargin : Gap margin) :
    nextKey first (margin ++ Byte.closeBrace :: rest) = .ok none := by
  simp only [nextKey, skipBlanks_gap hmargin,
    skipBlanks_cons (show Byte.isBlank Byte.closeBrace = false by decide), if_true]

theorem closeObject_end (hmargin : Gap margin) :
    closeObject (margin ++ Byte.closeBrace :: rest) = .ok rest := by
  simp only [closeObject, skipBlanks_gap hmargin,
    skipBlanks_cons (show Byte.isBlank Byte.closeBrace = false by decide), if_true]

variable {member : σ → String → Bytes → Result σ} {key : β → String} {after : β → Bytes}
  {step : σ → β → Option σ} {items : List β}

/-- A member that is read is taken into the state. -/
theorem members_ok {text : Bytes} {name : String} {state next : σ} {parts : List Bytes}
    (first : Bool) (rounds : Nat) (hgap : Gap gap)
    (h : member state name (text ++ (listed false gap parts ++ rest)) =
      .ok (next, listed false gap parts ++ rest)) :
    members member (rounds + 1) first state
      (listed first gap ((quotedBytes name ++ text) :: parts) ++ rest) =
      members member rounds false next (listed false gap parts ++ rest) := by
  rw [listed, List.append_assoc, List.append_assoc, List.append_assoc, members,
    nextKey_part first hgap]
  simp only [h]

/-- A member that is refused refuses the object. -/
theorem members_error {text : Bytes} {name : String} {state : σ} {parts : List Bytes}
    {fault : Fault} (first : Bool) (rounds : Nat) (hgap : Gap gap)
    (h : member state name (text ++ (listed false gap parts ++ rest)) = .error fault) :
    members member (rounds + 1) first state
      (listed first gap ((quotedBytes name ++ text) :: parts) ++ rest) = .error fault := by
  rw [listed, List.append_assoc, List.append_assoc, List.append_assoc, members,
    nextKey_part first hgap]
  simp only [h]

theorem members_end (first : Bool) (rounds : Nat) (state : σ) (hmargin : Gap margin) (rest : Bytes) :
    members member (rounds + 1) first state (margin ++ Byte.closeBrace :: rest) =
      .ok (state, margin ++ Byte.closeBrace :: rest) := by
  rw [members, nextKey_end _ hmargin]

/-- The members that are still to come, by induction on them. Each one changes the state, or is
    refused. -/
theorem members_listed (hgap : Gap gap) (hmargin : Gap margin) (rest : Bytes)
    (hstep : ∀ x ∈ items, ∀ state rest, Delimited rest →
      (member state (key x) (after x ++ rest)).toOption = (step state x).map (·, rest))
    {rounds : Nat} (hrounds : items.length < rounds) (first : Bool) (state : σ) :
    (members member rounds first state
      (listed first gap (items.map fun x => quotedBytes (key x) ++ after x) ++
        (margin ++ Byte.closeBrace :: rest))).toOption =
      (items.foldlM step state).map (·, margin ++ Byte.closeBrace :: rest) := by
  induction items generalizing rounds first state with
  | nil =>
      obtain ⟨n, rfl⟩ : ∃ n, rounds = n + 1 := ⟨rounds - 1, by omega⟩
      rw [List.map_nil, listed, List.nil_append, members_end _ _ _ hmargin, List.foldlM_nil]
      rfl
  | cons x items ih =>
      rw [List.length_cons] at hrounds
      obtain ⟨n, rfl⟩ : ∃ n, rounds = n + 1 := ⟨rounds - 1, by omega⟩
      have hdelimited := delimited_listed hmargin (Or.inr rfl) gap
        (items.map fun x => quotedBytes (key x) ++ after x) rest
      have hx := hstep x List.mem_cons_self state _ hdelimited
      rw [List.map_cons, List.foldlM_cons]
      cases hnext : step state x with
      | none =>
          rw [hnext] at hx
          obtain ⟨fault, herror⟩ := eq_error_of_toOption hx
          rw [members_error first n hgap herror]
          rfl
      | some next =>
          rw [hnext] at hx
          rw [members_ok first n hgap (eq_ok_of_toOption hx)]
          exact ih (fun y hy => hstep y (List.mem_cons_of_mem _ hy)) (Nat.lt_of_succ_lt_succ hrounds)
            false next

/-- Members that are read alike are read like items. -/
theorem foldlM_pairs (back : β → Option α) (items : List β) (seen : List (String × α)) :
    items.foldlM (fun seen x => (back x).map fun value => (key x, value) :: seen) seen =
      (items.mapM fun x => (back x).map (key x, ·)).map fun pairs => pairs.reverse ++ seen := by
  induction items generalizing seen with
  | nil => rfl
  | cons x items ih =>
      rw [List.foldlM_cons, List.mapM_cons]
      cases back x with
      | none => rfl
      | some value =>
          show items.foldlM _ ((key x, value) :: seen) = _
          rw [ih]
          cases items.mapM fun x => (back x).map (key x, ·) with
          | none => rfl
          | some pairs =>
              show some (pairs.reverse ++ (key x, value) :: seen) =
                some (((key x, value) :: pairs).reverse ++ seen)
              rw [List.reverse_cons, List.append_assoc, List.singleton_append]

/-- **The members of an object**, all read alike, after its opening brace. -/
theorem objectOf_listed {reader : Bytes → Result α} (key : β → String) {text : β → Bytes}
    {back : β → Option α} (hgap : Gap gap) (hmargin : Gap margin) {space : Bytes} (hspace : Gap space) (rest : Bytes)
    (hread : ∀ x ∈ items, Reads reader (text x) (back x)) {rounds : Nat}
    (hrounds : items.length < rounds) :
    (objectOf rounds reader
      (listed true gap (items.map fun x => quotedBytes (key x) ++
        Byte.colon :: (space ++ text x)) ++ (margin ++ Byte.closeBrace :: rest))).toOption =
      ((items.mapM fun x => (back x).map (key x, ·)).map KeyMap.ofList).map (·, rest) := by
  have hstep : ∀ x ∈ items, ∀ seen rest, Delimited rest →
      (uniformMember reader seen (key x) (Byte.colon :: (space ++ text x) ++ rest)).toOption =
        ((back x).map fun value => (key x, value) :: seen).map (·, rest) := by
    intro x hx seen rest hrest
    have hvalue := (hread x hx).read space rest hspace hrest
    rw [List.cons_append, List.append_assoc, uniformMember, colon_cons]
    cases hback : back x with
    | none =>
        rw [hback] at hvalue
        obtain ⟨fault, herror⟩ := eq_error_of_toOption hvalue
        simp only [herror]
        rfl
    | some value =>
        rw [hback] at hvalue
        simp only [eq_ok_of_toOption hvalue]
        rfl
  -- the pairs were put in front of each other, so they are turned round once at the end
  have hmembers := members_listed hgap hmargin rest hstep hrounds true []
  rw [foldlM_pairs] at hmembers
  rw [objectOf]
  cases hpairs : items.mapM fun x => (back x).map (key x, ·) with
  | none =>
      rw [hpairs] at hmembers
      obtain ⟨fault, herror⟩ := eq_error_of_toOption hmembers
      rw [herror]
      rfl
  | some pairs =>
      rw [hpairs] at hmembers
      rw [eq_ok_of_toOption hmembers]
      simp only [closeObject_end hmargin, List.append_nil, List.reverse_reverse]
      rfl

end Objects

/-! ## Readers that refuse -/

/-- Items that are all admitted are all read; if one is not, none is. -/
theorem mapM_guard {p : β → Prop} [DecidablePred p] (f : β → α) (items : List β) :
    (items.mapM fun x => if p x then some (f x) else none) =
      if ∀ x ∈ items, p x then some (items.map f) else none := by
  induction items with
  | nil => rw [List.mapM_nil, if_pos (fun x hx => absurd hx List.not_mem_nil)]; rfl
  | cons x items ih =>
      rw [List.mapM_cons, ih]
      by_cases hx : p x
      · by_cases hitems : ∀ y ∈ items, p y
        · rw [if_pos hx, if_pos hitems, if_pos (List.forall_mem_cons.mpr ⟨hx, hitems⟩)]
          rfl
        · rw [if_pos hx, if_neg hitems, if_neg fun h => hitems (List.forall_mem_cons.mp h).2]
          rfl
      · rw [if_neg hx, if_neg fun h => hx (List.forall_mem_cons.mp h).1]
        rfl

/-- Items that are all admitted are all read with their keys. -/
theorem mapM_keyed {p : β → Prop} [DecidablePred p] (key : β → String) (f : β → α) (items : List β) :
    (items.mapM fun x => (if p x then some (f x) else none).map (key x, ·)) =
      if ∀ x ∈ items, p x then some (items.map fun x => (key x, f x)) else none := by
  have hback : (fun x : β => (if p x then some (f x) else none).map (key x, ·)) =
      fun x => if p x then some (key x, f x) else none := by
    funext x
    split <;> rfl
  rw [hback, mapM_guard]

/-- The entries of a map that are all admitted are read as a map again. -/
theorem mapM_entries {p : β → Prop} [DecidablePred p] (f : β → α) (m : KeyMap β) :
    (m.entries.mapM fun entry =>
      (if p entry.2 then some (f entry.2) else none).map (entry.1, ·)).map KeyMap.ofList =
      if ∀ entry ∈ m.entries, p entry.2 then some (m.map f) else none := by
  rw [mapM_keyed]
  split
  · exact congrArg some (KeyMap.ofList_entries (m.map f))
  · rfl

/-- **The members of a map**, after its opening brace. -/
theorem objectOf_entries {reader : Bytes → Result α} (text : β → Bytes) {p : β → Prop}
    [DecidablePred p] {f : β → α} {gap margin space : Bytes} (hgap : Gap gap) (hmargin : Gap margin)
    (hspace : Gap space) (rest : Bytes) {m : KeyMap β}
    (hread : ∀ entry ∈ m.entries,
      Reads reader (text entry.2) (if p entry.2 then some (f entry.2) else none))
    {rounds : Nat} (hrounds : m.entries.length < rounds) :
    (objectOf rounds reader
      (listed true gap (m.entries.map fun entry => quotedBytes entry.1 ++
        Byte.colon :: (space ++ text entry.2)) ++ (margin ++ Byte.closeBrace :: rest))).toOption =
      if ∀ entry ∈ m.entries, p entry.2 then some (m.map f, rest) else none := by
  rw [objectOf_listed Prod.fst hgap hmargin hspace rest hread hrounds, mapM_entries f m]
  split
  · rfl
  · rfl

end DocStore.Json.Reader
