/-!
# Key maps

Finite maps from texts, kept as a list of entries in strictly ascending order of their keys. The
order is that of code points, so a map has one representation, and listing it needs no sorting.

## Contents
- `KeyMap`: the type; `KeySet`: maps that only have keys.
- `find?`, `contains`, `insert`, `erase`, `ofList`, `map`, `filterMap`: the operations.
- `find?_empty`, `find?_insert`, `find?_erase`, `find?_map`, `find?_filterMap`, `find?_ofList`: what
  each operation does to the look-ups.
- `ext_find?`: maps with equal look-ups are equal; `ofList_entries`: a map is the map of its entries;
  `map_eq_self_iff`: when replacing the values changes nothing.
-/

namespace DocStore

/-- A finite map from texts. -/
structure KeyMap (α : Type) where
  entries : List (String × α)
  ascending : entries.Pairwise fun a b => a.1 < b.1

namespace KeyMap

variable {α β : Type}

instance [DecidableEq α] : DecidableEq (KeyMap α) := fun a b =>
  if h : a.entries = b.entries then
    .isTrue (by cases a; cases b; simp_all)
  else
    .isFalse fun e => h (e ▸ rfl)

/-- Maps with the same entries are equal. -/
theorem ext_entries {a b : KeyMap α} (h : a.entries = b.entries) : a = b := by
  cases a
  cases b
  simp_all

/-! ## Operations -/

/-- The map without entries. -/
def empty : KeyMap α :=
  ⟨[], List.Pairwise.nil⟩

/-- The value at a key. -/
def find? (m : KeyMap α) (key : String) : Option α :=
  m.entries.lookup key

/-- Whether a key has a value. -/
def contains (m : KeyMap α) (key : String) : Bool :=
  (m.find? key).isSome

/-- The keys in ascending order. -/
def keys (m : KeyMap α) : List String :=
  m.entries.map (·.1)

/-- The values in the order of their keys. -/
def values (m : KeyMap α) : List α :=
  m.entries.map (·.2)

/-- The number of entries. -/
def size (m : KeyMap α) : Nat :=
  m.entries.length

/-- Whether a map has no entry. -/
def isEmpty (m : KeyMap α) : Bool :=
  m.entries.isEmpty

/-- Puts an entry at its place in an ascending list. The old value at the key gives way. -/
def insertEntry (key : String) (value : α) : List (String × α) → List (String × α)
  | [] => [(key, value)]
  | (k, v) :: rest =>
    if key < k then (key, value) :: (k, v) :: rest
    else if key = k then (key, value) :: rest
    else (k, v) :: insertEntry key value rest

/-- What an entry of the longer list is. -/
theorem mem_insertEntry {key : String} {value : α} {entry : String × α}
    {entries : List (String × α)} (h : entry ∈ insertEntry key value entries) :
    entry = (key, value) ∨ entry ∈ entries := by
  induction entries with
  | nil => simpa [insertEntry] using h
  | cons head rest ih =>
      obtain ⟨k, v⟩ := head
      simp only [insertEntry] at h
      split at h
      · simpa using h
      split at h
      · rcases List.mem_cons.mp h with h | h
        · exact Or.inl h
        · exact Or.inr (List.mem_cons_of_mem _ h)
      · rcases List.mem_cons.mp h with h | h
        · exact Or.inr (h ▸ List.mem_cons_self)
        · rcases ih h with h | h
          · exact Or.inl h
          · exact Or.inr (List.mem_cons_of_mem _ h)

/-- The place of an entry keeps the order. -/
theorem insertEntry_ascending (key : String) (value : α) {entries : List (String × α)}
    (h : entries.Pairwise fun a b => a.1 < b.1) :
    (insertEntry key value entries).Pairwise fun a b => a.1 < b.1 := by
  induction entries with
  | nil => simp [insertEntry]
  | cons head rest ih =>
      obtain ⟨k, v⟩ := head
      obtain ⟨hhead, hrest⟩ := List.pairwise_cons.mp h
      simp only [insertEntry]
      split
      · rename_i hlt
        refine List.pairwise_cons.mpr ⟨?_, h⟩
        intro entry hentry
        rcases List.mem_cons.mp hentry with rfl | hentry
        · exact hlt
        · exact String.lt_trans hlt (hhead entry hentry)
      split
      · rename_i heq
        subst heq
        exact List.pairwise_cons.mpr ⟨hhead, hrest⟩
      · rename_i hnlt hne
        refine List.pairwise_cons.mpr ⟨?_, ih hrest⟩
        intro entry hentry
        rcases mem_insertEntry hentry with rfl | hentry
        · rcases String.le_total key k with hle | hle
          · exact absurd (String.le_antisymm hle (String.not_lt.mp hnlt)) hne
          · exact Classical.byContradiction fun hcon =>
              hne (String.le_antisymm (String.not_lt.mp hcon) hle)
        · exact hhead entry hentry

/-- The map with a value at a key. -/
def insert (m : KeyMap α) (key : String) (value : α) : KeyMap α :=
  ⟨insertEntry key value m.entries, insertEntry_ascending key value m.ascending⟩

/-- The map without a key. -/
def erase (m : KeyMap α) (key : String) : KeyMap α :=
  ⟨m.entries.filter fun entry => entry.1 != key, m.ascending.filter _⟩

/-- The map with a value at a key, unless the key has one already. -/
def insertNew (m : KeyMap α) (key : String) (value : α) : KeyMap α :=
  if m.contains key then m else m.insert key value

/-- The map of a list of entries; of those with one key the last counts. -/
def ofList (list : List (String × α)) : KeyMap α :=
  list.foldr (fun entry m => m.insertNew entry.1 entry.2) empty

/-- The map with every value replaced by its image. -/
def map (f : α → β) (m : KeyMap α) : KeyMap β :=
  ⟨m.entries.map fun entry => (entry.1, f entry.2),
    List.pairwise_map.mpr m.ascending⟩

/-- The map of the images that exist. -/
def filterMap (f : α → Option β) (m : KeyMap α) : KeyMap β :=
  ⟨m.entries.filterMap fun entry => (f entry.2).map fun value => (entry.1, value), by
    refine List.pairwise_filterMap.mpr (m.ascending.imp ?_)
    intro a b hab x hx y hy
    simp only [Option.map_eq_some_iff] at hx hy
    obtain ⟨_, _, rfl⟩ := hx
    obtain ⟨_, _, rfl⟩ := hy
    exact hab⟩

/-! ## Look-ups -/

theorem lookup_cons_ite (key : String) (entry : String × α) (rest : List (String × α)) :
    (entry :: rest).lookup key = if key = entry.1 then some entry.2 else rest.lookup key := by
  obtain ⟨k, v⟩ := entry
  rw [List.lookup_cons]
  by_cases h : key = k
  · subst h
    simp
  · have hk : (key == k) = false := by simpa using h
    simp only [hk, h, if_false]

private theorem lookup_eq_none {entries : List (String × α)} {key : String}
    (h : ∀ entry ∈ entries, entry.1 ≠ key) : entries.lookup key = none := by
  rw [List.lookup_eq_none_iff]
  intro entry hentry
  simpa using fun e => h entry hentry e.symm

private theorem lookup_eq_none_of_lt {entries : List (String × α)} {key : String}
    (h : ∀ entry ∈ entries, key < entry.1) : entries.lookup key = none :=
  lookup_eq_none fun entry hentry e => by
    have hlt := h entry hentry
    rw [e] at hlt
    exact String.lt_irrefl _ hlt

private theorem lookup_insertEntry (key : String) (value : α) (entries : List (String × α))
    (other : String) :
    (insertEntry key value entries).lookup other =
      if other = key then some value else entries.lookup other := by
  induction entries with
  | nil => simp only [insertEntry, lookup_cons_ite, List.lookup_nil]
  | cons head rest ih =>
      obtain ⟨k, v⟩ := head
      simp only [insertEntry]
      split
      · simp only [lookup_cons_ite]
      split
      · rename_i heq
        subst heq
        by_cases h : other = key <;> simp [lookup_cons_ite, h]
      · rename_i hne
        simp only [lookup_cons_ite, ih]
        by_cases h : other = k
        · subst h
          simp [Ne.symm hne]
        · simp [h]

@[simp] theorem find?_empty (key : String) : (empty : KeyMap α).find? key = none := rfl

theorem find?_insert (m : KeyMap α) (key : String) (value : α) (other : String) :
    (m.insert key value).find? other = if other = key then some value else m.find? other :=
  lookup_insertEntry key value m.entries other

theorem find?_erase (m : KeyMap α) (key other : String) :
    (m.erase key).find? other = if other = key then none else m.find? other := by
  obtain ⟨entries, ascending⟩ := m
  simp only [find?, erase]
  clear ascending
  induction entries with
  | nil => simp
  | cons head rest ih =>
      obtain ⟨k, v⟩ := head
      by_cases hk : k = key
      · subst hk
        simp only [List.filter_cons, bne_self_eq_false, Bool.false_eq_true, if_false, ih,
          lookup_cons_ite]
        by_cases h : other = k <;> simp [h]
      · simp only [List.filter_cons, bne_iff_ne.mpr hk, if_true, lookup_cons_ite, ih]
        by_cases h : other = k
        · subst h
          simp [hk]
        · simp [h]

theorem find?_map (f : α → β) (m : KeyMap α) (key : String) :
    (m.map f).find? key = (m.find? key).map f := by
  obtain ⟨entries, ascending⟩ := m
  simp only [find?, map]
  clear ascending
  induction entries with
  | nil => rfl
  | cons head rest ih =>
      rw [List.map_cons, lookup_cons_ite, lookup_cons_ite, ih]
      split <;> rfl

theorem find?_filterMap (f : α → Option β) (m : KeyMap α) (key : String) :
    (m.filterMap f).find? key = (m.find? key).bind f := by
  obtain ⟨entries, ascending⟩ := m
  simp only [find?, filterMap]
  induction entries with
  | nil => rfl
  | cons head rest ih =>
      obtain ⟨k, v⟩ := head
      obtain ⟨hhead, hrest⟩ := List.pairwise_cons.mp ascending
      have ih := ih hrest
      rw [lookup_cons_ite]
      by_cases h : key = k
      · subst h
        rw [lookup_eq_none_of_lt hhead] at ih
        cases hf : f v with
        | none => simp [hf, ih]
        | some w => simp [hf]
      · cases hf : f v with
        | none => simp [hf, h, ih]
        | some w => simp [lookup_cons_ite, hf, h, ih]

theorem find?_insertNew (m : KeyMap α) (key : String) (value : α) (other : String) :
    (m.insertNew key value).find? other =
      if other = key then some ((m.find? key).getD value) else m.find? other := by
  unfold insertNew contains
  cases h : m.find? key with
  | none => simp [find?_insert]
  | some old =>
      by_cases ho : other = key
      · subst ho
        simp [h]
      · simp [ho]

/-- The last of the entries with a key counts. -/
theorem find?_ofList (list : List (String × α)) (key : String) :
    (ofList list).find? key = list.reverse.lookup key := by
  induction list with
  | nil => rfl
  | cons head rest ih =>
      have hstep : (ofList (head :: rest)) = (ofList rest).insertNew head.1 head.2 := rfl
      have happ : (rest.reverse ++ [head]).lookup key =
          (rest.reverse.lookup key).or ([head].lookup key) := List.lookup_append
      rw [hstep, find?_insertNew, List.reverse_cons, happ, ← ih, lookup_cons_ite, List.lookup_nil]
      by_cases h : key = head.1
      · subst h
        cases (ofList rest).find? head.1 <;> simp
      · simp [h]

/-! ## Equality -/

private theorem lookup_of_mem {entries : List (String × α)}
    (h : entries.Pairwise fun a b => a.1 < b.1) {entry : String × α} (hmem : entry ∈ entries) :
    entries.lookup entry.1 = some entry.2 := by
  induction entries with
  | nil => exact absurd hmem List.not_mem_nil
  | cons head rest ih =>
      obtain ⟨hhead, hrest⟩ := List.pairwise_cons.mp h
      rw [lookup_cons_ite]
      rcases List.mem_cons.mp hmem with rfl | hmem
      · simp
      · have hlt := hhead entry hmem
        rw [if_neg fun e => by
          rw [e] at hlt
          exact String.lt_irrefl _ hlt]
        exact ih hrest hmem

/-- An entry is what is found at its key. -/
theorem mem_entries_iff (m : KeyMap α) (key : String) (value : α) :
    (key, value) ∈ m.entries ↔ m.find? key = some value := by
  constructor
  · exact fun h => lookup_of_mem m.ascending h
  · intro h
    obtain ⟨l₁, l₂, hl, _⟩ := List.lookup_eq_some_iff.mp h
    rw [hl]
    simp

private theorem eq_of_lookup_eq {a b : List (String × α)}
    (ha : a.Pairwise fun x y => x.1 < y.1) (hb : b.Pairwise fun x y => x.1 < y.1)
    (h : ∀ key, a.lookup key = b.lookup key) : a = b := by
  induction a generalizing b with
  | nil =>
      cases b with
      | nil => rfl
      | cons head rest =>
          have hhead := h head.1
          simp [lookup_cons_ite] at hhead
  | cons x xs ih =>
      cases b with
      | nil =>
          have hhead := h x.1
          simp [lookup_cons_ite] at hhead
      | cons y ys =>
          obtain ⟨hx, hxs⟩ := List.pairwise_cons.mp ha
          obtain ⟨hy, hys⟩ := List.pairwise_cons.mp hb
          have xmem : x ∈ y :: ys := by
            have hfind : (y :: ys).lookup x.1 = some x.2 := by
              rw [← h]
              exact lookup_of_mem ha List.mem_cons_self
            exact (mem_entries_iff ⟨y :: ys, hb⟩ x.1 x.2).mpr hfind
          have ymem : y ∈ x :: xs := by
            have hfind : (x :: xs).lookup y.1 = some y.2 := by
              rw [h]
              exact lookup_of_mem hb List.mem_cons_self
            exact (mem_entries_iff ⟨x :: xs, ha⟩ y.1 y.2).mpr hfind
          have hxy : x = y := by
            rcases List.mem_cons.mp xmem with e | hmem
            · exact e
            · rcases List.mem_cons.mp ymem with e | hmem'
              · exact e.symm
              · exact absurd (String.lt_trans (hy x hmem) (hx y hmem')) (String.lt_irrefl _)
          subst hxy
          congr 1
          refine ih hxs hys fun key => ?_
          have hkey := h key
          rw [lookup_cons_ite, lookup_cons_ite] at hkey
          by_cases e : key = x.1
          · subst e
            rw [lookup_eq_none_of_lt hx, lookup_eq_none_of_lt hy]
          · simpa [e] using hkey

/-- Maps with equal look-ups are equal. -/
theorem ext_find? {a b : KeyMap α} (h : ∀ key, a.find? key = b.find? key) : a = b :=
  ext_entries (eq_of_lookup_eq a.ascending b.ascending h)

private theorem ofList_ascending {list : List (String × α)}
    (h : list.Pairwise fun a b => a.1 < b.1) : (ofList list).entries = list := by
  induction list with
  | nil => rfl
  | cons head rest ih =>
      obtain ⟨hhead, hrest⟩ := List.pairwise_cons.mp h
      have ih := ih hrest
      have hnew : (ofList rest).contains head.1 = false := by
        rw [contains, find?, ih, lookup_eq_none_of_lt hhead]
        rfl
      have hstep : ofList (head :: rest) = (ofList rest).insertNew head.1 head.2 := rfl
      rw [hstep, insertNew, hnew, if_neg Bool.false_ne_true]
      show insertEntry head.1 head.2 (ofList rest).entries = _
      rw [ih]
      cases rest with
      | nil => rfl
      | cons next rest =>
          show insertEntry head.1 head.2 ((next.1, next.2) :: rest) = _
          rw [insertEntry, if_pos (hhead next List.mem_cons_self)]

/-- A map is the map of its entries. -/
theorem ofList_entries (m : KeyMap α) : ofList m.entries = m :=
  ext_entries (ofList_ascending m.ascending)

/-- Replacing the values changes nothing exactly when every value is its own image. -/
theorem map_eq_self_iff (f : α → α) (m : KeyMap α) :
    m.map f = m ↔ ∀ entry ∈ m.entries, f entry.2 = entry.2 := by
  constructor
  · intro h entry hentry
    have hentries : m.entries.map (fun entry => (entry.1, f entry.2)) = m.entries.map id :=
      (congrArg entries h).trans (List.map_id _).symm
    exact congrArg Prod.snd (List.map_inj_left.mp hentries entry hentry)
  · intro h
    refine ext_entries ((List.map_congr_left fun entry hentry => ?_).trans (List.map_id m.entries))
    exact Prod.ext rfl (h entry hentry)

end KeyMap

/-! ## Sets of texts -/

/-- A finite set of texts, listed in ascending order. -/
abbrev KeySet := KeyMap Unit

/-- The set of the texts in a list. -/
def KeySet.ofTexts (texts : List String) : KeySet :=
  KeyMap.ofList (texts.map fun text => (text, ()))

end DocStore
