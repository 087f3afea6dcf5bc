import DocStore.Proofs.Json.Remainders
import DocStore.Proofs.Json.Values

/-!
# How deep a value that was read can be

A reader that may open so many brackets gives no value that nests deeper. The loops give nothing but
what the reader for their parts gave.

## Contents
- `elements_forall`, `arrayOf_forall`: the items of an array that was read.
- `members_inv`, `objectOf_forall`: the members of an object that was read.
- `value_depth_le`: **the depth of a value that was read**.
- `parseObject_depth_le`: payloads.
-/

namespace DocStore

namespace KeyMap

variable {α : Type}

theorem mem_insertNew {m : KeyMap α} {key : String} {value : α} {entry : String × α}
    (h : entry ∈ (m.insertNew key value).entries) : entry = (key, value) ∨ entry ∈ m.entries := by
  rw [insertNew] at h
  split at h
  · exact Or.inr h
  · exact mem_insertEntry h

/-- The entries of the map of a list are entries of the list. -/
theorem mem_ofList {list : List (String × α)} {entry : String × α}
    (h : entry ∈ (ofList list).entries) : entry ∈ list := by
  induction list with
  | nil => exact absurd h List.not_mem_nil
  | cons head rest ih =>
      rcases mem_insertNew h with rfl | h
      · exact List.mem_cons_self
      · exact List.mem_cons_of_mem _ (ih h)

end KeyMap

namespace Json.Reader

open Text (Bytes)

variable {α σ : Type}

/-! ## Loops -/

/-- Every item that a loop gives was seen before or read by the reader for items. -/
theorem elements_forall {P : α → Prop} {element : Bytes → Result α}
    (hread : ∀ s x rest, element s = .ok (x, rest) → P x) {rounds : Nat} {seen items : List α}
    {s rest : Bytes} (hseen : ∀ x ∈ seen, P x)
    (h : elements element rounds seen s = .ok (items, rest)) : ∀ x ∈ items, P x := by
  induction rounds generalizing seen s with
  | zero => cases h
  | succ rounds ih =>
      rw [elements] at h
      split at h
      · cases h
      · cases h
        intro x hx
        exact hseen x (List.mem_reverse.mp hx)
      · split at h
        · cases h
        · rename_i x after hx
          refine ih (fun y hy => ?_) h
          rcases List.mem_cons.mp hy with rfl | hy
          · exact hread _ _ _ hx
          · exact hseen y hy

theorem arrayOf_forall {P : α → Prop} {element : Bytes → Result α}
    (hread : ∀ s x rest, element s = .ok (x, rest) → P x) {rounds : Nat} {items : List α}
    {s rest : Bytes} (h : arrayOf rounds element s = .ok (items, rest)) : ∀ x ∈ items, P x := by
  rw [arrayOf] at h
  split at h
  · cases h
  · rename_i found after hfound
    cases hclose : closeArray after with
    | error fault =>
        rw [hclose] at h
        cases h
    | ok last =>
        rw [hclose] at h
        cases h
        exact elements_forall hread (fun x hx => absurd hx List.not_mem_nil) hfound

/-- What every member keeps, the loop over the members keeps. -/
theorem members_inv {I : σ → Prop} {member : σ → String → Bytes → Result σ}
    (hstep : ∀ state key s next rest, I state → member state key s = .ok (next, rest) → I next)
    {rounds : Nat} {first : Bool} {state last : σ} {s rest : Bytes} (hstate : I state)
    (h : members member rounds first state s = .ok (last, rest)) : I last := by
  induction rounds generalizing first state s with
  | zero => cases h
  | succ rounds ih =>
      rw [members] at h
      split at h
      · cases h
      · cases h
        exact hstate
      · split at h
        · cases h
        · rename_i next after hnext
          exact ih (hstep _ _ _ _ _ hstate hnext) h

theorem objectOf_forall {P : α → Prop} {item : Bytes → Result α}
    (hread : ∀ s x rest, item s = .ok (x, rest) → P x) {rounds : Nat} {m : KeyMap α}
    {s rest : Bytes} (h : objectOf rounds item s = .ok (m, rest)) :
    ∀ entry ∈ m.entries, P entry.2 := by
  -- a round puts one entry in front of those that were seen
  have hstep : ∀ (seen : List (String × α)) key s next rest, (∀ entry ∈ seen, P entry.2) →
      uniformMember item seen key s = .ok (next, rest) → ∀ entry ∈ next, P entry.2 := by
    intro seen key s next rest hseen hnext
    rw [uniformMember] at hnext
    split at hnext
    · cases hnext
    split at hnext
    · cases hnext
    · rename_i x after hx
      cases hnext
      intro entry hentry
      rcases List.mem_cons.mp hentry with rfl | hentry
      · exact hread _ _ _ hx
      · exact hseen entry hentry
  rw [objectOf] at h
  split at h
  · cases h
  · rename_i seen after hseen
    cases hclose : closeObject after with
    | error fault =>
        rw [hclose] at h
        cases h
    | ok last =>
        rw [hclose] at h
        cases h
        have hall := members_inv (I := fun seen => ∀ entry ∈ seen, P entry.2) hstep
          (fun entry hentry => absurd hentry List.not_mem_nil) hseen
        intro entry hentry
        exact hall entry (List.mem_reverse.mp (KeyMap.mem_ofList hentry))

/-! ## Values -/

/-- What was made of what was read opens no bracket if it never does. -/
private theorem depth_of_map {result : Result α} {f : α → Json} {rest : Bytes} {v : Json}
    (hf : ∀ x, (f x).depth = 0)
    (h : (result.map fun (x, rest) => (f x, rest)) = .ok (v, rest)) : v.depth = 0 := by
  cases result with
  | error fault => cases h
  | ok answer =>
      cases h
      exact hf _

private theorem depth_of_word {result : Except Fault Bytes} {value : Json} {rest : Bytes} {v : Json}
    (hvalue : value.depth = 0) (h : result.map (value, ·) = .ok (v, rest)) : v.depth = 0 := by
  cases result with
  | error fault => cases h
  | ok answer =>
      cases h
      exact hvalue

/-- A scalar opens no bracket. -/
theorem scalar_depth {b : UInt8} {s rest : Bytes} {v : Json} (h : scalar b s = .ok (v, rest)) :
    v.depth = 0 := by
  unfold scalar at h
  split at h
  · exact depth_of_word rfl h
  split at h
  · exact depth_of_word rfl h
  split at h
  · exact depth_of_word rfl h
  split at h
  · exact depth_of_map (fun _ => rfl) h
  split at h
  · exact depth_of_map (fun _ => rfl) h
  split at h
  · exact depth_of_map (fun _ => rfl) h
  · cases h

/-- A value whose parts are read by `inner` is a scalar, or an array or object of such parts. -/
theorem valueWith_cases {rounds : Nat} {inner : Option (Bytes → Result Json)} {s rest : Bytes}
    {v : Json} (h : valueWith rounds inner s = .ok (v, rest)) :
    v.depth = 0 ∨ ∃ item s after, inner = some item ∧
      ((∃ items, arrayOf rounds item s = .ok (items, after) ∧ v = Json.array items) ∨
        ∃ payload, objectOf rounds item s = .ok (payload, after) ∧ v = Json.object payload) := by
  rw [valueWith] at h
  split at h
  · cases h
  rename_i b tail _
  split at h
  · cases inner with
    | none => cases h
    | some item =>
        cases hitems : arrayOf rounds item tail with
        | error fault =>
            simp only [hitems] at h
            cases h
        | ok answer =>
            simp only [hitems] at h
            cases h
            exact Or.inr ⟨item, _, _, rfl, Or.inl ⟨_, hitems, rfl⟩⟩
  split at h
  · cases inner with
    | none => cases h
    | some item =>
        cases hpayload : objectOf rounds item tail with
        | error fault =>
            simp only [hpayload] at h
            cases h
        | ok answer =>
            simp only [hpayload] at h
            cases h
            exact Or.inr ⟨item, _, _, rfl, Or.inr ⟨_, hpayload, rfl⟩⟩
  · exact Or.inl (scalar_depth h)

/-- **A value that was read** nests no deeper than the reader may go. By induction on the brackets that
    may still be opened. -/
theorem value_depth_le {rounds depth : Nat} {s rest : Bytes} {v : Json}
    (h : value rounds depth s = .ok (v, rest)) : v.depth ≤ depth := by
  induction depth generalizing s rest v with
  | zero =>
      rcases valueWith_cases h with hscalar | ⟨item, _, _, hinner, -⟩
      · exact Nat.le_of_eq hscalar
      · cases hinner
  | succ depth ih =>
      rcases valueWith_cases h with hscalar | ⟨item, _, _, hinner, hparts⟩
      · rw [hscalar]
        exact Nat.zero_le _
      · cases hinner
        rcases hparts with ⟨items, hitems, rfl⟩ | ⟨payload, hpayload, rfl⟩
        · exact depth_array_le.mpr
            (arrayOf_forall (P := fun x : Json => x.depth ≤ depth) (fun _ _ _ => ih) hitems)
        · exact depth_object_le.mpr
            (objectOf_forall (P := fun x : Json => x.depth ≤ depth) (fun _ _ _ => ih) hpayload)

end Json.Reader

namespace Json

open Reader

/-- A payload that was read nests at most 127 levels. -/
theorem parseObject_depth_le {input : Text.Bytes} {payload : Payload}
    (h : parseObject input = .ok payload) : (object payload).depth ≤ maxDepth := by
  obtain ⟨rest, hread, -⟩ := rest_of_parseWith h
  rw [mapping] at hread
  split at hread
  · cases hread
  split at hread
  · exact depth_object_le.mpr
      (objectOf_forall (P := fun x : Json => x.depth ≤ 126) (fun _ _ _ => value_depth_le) hread)
  · cases hread

end Json

end DocStore
