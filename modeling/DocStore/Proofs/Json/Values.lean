import DocStore.Json.Basic
import Mathlib.Data.List.Basic

/-!
# Values as trees

The depth of a value, the numbers in it, and the value with all its numbers replaced. A value is built
from scalars by `Json.array` and `Json.object`, and proofs about values follow that construction.

## Contents
- `Tree.depth`, `Tree.numbers`, `Tree.mapNumbers`: the definitions; `Tree.induction` goes along them.
- `Tree.mapNumbers_eq_self_iff`: when replacing the numbers changes nothing.
- `Json.induction`: **induction on values**.
- `Json.mapNumbers_array`, `Json.mapNumbers_object`: replacing the numbers part by part.
-/

namespace DocStore

namespace Tree

/-! ## Definitions -/

mutual

/-- How many brackets are open at once: none in a scalar, and one more than inside in an array or an
    object. -/
def depth : Tree → Nat
  | .array items => itemsDepth items + 1
  | .object members => membersDepth members + 1
  | _ => 0

/-- The greatest depth of some items. -/
def itemsDepth : List Tree → Nat
  | [] => 0
  | item :: rest => max item.depth (itemsDepth rest)

/-- The greatest depth of some members. -/
def membersDepth : List (String × Tree) → Nat
  | [] => 0
  | (_, value) :: rest => max value.depth (membersDepth rest)

end

mutual

/-- The numbers in a tree. -/
def numbers : Tree → List Number
  | .number value => [value]
  | .array items => itemsNumbers items
  | .object members => membersNumbers members
  | _ => []

/-- The numbers in some items. -/
def itemsNumbers : List Tree → List Number
  | [] => []
  | item :: rest => item.numbers ++ itemsNumbers rest

/-- The numbers in some members. -/
def membersNumbers : List (String × Tree) → List Number
  | [] => []
  | (_, value) :: rest => value.numbers ++ membersNumbers rest

end

mutual

/-- The tree with every number replaced by its image. -/
def mapNumbers (f : Number → Number) : Tree → Tree
  | .number value => .number (f value)
  | .array items => .array (mapItemsNumbers f items)
  | .object members => .object (mapMembersNumbers f members)
  | .null => .null
  | .bool value => .bool value
  | .string value => .string value

/-- The items with every number replaced. -/
def mapItemsNumbers (f : Number → Number) : List Tree → List Tree
  | [] => []
  | item :: rest => item.mapNumbers f :: mapItemsNumbers f rest

/-- The members with every number replaced. -/
def mapMembersNumbers (f : Number → Number) : List (String × Tree) → List (String × Tree)
  | [] => []
  | (key, value) :: rest => (key, value.mapNumbers f) :: mapMembersNumbers f rest

end

/-! ## Parts -/

theorem depth_array_le {items : List Tree} {d : Nat} :
    (array items).depth ≤ d + 1 ↔ ∀ item ∈ items, item.depth ≤ d := by
  rw [depth, Nat.add_le_add_iff_right]
  induction items with
  | nil => simp [itemsDepth]
  | cons item rest ih => rw [itemsDepth, Nat.max_le, ih, List.forall_mem_cons]

theorem depth_object_le {members : List (String × Tree)} {d : Nat} :
    (object members).depth ≤ d + 1 ↔ ∀ member ∈ members, member.2.depth ≤ d := by
  rw [depth, Nat.add_le_add_iff_right]
  induction members with
  | nil => simp [membersDepth]
  | cons member rest ih =>
      obtain ⟨key, value⟩ := member
      rw [membersDepth, Nat.max_le, ih, List.forall_mem_cons]

theorem mem_numbers_array {items : List Tree} {n : Number} :
    n ∈ (array items).numbers ↔ ∃ item ∈ items, n ∈ item.numbers := by
  rw [numbers]
  induction items with
  | nil => simp [itemsNumbers]
  | cons item rest ih => simp [itemsNumbers, ih]

theorem mem_numbers_object {members : List (String × Tree)} {n : Number} :
    n ∈ (object members).numbers ↔ ∃ member ∈ members, n ∈ member.2.numbers := by
  rw [numbers]
  induction members with
  | nil => simp [membersNumbers]
  | cons member rest ih =>
      obtain ⟨key, value⟩ := member
      simp [membersNumbers, ih]

theorem mapNumbers_array (f : Number → Number) (items : List Tree) :
    (array items).mapNumbers f = array (items.map (mapNumbers f)) := by
  rw [mapNumbers]
  congr 1
  induction items with
  | nil => rfl
  | cons item rest ih => rw [mapItemsNumbers, ih, List.map_cons]

theorem mapNumbers_object (f : Number → Number) (members : List (String × Tree)) :
    (object members).mapNumbers f =
      object (members.map fun member => (member.1, member.2.mapNumbers f)) := by
  rw [mapNumbers]
  congr 1
  induction members with
  | nil => rfl
  | cons member rest ih =>
      obtain ⟨key, value⟩ := member
      rw [mapMembersNumbers, ih, List.map_cons]

/-! ## Induction -/

/-- Induction on trees, with the hypothesis for every item and every member. -/
@[elab_as_elim]
theorem induction {motive : Tree → Prop} (null : motive .null) (bool : ∀ b, motive (.bool b))
    (number : ∀ n, motive (.number n)) (string : ∀ s, motive (.string s))
    (array : ∀ items, (∀ item ∈ items, motive item) → motive (.array items))
    (object : ∀ members, (∀ member ∈ members, motive member.2) → motive (.object members)) :
    ∀ tree, motive tree
  | .null => null
  | .bool b => bool b
  | .number n => number n
  | .string s => string s
  | .array items =>
    array items fun item _ => induction null bool number string array object item
  | .object members =>
    object members fun member _ => induction null bool number string array object member.2
termination_by tree => sizeOf tree
decreasing_by
  · have := List.sizeOf_lt_of_mem ‹item ∈ items›
    simp only [Tree.array.sizeOf_spec]
    omega
  · have := List.sizeOf_lt_of_mem ‹member ∈ members›
    obtain ⟨key, value⟩ := member
    simp only [Tree.object.sizeOf_spec, Prod.mk.sizeOf_spec] at *
    omega

theorem mapNumbers_ordered (f : Number → Number) (tree : Tree) :
    tree.Ordered → (tree.mapNumbers f).Ordered := by
  induction tree using induction with
  | null => exact fun h => h
  | bool b => exact fun h => h
  | number n => exact fun h => h
  | string s => exact fun h => h
  | array items ih =>
      intro h
      rw [mapNumbers_array]
      refine (itemsOrdered_iff _).mpr fun item hitem => ?_
      obtain ⟨source, hsource, rfl⟩ := List.mem_map.mp hitem
      exact ih source hsource ((itemsOrdered_iff _).mp h source hsource)
  | object members ih =>
      intro h
      obtain ⟨hkeys, hvalues⟩ := (membersOrdered_iff _).mp h
      rw [mapNumbers_object]
      refine (membersOrdered_iff _).mpr ⟨List.pairwise_map.mpr hkeys, fun member hmember => ?_⟩
      obtain ⟨source, hsource, rfl⟩ := List.mem_map.mp hmember
      exact ih source hsource (hvalues source hsource)

/-- **Replacing changes nothing** exactly when it changes no number of the tree. -/
theorem mapNumbers_eq_self_iff (f : Number → Number) (tree : Tree) :
    tree.mapNumbers f = tree ↔ ∀ n ∈ tree.numbers, f n = n := by
  induction tree using induction with
  | null => simp [mapNumbers, numbers]
  | bool b => simp [mapNumbers, numbers]
  | number n => simp [mapNumbers, numbers]
  | string s => simp [mapNumbers, numbers]
  | array items ih =>
      rw [mapNumbers_array, array.injEq]
      constructor
      · intro h n hn
        obtain ⟨item, hitem, hn⟩ := mem_numbers_array.mp hn
        have hself : ∀ item ∈ items, item.mapNumbers f = id item :=
          List.map_inj_left.mp (h.trans (List.map_id _).symm)
        exact (ih item hitem).mp (hself item hitem) n hn
      · intro h
        refine (List.map_congr_left fun item hitem => ?_).trans (List.map_id items)
        exact (ih item hitem).mpr fun n hn => h n (mem_numbers_array.mpr ⟨item, hitem, hn⟩)
  | object members ih =>
      rw [mapNumbers_object, object.injEq]
      constructor
      · intro h n hn
        obtain ⟨member, hmember, hn⟩ := mem_numbers_object.mp hn
        have hself : ∀ member ∈ members, (member.1, member.2.mapNumbers f) = id member :=
          List.map_inj_left.mp (h.trans (List.map_id _).symm)
        exact (ih member hmember).mp (congrArg Prod.snd (hself member hmember)) n hn
      · intro h
        refine (List.map_congr_left fun member hmember => ?_).trans (List.map_id members)
        refine Prod.ext rfl ((ih member hmember).mpr fun n hn => ?_)
        exact h n (mem_numbers_object.mpr ⟨member, hmember, hn⟩)

end Tree

namespace Json

/-! ## Values -/

/-- How many brackets of a value are open at once. -/
def depth (value : Json) : Nat :=
  value.tree.depth

/-- The value with every number replaced by its image. -/
def mapNumbers (f : Number → Number) (value : Json) : Json :=
  ⟨value.tree.mapNumbers f, Tree.mapNumbers_ordered f _ value.ordered⟩

/-- **Induction on values.** -/
@[elab_as_elim]
theorem induction {motive : Json → Prop} (null : motive null) (bool : ∀ b, motive (bool b))
    (number : ∀ n, motive (number n)) (string : ∀ s, motive (string s))
    (array : ∀ items, (∀ item ∈ items, motive item) → motive (array items))
    (object : ∀ payload : Payload, (∀ entry ∈ payload.entries, motive entry.2) →
      motive (object payload)) (value : Json) : motive value := by
  obtain ⟨tree, ordered⟩ := value
  induction tree using Tree.induction with
  | null => exact null
  | bool b => exact bool b
  | number n => exact number n
  | string s => exact string s
  | array items ih =>
      -- the items of an ordered tree are ordered, so the array is one of values
      have hitems := (Tree.itemsOrdered_iff items).mp ordered
      have hsame : Json.array (items.pmap Json.mk hitems) = ⟨.array items, ordered⟩ := by
        refine ext_tree (congrArg Tree.array ?_)
        rw [List.map_pmap, List.pmap_eq_map, List.map_id']
      rw [← hsame]
      refine array _ ?_
      intro item hitem
      obtain ⟨source, hsource, rfl⟩ := List.mem_pmap.mp hitem
      exact ih source hsource _
  | object members ih =>
      obtain ⟨hkeys, hvalues⟩ := (Tree.membersOrdered_iff members).mp ordered
      let entries : List (String × Json) :=
        members.pmap (fun member h => (member.1, Json.mk member.2 h)) hvalues
      have hascending : entries.Pairwise fun a b => a.1 < b.1 :=
        List.Pairwise.pmap hkeys hvalues fun _ _ _ _ h => h
      have hsame : Json.object ⟨entries, hascending⟩ = ⟨.object members, ordered⟩ := by
        refine ext_tree (congrArg Tree.object ?_)
        show entries.map _ = members
        rw [List.map_pmap]
        exact (List.pmap_eq_map (f := id) hvalues).trans (List.map_id members)
      rw [← hsame]
      refine object _ ?_
      intro entry hentry
      obtain ⟨source, hsource, rfl⟩ := List.mem_pmap.mp hentry
      exact ih source hsource _

theorem depth_array_le {items : List Json} {d : Nat} :
    (array items).depth ≤ d + 1 ↔ ∀ item ∈ items, item.depth ≤ d :=
  Tree.depth_array_le.trans List.forall_mem_map

theorem depth_object_le {payload : Payload} {d : Nat} :
    (object payload).depth ≤ d + 1 ↔ ∀ entry ∈ payload.entries, entry.2.depth ≤ d :=
  Tree.depth_object_le.trans List.forall_mem_map

theorem mapNumbers_array (f : Number → Number) (items : List Json) :
    (array items).mapNumbers f = array (items.map (mapNumbers f)) := by
  refine ext_tree ((Tree.mapNumbers_array f _).trans (congrArg Tree.array ?_))
  rw [List.map_map, List.map_map]
  rfl

theorem mapNumbers_object (f : Number → Number) (payload : Payload) :
    (object payload).mapNumbers f = object (payload.map (mapNumbers f)) := by
  refine ext_tree ((Tree.mapNumbers_object f _).trans (congrArg Tree.object ?_))
  rw [members, members, KeyMap.map, List.map_map, List.map_map]
  rfl

/-- Objects with the same tree have the same members. -/
theorem object_inj {a b : Payload} : object a = object b ↔ a = b := by
  constructor
  · intro h
    have htree : members a = members b := Tree.object.inj (congrArg Json.tree h)
    refine KeyMap.ext_entries (List.map_injective_iff.mpr (fun x y hxy => ?_) htree)
    obtain ⟨hkey, hvalue⟩ := Prod.mk.inj hxy
    exact Prod.ext hkey (ext_tree hvalue)
  · intro h
    rw [h]

theorem mapNumbers_eq_self_iff (f : Number → Number) (value : Json) :
    value.mapNumbers f = value ↔ ∀ n ∈ value.tree.numbers, f n = n := by
  rw [← Tree.mapNumbers_eq_self_iff]
  exact ⟨fun h => congrArg Json.tree h, fun h => ext_tree h⟩

end Json

end DocStore
