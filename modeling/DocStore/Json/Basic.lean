import DocStore.Binary64.Rounding
import DocStore.KeyMap

/-!
# JSON values

A JSON value is a tree whose objects list their members in strictly ascending order of the keys, so
two values are equal exactly when they have the same members everywhere.

## Contents
- `Number`: an integer of at most 64 bits, with or without sign, or a finite binary64 number.
- `Tree`: the trees, members in any order; `Tree.Ordered` is the invariant.
- `Json`: an ordered tree. `Json.array` and `Json.object` build one from values.
- `Payload`: the members of an object.
-/

namespace DocStore

/-! ## Numbers -/

/-- A number of a document. A number written without fraction and exponent stays an integer as long
    as it fits into 64 bits, signed or unsigned. -/
inductive Number
  | integer (value : Int) (lower : -0x8000000000000000 ≤ value)
      (upper : value < 0x10000000000000000)
  | binary (value : Binary64) (finite : value.isFinite = true)
  deriving DecidableEq

/-- The binary64 number nearest to a number. -/
def Number.toBinary64 : Number → Binary64
  | .integer value _ _ => Binary64.ofInt value
  | .binary value _ => value

/-- The number of a signed 64-bit integer. -/
def Number.ofInt64 (value : Int64) : Number :=
  .integer value.toInt
    (by have := value.le_toInt; omega)
    (by have := value.toInt_lt; omega)

/-! ## Trees -/

/-- A JSON tree, its members in the order in which they are written. -/
inductive Tree
  | null
  | bool (value : Bool)
  | number (value : Number)
  | string (value : String)
  | array (items : List Tree)
  | object (members : List (String × Tree))

namespace Tree

mutual

/-- Whether every object lists its members in strictly ascending order of the keys. -/
def Ordered : Tree → Prop
  | .array items => ItemsOrdered items
  | .object members => MembersOrdered members
  | _ => True

/-- The invariant of the items of an array. -/
def ItemsOrdered : List Tree → Prop
  | [] => True
  | item :: rest => item.Ordered ∧ ItemsOrdered rest

/-- The invariant of the members of an object. -/
def MembersOrdered : List (String × Tree) → Prop
  | [] => True
  | (key, value) :: rest =>
    (∀ member ∈ rest, key < member.1) ∧ value.Ordered ∧ MembersOrdered rest

end

theorem itemsOrdered_iff (items : List Tree) :
    ItemsOrdered items ↔ ∀ item ∈ items, item.Ordered := by
  induction items with
  | nil => simp [ItemsOrdered]
  | cons item rest ih => simp [ItemsOrdered, ih]

theorem membersOrdered_iff (members : List (String × Tree)) :
    MembersOrdered members ↔
      members.Pairwise (fun a b => a.1 < b.1) ∧ ∀ member ∈ members, member.2.Ordered := by
  induction members with
  | nil => simp [MembersOrdered]
  | cons member rest ih =>
      obtain ⟨key, value⟩ := member
      simp only [MembersOrdered, ih, List.pairwise_cons, List.forall_mem_cons]
      constructor
      · rintro ⟨h₁, h₂, h₃, h₄⟩
        exact ⟨⟨h₁, h₃⟩, h₂, h₄⟩
      · rintro ⟨⟨h₁, h₃⟩, h₂, h₄⟩
        exact ⟨h₁, h₂, h₃, h₄⟩

/-! ### Equality of trees -/

mutual

/-- Decides whether two trees are equal. -/
def decEq : (a b : Tree) → Decidable (a = b)
  | .null, .null => .isTrue rfl
  | .bool a, .bool b => if h : a = b then .isTrue (h ▸ rfl) else .isFalse fun e => h (by cases e; rfl)
  | .number a, .number b =>
    if h : a = b then .isTrue (h ▸ rfl) else .isFalse fun e => h (by cases e; rfl)
  | .string a, .string b =>
    if h : a = b then .isTrue (h ▸ rfl) else .isFalse fun e => h (by cases e; rfl)
  | .array a, .array b =>
    match decEqItems a b with
    | .isTrue h => .isTrue (h ▸ rfl)
    | .isFalse h => .isFalse fun e => h (by cases e; rfl)
  | .object a, .object b =>
    match decEqMembers a b with
    | .isTrue h => .isTrue (h ▸ rfl)
    | .isFalse h => .isFalse fun e => h (by cases e; rfl)
  | .null, .bool _ | .null, .number _ | .null, .string _ | .null, .array _ | .null, .object _
  | .bool _, .null | .bool _, .number _ | .bool _, .string _ | .bool _, .array _
  | .bool _, .object _ | .number _, .null | .number _, .bool _ | .number _, .string _
  | .number _, .array _ | .number _, .object _ | .string _, .null | .string _, .bool _
  | .string _, .number _ | .string _, .array _ | .string _, .object _ | .array _, .null
  | .array _, .bool _ | .array _, .number _ | .array _, .string _ | .array _, .object _
  | .object _, .null | .object _, .bool _ | .object _, .number _ | .object _, .string _
  | .object _, .array _ => .isFalse nofun

/-- Decides whether two lists of trees are equal. -/
def decEqItems : (a b : List Tree) → Decidable (a = b)
  | [], [] => .isTrue rfl
  | [], _ :: _ => .isFalse nofun
  | _ :: _, [] => .isFalse nofun
  | x :: xs, y :: ys =>
    match decEq x y, decEqItems xs ys with
    | .isTrue h₁, .isTrue h₂ => .isTrue (h₁ ▸ h₂ ▸ rfl)
    | .isFalse h, _ => .isFalse fun e => h (by cases e; rfl)
    | _, .isFalse h => .isFalse fun e => h (by cases e; rfl)

/-- Decides whether two lists of members are equal. -/
def decEqMembers : (a b : List (String × Tree)) → Decidable (a = b)
  | [], [] => .isTrue rfl
  | [], _ :: _ => .isFalse nofun
  | _ :: _, [] => .isFalse nofun
  | (k, x) :: xs, (l, y) :: ys =>
    if hk : k = l then
      match decEq x y, decEqMembers xs ys with
      | .isTrue h₁, .isTrue h₂ => .isTrue (hk ▸ h₁ ▸ h₂ ▸ rfl)
      | .isFalse h, _ => .isFalse fun e => h (by cases e; rfl)
      | _, .isFalse h => .isFalse fun e => h (by cases e; rfl)
    else .isFalse fun e => hk (by cases e; rfl)

end

instance : DecidableEq Tree := decEq

end Tree

/-! ## Values -/

/-- A JSON value: a tree in which every object is in ascending order of its keys. -/
structure Json where
  tree : Tree
  ordered : tree.Ordered

/-- The members of a JSON object. -/
abbrev Payload := KeyMap Json

namespace Json

instance : DecidableEq Json := fun a b =>
  if h : a.tree = b.tree then
    .isTrue (by cases a; cases b; simp_all)
  else
    .isFalse fun e => h (e ▸ rfl)

/-- Values with the same tree are equal. -/
theorem ext_tree {a b : Json} (h : a.tree = b.tree) : a = b := by
  cases a
  cases b
  simp_all

/-- The value `null`. -/
def null : Json :=
  ⟨.null, trivial⟩

/-- A truth value. -/
def bool (value : Bool) : Json :=
  ⟨.bool value, trivial⟩

/-- A number. -/
def number (value : Number) : Json :=
  ⟨.number value, trivial⟩

/-- A string. -/
def string (value : String) : Json :=
  ⟨.string value, trivial⟩

/-- An array. -/
def array (items : List Json) : Json :=
  ⟨.array (items.map (·.tree)), (Tree.itemsOrdered_iff _).mpr (by
    intro item hitem
    obtain ⟨value, _, rfl⟩ := List.mem_map.mp hitem
    exact value.ordered)⟩

/-- The members of an object as they are listed in its tree. -/
def members (payload : Payload) : List (String × Tree) :=
  payload.entries.map fun entry => (entry.1, entry.2.tree)

/-- An object. -/
def object (payload : Payload) : Json :=
  ⟨.object (members payload), (Tree.membersOrdered_iff _).mpr
    ⟨List.pairwise_map.mpr payload.ascending, by
      intro member hmember
      obtain ⟨entry, _, rfl⟩ := List.mem_map.mp hmember
      exact entry.2.ordered⟩⟩

end Json

end DocStore
