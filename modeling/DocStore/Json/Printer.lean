import DocStore.Json.Basic
import DocStore.Decimal.Layout

/-!
# JSON texts

The two written forms of a JSON tree: compact, on one line without blanks, and pretty, one item a
line, indented by two spaces a level.

## Contents
- `escapeChar`, `quoted`: strings. Only the quote, the backslash and control characters are escaped.
- `numberText`: numbers.
- `Tree.compact`, `Tree.pretty`: the two forms; `compactItems_eq` and its companions say that a list
  is written item by item.
-/

namespace DocStore

namespace Tree

/-! ## Strings -/

/-- A hexadecimal digit, in lower case. -/
def hexDigit (n : Nat) : Char :=
  Nat.digitChar (n % 16)

/-- How a character stands inside a string. -/
def escapeChar (c : Char) : List Char :=
  if c = '"' then ['\\', '"']
  else if c = '\\' then ['\\', '\\']
  else if c = '\x08' then ['\\', 'b']
  else if c = '\t' then ['\\', 't']
  else if c = '\n' then ['\\', 'n']
  else if c = '\x0c' then ['\\', 'f']
  else if c = '\r' then ['\\', 'r']
  else if c.toNat < 0x20 then
    ['\\', 'u', '0', '0', hexDigit (c.toNat / 16), hexDigit c.toNat]
  else [c]

/-- A string between quotes. -/
def quoted (text : String) : List Char :=
  '"' :: (text.toList.flatMap escapeChar ++ ['"'])

/-! ## Numbers -/

/-- A number: an integer by its digits, any other with a fraction or an exponent. -/
def numberText : Number → List Char
  | .integer value _ _ => Decimal.intText value
  | .binary value _ => Decimal.Layout.json.finite value

/-! ## The compact form -/

/-- Texts separated by commas. -/
def commaSeparated (parts : List (List Char)) : List Char :=
  List.intercalate [','] parts

mutual

/-- A tree on one line without blanks. -/
def compact : Tree → List Char
  | .null => ['n', 'u', 'l', 'l']
  | .bool true => ['t', 'r', 'u', 'e']
  | .bool false => ['f', 'a', 'l', 's', 'e']
  | .number value => numberText value
  | .string value => quoted value
  | .array items => '[' :: (commaSeparated (compactItems items) ++ [']'])
  | .object members => '\x7b' :: (commaSeparated (compactMembers members) ++ ['\x7d'])

/-- The compact forms of items. -/
def compactItems : List Tree → List (List Char)
  | [] => []
  | item :: rest => item.compact :: compactItems rest

/-- The compact forms of members: key, colon, value. -/
def compactMembers : List (String × Tree) → List (List Char)
  | [] => []
  | (key, value) :: rest => (quoted key ++ ':' :: value.compact) :: compactMembers rest

end

theorem compactItems_eq (items : List Tree) : compactItems items = items.map compact := by
  induction items with
  | nil => rfl
  | cons item rest ih => simp [compactItems, ih]

theorem compactMembers_eq (members : List (String × Tree)) :
    compactMembers members = members.map fun member => quoted member.1 ++ ':' :: member.2.compact := by
  induction members with
  | nil => rfl
  | cons member rest ih =>
      obtain ⟨key, value⟩ := member
      simp [compactMembers, ih]

/-! ## The pretty form -/

/-- A line break and the indentation of a level. -/
def newline (level : Nat) : List Char :=
  '\n' :: List.replicate (2 * level) ' '

/-- Parts between brackets, each on a line of its own one level deeper than the brackets; without
    parts the brackets stand side by side. -/
def block (level : Nat) (opening closing : Char) (parts : List (List Char)) : List Char :=
  if parts.isEmpty then [opening, closing]
  else
    opening :: (commaSeparated (parts.map (newline (level + 1) ++ ·)) ++ newline level ++ [closing])

mutual

/-- A tree with one item a line, for a tree that starts on a line of the given level. -/
def prettyAt (level : Nat) : Tree → List Char
  | .array items => block level '[' ']' (prettyItems (level + 1) items)
  | .object members => block level '\x7b' '\x7d' (prettyMembers (level + 1) members)
  | .null => compact .null
  | .bool value => compact (.bool value)
  | .number value => compact (.number value)
  | .string value => compact (.string value)

/-- The pretty forms of items. -/
def prettyItems (level : Nat) : List Tree → List (List Char)
  | [] => []
  | item :: rest => prettyAt level item :: prettyItems level rest

/-- The pretty forms of members: key, colon, blank, value. -/
def prettyMembers (level : Nat) : List (String × Tree) → List (List Char)
  | [] => []
  | (key, value) :: rest =>
    (quoted key ++ ':' :: ' ' :: prettyAt level value) :: prettyMembers level rest

end

/-- A tree with one item a line. -/
def pretty (tree : Tree) : List Char :=
  tree.prettyAt 0

theorem prettyItems_eq (level : Nat) (items : List Tree) :
    prettyItems level items = items.map (prettyAt level) := by
  induction items with
  | nil => rfl
  | cons item rest ih => simp [prettyItems, ih]

theorem prettyMembers_eq (level : Nat) (members : List (String × Tree)) :
    prettyMembers level members =
      members.map fun member => quoted member.1 ++ ':' :: ' ' :: prettyAt level member.2 := by
  induction members with
  | nil => rfl
  | cons member rest ih =>
      obtain ⟨key, value⟩ := member
      simp [prettyMembers, ih]

end Tree

/-! ## Values -/

/-- The compact text of a value. -/
def Json.compact (value : Json) : String :=
  String.ofList value.tree.compact

/-- The pretty text of a value. -/
def Json.pretty (value : Json) : String :=
  String.ofList value.tree.pretty

end DocStore
