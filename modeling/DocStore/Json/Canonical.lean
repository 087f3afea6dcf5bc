import DocStore.Json.Basic
import DocStore.Decimal.Layout
import DocStore.Decimal.Literal

/-!
# Comparable forms of values

Queries compare values in two ways: by a canonical text and by a number.

## Contents
- `Tree.canonical`, `Json.canonical`: the text of a value.
- `Json.numeric?`: the number of a value, if it has one.
-/

namespace DocStore

namespace Tree

mutual

/-- The text by which a value is compared: a string is itself, a number is written alike whatever its
    spelling, an array is its items between commas, and all objects are alike. -/
def canonical : Tree → List Char
  | .null => ['n', 'u', 'l', 'l']
  | .bool true => ['t', 'r', 'u', 'e']
  | .bool false => ['f', 'a', 'l', 's', 'e']
  | .number value => Decimal.formatNumber value.toBinary64
  | .string value => value.toList
  | .array items => List.intercalate [','] (canonicalItems items)
  | .object _ => "[object Object]".toList

/-- The texts of the items of an array, among which `null` is empty. -/
def canonicalItems : List Tree → List (List Char)
  | [] => []
  | .null :: rest => [] :: canonicalItems rest
  | item :: rest => item.canonical :: canonicalItems rest

end

/-- The number of a value: that of a number, or the one that a string denotes. -/
def numeric? : Tree → Option Binary64
  | .number value => some value.toBinary64
  | .string value => Decimal.parseNumber value.toList
  | _ => none

end Tree

namespace Json

/-- The text by which a value is compared. -/
def canonical (value : Json) : String :=
  String.ofList value.tree.canonical

/-- The number by which a value is compared, if it has one. -/
def numeric? (value : Json) : Option Binary64 :=
  value.tree.numeric?

end Json

end DocStore
