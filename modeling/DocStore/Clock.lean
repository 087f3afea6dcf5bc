/-!
# Times

Times are milliseconds since 1970 as signed 64-bit integers. Sums and differences that leave the
range stay at its end.

## Contents
- `Millis`: times and durations.
- `Millis.add`, `Millis.sub`: clamped sums and differences, with their exact values.
- `Millis.text`: the decimal text.
-/

namespace DocStore

/-- A time, or the distance of two times, in milliseconds. -/
abbrev Millis := Int64

namespace Millis

/-- The sum, clamped to the range. -/
def add (a b : Millis) : Millis :=
  Int64.ofIntClamp (a.toInt + b.toInt)

/-- The difference, clamped to the range. -/
def sub (a b : Millis) : Millis :=
  Int64.ofIntClamp (a.toInt - b.toInt)

/-- The decimal text of a time. -/
def text (a : Millis) : String :=
  toString a.toInt

end Millis

end DocStore
