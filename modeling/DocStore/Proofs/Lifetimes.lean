import DocStore.Command.Line
import DocStore.Proofs.Binary64.Finite
import DocStore.Record
import Mathlib.Data.Rat.Floor

/-!
# Lifetimes in exact numbers

A lifetime is given as a binary number and kept as a 64-bit integer, and so is the time at which it
ends. Here both are put down as exact numbers: a number is cut off toward zero, and whatever leaves the
range of times stays at its end.

## Contents
- `Millis.clamp`: the range of times; `toInt_ofIntClamp`, `toInt_add`: clamped integers and sums.
- `Binary64.value`, `Binary64.lifetime`: the exact value of a number and the lifetime that it gives.
- `Binary64.toInt_truncate`: **a number as a lifetime**.
- `Record.create_isExpired_iff`: **when a record has expired**.
-/

namespace DocStore

/-! ## The range of times -/

namespace Millis

/-- An integer, or the end of the range of times beyond which it lies. -/
def clamp (n : Int) : Int :=
  max (-0x8000000000000000) (min n 0x7fffffffffffffff)

theorem toInt_ofIntClamp (n : Int) : (Int64.ofIntClamp n).toInt = clamp n := by
  have hlow : Int64.minValue.toInt = -0x8000000000000000 := rfl
  have hhigh : Int64.maxValue.toInt = 0x7fffffffffffffff := rfl
  unfold Int64.ofIntClamp clamp
  split
  · split
    · rw [Int64.toInt_ofIntLE]
      omega
    · rw [hhigh]
      omega
  · rw [hlow]
    omega

theorem toInt_add (a b : Millis) : (add a b).toInt = clamp (a.toInt + b.toInt) :=
  toInt_ofIntClamp _

theorem clamp_of_le {n : Int} (h : 0x7fffffffffffffff ≤ n) : clamp n = 0x7fffffffffffffff := by
  unfold clamp
  omega

theorem clamp_of_ge {n : Int} (h : n ≤ -0x8000000000000000) : clamp n = -0x8000000000000000 := by
  unfold clamp
  omega

end Millis

/-! ## Numbers -/

/-- The whole part of an exact number, which is cut off toward zero. -/
def wholePart (q : ℚ) : ℤ :=
  if 0 ≤ q then ⌊q⌋ else ⌈q⌉

theorem wholePart_neg (q : ℚ) (h : 0 ≤ q) : wholePart (-q) = -⌊q⌋ := by
  unfold wholePart
  split
  · rename_i hneg
    have hzero : q = 0 := le_antisymm (neg_nonneg.mp hneg) h
    rw [hzero, neg_zero, Int.floor_zero, neg_zero]
  · exact Int.ceil_neg

namespace Binary64

/-- The exact value of a finite number. -/
def value (x : Binary64) : ℚ :=
  if x.negative then -(units x.code / unitsPerOne) else units x.code / unitsPerOne

/-- The lifetime that a number gives, in milliseconds: its whole part within the range of times, and
    the ends of the range for the infinities. -/
def lifetime (x : Binary64) : ℤ :=
  if x.isInfinite then (if x.negative then -0x8000000000000000 else 0x7fffffffffffffff)
  else Millis.clamp (wholePart x.value)

theorem wholePart_value (x : Binary64) :
    wholePart x.value = if x.negative then -((units x.code : ℤ) / (unitsPerOne : ℤ))
      else (units x.code : ℤ) / (unitsPerOne : ℤ) := by
  have hpos : (0 : ℚ) ≤ units x.code / unitsPerOne :=
    div_nonneg (Nat.cast_nonneg _) (Nat.cast_nonneg _)
  have hfloor := Rat.floor_natCast_div_natCast (units x.code) unitsPerOne
  unfold value
  split
  · rw [wholePart_neg _ hpos, hfloor]
  · rw [wholePart, if_pos hpos, hfloor]

/-- Infinity is farther out than any time. -/
theorem units_infinity_ge : 0x7fffffffffffffff + 1 ≤ units infinityCode / unitsPerOne := by
  decide +kernel

/-- **A number as a lifetime.** -/
theorem toInt_truncate {x : Binary64} (h : x.isNaN = false) : x.truncate.toInt = x.lifetime := by
  rw [truncate, h, if_neg Bool.false_ne_true]
  dsimp only
  rw [Millis.toInt_ofIntClamp, ← wholePart_value, lifetime]
  split
  · rename_i hinfinite
    -- the whole part of infinity lies beyond both ends of the range
    have hcode : x.code = infinityCode := beq_iff_eq.mp hinfinite
    have hfar := Int.ofNat_le.mpr units_infinity_ge
    rw [wholePart_value, hcode]
    split
    · refine Millis.clamp_of_ge ?_
      push_cast at hfar ⊢
      omega
    · refine Millis.clamp_of_le ?_
      push_cast at hfar ⊢
      omega
  · rfl

theorem isNaN_ofRatio (negative : Bool) (num den : Nat) : (ofRatio negative num den).isNaN = false :=
  decide_eq_false (Nat.not_lt.mpr (Nat.min_le_right _ _))

theorem isNaN_ofDecimal (negative : Bool) (significand : Nat) (exponent : Int) :
    (ofDecimal negative significand exponent).isNaN = false := by
  unfold ofDecimal
  split
  · rfl
  split
  · split
    · rfl
    · exact isNaN_ofRatio _ _ _
  · split
    · rfl
    · exact isNaN_ofRatio _ _ _

end Binary64

/-- A command never gives what is no number. -/
theorem Decimal.isNaN_of_parseNumber {text : List Char} {x : Binary64}
    (h : parseNumber text = some x) : x.isNaN = false := by
  unfold parseNumber at h
  dsimp only at h
  split at h
  · obtain rfl := Option.some.inj h
    rfl
  · obtain ⟨literal, -, rfl⟩ := Option.map_eq_some_iff.mp h
    exact Binary64.isNaN_ofDecimal _ _ _

theorem PayloadSpan.isNaN_of_find? {tokens : List String} {span : PayloadSpan}
    (h : find? tokens = some span) : ∀ x ∈ span.ttl, x.isNaN = false := by
  unfold find? at h
  split at h
  · cases h
  dsimp only at h
  split at h
  · rename_i ttl httl
    obtain rfl := Option.some.inj h
    obtain ⟨last, -, hparsed⟩ := Option.bind_eq_some_iff.mp httl
    intro x hx
    obtain rfl := Option.mem_some_iff.mp hx
    exact Decimal.isNaN_of_parseNumber hparsed
  · obtain rfl := Option.some.inj h
    intro x hx
    cases hx

/-! ## Records -/

namespace Record

theorem isExpired_iff (record : Record) (now : Millis) :
    record.isExpired now = true ↔ ∃ last ∈ record.expiresAt, last < now := by
  unfold isExpired status Status.until
  cases record.expiresAt with
  | none => simp
  | some last =>
      by_cases h : last < now
      · simp [h]
      · simp [h]

/-- **When a record has expired.** A record that was made without a lifetime never does. With one, its
    last moment is the end of the lifetime, or the end of the range of times before that. -/
theorem create_isExpired_iff (payload : Payload) {ttl : Option Binary64} (stored now : Millis)
    (h : ∀ x ∈ ttl, x.isNaN = false) :
    (create payload (ttl.map Binary64.truncate) stored).isExpired now = true ↔
      ∃ x ∈ ttl, Millis.clamp (stored.toInt + x.lifetime) < now.toInt := by
  rw [isExpired_iff]
  cases ttl with
  | none => simp [create]
  | some x =>
      have hlast : (Millis.add stored x.truncate).toInt = Millis.clamp (stored.toInt + x.lifetime) := by
        rw [Millis.toInt_add, Binary64.toInt_truncate (h x rfl)]
      simp [create, Int64.lt_iff_toInt_lt, hlast]

end Record

end DocStore
