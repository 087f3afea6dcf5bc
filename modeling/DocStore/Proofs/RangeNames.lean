import DocStore.Database
import DocStore.Proofs.Decimal.ReadBack
import Mathlib.Data.List.Chain

/-!
# The names of range buckets

The name of a range bucket is put together from a field and two number texts. The field may hold any
characters, colons and dashes included, and a number text may hold dashes. The parts can still be told
apart: a number text has no colon, and a dash in it stands at its start or behind the letter of an
exponent, so the last colon ends the field and the first other dash separates the numbers.

## Contents
- `append_colon_inj`: what the last colon of a text tells apart.
- `Enclosed`: texts that end where a dash follows; `Enclosed.append_dash_inj`.
- `enclosed_formatNumber`: number texts are such texts.
- `Binary64.Same`: equality of numbers, for which both zeros are one.
- `Database.rangeBucketName_inj`, `Database.rangeBucketName_congr`: what a bucket name tells.
- `Database.rangeBucketName_eq_iff`: **two queries share a bucket name only if they are the same query**.
-/

namespace DocStore

/-! ## Equal numbers -/

/-- Whether two numbers are equal; the two zeros are. -/
def Binary64.Same (x y : Binary64) : Prop :=
  x.le y = true ∧ y.le x = true

/-- What is no number equals nothing. -/
theorem Binary64.Same.isNaN {x y : Binary64} (h : x.Same y) : x.isNaN = false ∧ y.isNaN = false := by
  have hle := h.1
  unfold le at hle
  simp only [Bool.and_eq_true, Bool.not_eq_true'] at hle
  exact hle.1

theorem Binary64.same_iff {x y : Binary64} (hx : x.isNaN = false) (hy : y.isNaN = false) :
    x.Same y ↔ x.rank = y.rank := by
  unfold Same le
  simp only [hx, hy, Bool.not_false, Bool.true_and, decide_eq_true_eq]
  omega

/-! ## Texts on both sides of a character -/

/-- Two texts around a character are told apart if neither of the first texts is the other one with the
    character behind it. -/
theorem append_cons_inj {c : Char} {a a' b b' : List Char} (hleft : ∀ between, a' ≠ a ++ c :: between)
    (hright : ∀ between, a ≠ a' ++ c :: between) (h : a ++ c :: b = a' ++ c :: b') :
    a = a' ∧ b = b' := by
  rcases List.append_eq_append_iff.mp h with ⟨between, hlonger, hrest⟩ | ⟨between, hlonger, hrest⟩
  · cases between with
    | nil => exact ⟨by rw [hlonger, List.append_nil], (List.cons.inj hrest).2⟩
    | cons d between =>
        obtain ⟨rfl, -⟩ := List.cons.inj hrest
        exact absurd hlonger (hleft between)
  · cases between with
    | nil => exact ⟨by rw [hlonger, List.append_nil], (List.cons.inj hrest).2.symm⟩
    | cons d between =>
        obtain ⟨rfl, -⟩ := List.cons.inj hrest
        exact absurd hlonger (hright between)

/-- The last colon of a text tells what stands before and behind it. -/
theorem append_colon_inj {a a' b b' : List Char} (hb : ':' ∉ b) (hb' : ':' ∉ b')
    (h : a ++ ':' :: b = a' ++ ':' :: b') : a = a' ∧ b = b' := by
  have hmem : ∀ between more : List Char, ':' ∈ between ++ ':' :: more :=
    fun between more => List.mem_append_right _ List.mem_cons_self
  refine append_cons_inj ?_ ?_ h
  · rintro between rfl
    rw [List.append_assoc, List.append_right_inj, List.cons_append] at h
    exact hb ((List.cons.inj h).2 ▸ hmem between b')
  · rintro between rfl
    rw [List.append_assoc, List.append_right_inj, List.cons_append] at h
    exact hb' ((List.cons.inj h).2 ▸ hmem between b)

namespace Decimal

/-! ## Texts that end where a dash follows -/

/-- Whether a dash may stand behind a character inside a number text. The start of a text counts as the
    letter of an exponent. -/
def DashFits (before c : Char) : Prop :=
  c = '-' → before = 'e'

/-- A text in which each dash is a sign, and behind which a dash is no sign. -/
structure Enclosed (text : List Char) : Prop where
  ne_nil : text ≠ []
  last : ∀ c ∈ text.getLast?, c ≠ 'e'
  dashes : ('e' :: text).IsChain DashFits
  no_colon : ':' ∉ text

theorem isChain_dashFits {text : List Char} (h : ∀ c ∈ text, c ≠ '-') :
    ∀ before, (before :: text).IsChain DashFits := by
  induction text with
  | nil => exact fun before => List.IsChain.singleton before
  | cons c text ih =>
      intro before
      obtain ⟨hc, htext⟩ := List.forall_mem_cons.mp h
      exact List.isChain_cons_cons.mpr ⟨fun hdash => absurd hdash hc, ih htext c⟩

/-- A text without signs and exponents. -/
theorem Enclosed.of_plain {text : List Char} (hne : text ≠ [])
    (h : ∀ c ∈ text, c ≠ 'e' ∧ c ≠ '-' ∧ c ≠ ':') : Enclosed text where
  ne_nil := hne
  last := fun c hc => (h c (List.mem_of_getLast? hc)).1
  dashes := isChain_dashFits (fun c hc => (h c hc).2.1) 'e'
  no_colon := fun hmem => (h ':' hmem).2.2 rfl

/-- An exponent behind such a text. -/
theorem Enclosed.of_exponent {text : List Char}
    (h : ∀ c ∈ text, c ≠ 'e' ∧ c ≠ '-' ∧ c ≠ ':') {sign : Char} (hsign : sign ≠ ':') {ds : List Char}
    (hds : ds ≠ []) (hdigits : ∀ c ∈ ds, c ≠ 'e' ∧ c ≠ '-' ∧ c ≠ ':') :
    Enclosed (text ++ 'e' :: sign :: ds) where
  ne_nil := by simp
  last := by
    intro c hc
    rw [List.getLast?_append_of_ne_nil _ (by simp), List.getLast?_cons_cons,
      List.getLast?_cons_of_ne_nil hds] at hc
    exact (hdigits c (List.mem_of_getLast? hc)).1
  dashes := by
    have hfront := isChain_dashFits (fun c hc => (h c hc).2.1) 'e'
    have hback : ('e' :: sign :: ds).IsChain DashFits :=
      List.isChain_cons_cons.mpr ⟨fun _ => rfl, isChain_dashFits (fun c hc => (hdigits c hc).2.1) sign⟩
    rw [← List.cons_append]
    refine List.isChain_append.mpr ⟨hfront, hback, ?_⟩
    intro before _ c hc hdash
    obtain rfl := Option.some.inj hc
    cases hdash
  no_colon := by
    intro hmem
    rcases List.mem_append.mp hmem with hmem | hmem
    · exact (h ':' hmem).2.2 rfl
    · simp only [List.mem_cons] at hmem
      rcases hmem with hmem | hmem | hmem
      · cases hmem
      · exact hsign hmem.symm
      · exact (hdigits ':' hmem).2.2 rfl

/-- A sign in front of such a text. -/
theorem Enclosed.negate {text : List Char} (h : Enclosed text) (hhead : ∀ c ∈ text.head?, c ≠ '-') :
    Enclosed ('-' :: text) where
  ne_nil := List.cons_ne_nil _ _
  last := by
    rw [List.getLast?_cons_of_ne_nil h.ne_nil]
    exact h.last
  dashes := by
    refine List.isChain_cons_cons.mpr ⟨fun _ => rfl, ?_⟩
    obtain ⟨c, rest, rfl⟩ := List.exists_cons_of_ne_nil h.ne_nil
    refine List.isChain_cons_cons.mpr ⟨fun hdash => absurd hdash (hhead c rfl), ?_⟩
    exact (List.isChain_cons_cons.mp h.dashes).2
  no_colon := by
    intro hmem
    rcases List.mem_cons.mp hmem with hmem | hmem
    · cases hmem
    · exact h.no_colon hmem

/-- No such text goes on with a dash behind another one. -/
theorem Enclosed.not_append_dash {text more : List Char} (h : Enclosed text) :
    ¬ Enclosed (text ++ '-' :: more) := by
  intro hlonger
  obtain ⟨c, hc⟩ := List.getLast?_isSome.mpr h.ne_nil |> Option.isSome_iff_exists.mp
  have hdashes := hlonger.dashes
  rw [← List.cons_append] at hdashes
  -- the dash would have to stand behind the letter of an exponent
  have hfits : DashFits c '-' := by
    refine (List.isChain_append.mp hdashes).2.2 c ?_ '-' rfl
    rw [List.getLast?_cons_of_ne_nil h.ne_nil]
    exact hc
  exact h.last c hc (hfits rfl)

/-- **The first dash that is no sign** tells where such a text ends. -/
theorem Enclosed.append_dash_inj {a a' b b' : List Char} (ha : Enclosed a) (ha' : Enclosed a')
    (h : a ++ '-' :: b = a' ++ '-' :: b') : a = a' ∧ b = b' := by
  refine append_cons_inj ?_ ?_ h
  · rintro between rfl
    exact ha.not_append_dash ha'
  · rintro between rfl
    exact ha'.not_append_dash ha

/-! ## Number texts -/

theorem plain_of_digit {c : Char} (h : c.isDigit = true) : c ≠ 'e' ∧ c ≠ '-' ∧ c ≠ ':' := by
  refine ⟨?_, ?_, ?_⟩ <;> rintro rfl <;> cases h

theorem plain_of_digits {ds : List Char} (h : ∀ c ∈ ds, c.isDigit = true) :
    ∀ c ∈ ds, c ≠ 'e' ∧ c ≠ '-' ∧ c ≠ ':' :=
  fun c hc => plain_of_digit (h c hc)

theorem enclosed_scientific {ds : List Char} (hne : ds ≠ []) (hds : ∀ c ∈ ds, c.isDigit = true)
    (exponent : Int) : Enclosed (scientific ds exponent) := by
  obtain ⟨d, fraction, rfl⟩ := List.exists_cons_of_ne_nil hne
  obtain ⟨hd, hfraction⟩ := List.forall_mem_cons.mp (plain_of_digits hds)
  have hsign : (if exponent < 0 then '-' else '+') ≠ ':' := by
    split <;> decide
  have hexponent := plain_of_digits (mem_digits (n := exponent.natAbs))
  have hpoint : ∀ c ∈ d :: (if fraction.isEmpty then [] else '.' :: fraction),
      c ≠ 'e' ∧ c ≠ '-' ∧ c ≠ ':' := by
    refine List.forall_mem_cons.mpr ⟨hd, ?_⟩
    split
    · simp
    · exact List.forall_mem_cons.mpr ⟨by decide, hfraction⟩
  exact Enclosed.of_exponent hpoint hsign (digits_ne_nil _) hexponent

theorem enclosed_decimal (value : Decimal) : Enclosed (Layout.plain.decimal value) := by
  have hne := digits_ne_nil value.significand
  have hdigits := mem_digits (n := value.significand)
  unfold Layout.decimal Layout.magnitude
  dsimp only
  generalize digits value.significand = ds at hne hdigits
  have hplain := plain_of_digits hdigits
  have hzeros : ∀ n, ∀ c ∈ List.replicate n '0', c ≠ 'e' ∧ c ≠ '-' ∧ c ≠ ':' := by
    intro n c hc
    rw [List.eq_of_mem_replicate hc]
    decide
  split
  · exact enclosed_scientific hne hdigits _
  split
  · refine Enclosed.of_plain (List.cons_ne_nil _ _) ?_
    refine List.forall_mem_cons.mpr ⟨by decide, List.forall_mem_cons.mpr ⟨by decide, ?_⟩⟩
    exact List.forall_mem_append.mpr ⟨hzeros _, hplain⟩
  split
  · refine Enclosed.of_plain (by simp) (List.forall_mem_append.mpr ⟨?_, ?_⟩)
    · exact fun c hc => hplain c (List.mem_of_mem_take hc)
    · refine List.forall_mem_cons.mpr ⟨by decide, ?_⟩
      exact fun c hc => hplain c (List.mem_of_mem_drop hc)
  · refine Enclosed.of_plain (by simp [hne]) ?_
    refine List.forall_mem_append.mpr ⟨List.forall_mem_append.mpr ⟨hplain, hzeros _⟩, ?_⟩
    exact List.forall_mem_nil _

theorem enclosed_magnitudeText (code : Nat) : Enclosed (magnitudeText code) := by
  unfold magnitudeText Layout.code
  split
  · exact Enclosed.of_plain (List.cons_ne_nil _ _) (by simp)
  split
  · exact Enclosed.of_plain (List.cons_ne_nil _ _) (by simp [Layout.plain])
  · exact enclosed_decimal _

/-- A number text ends where a dash follows. -/
theorem enclosed_formatNumber {x : Binary64} (h : x.isNaN = false) : Enclosed (formatNumber x) := by
  rw [formatNumber_eq_rankText h]
  unfold rankText
  split
  · exact (enclosed_magnitudeText _).negate fun c hc => (magnitudeText_head _ c hc).1
  · exact enclosed_magnitudeText _

end Decimal

/-! ## Bucket names -/

namespace Database

open Decimal (formatNumber)

theorem rangeBucketName_toList (field : String) (low high : Binary64) :
    (rangeBucketName field low high).toList =
      rangeMark.toList ++ (field.toList ++ ':' :: (formatNumber low ++ '-' :: formatNumber high)) := by
  simp [rangeBucketName]

variable {field other : String} {low high low' high' : Binary64}

theorem no_colon_of_numbers (hlow : low.isNaN = false) (hhigh : high.isNaN = false) :
    ':' ∉ formatNumber low ++ '-' :: formatNumber high := by
  intro hmem
  rcases List.mem_append.mp hmem with hmem | hmem
  · exact (Decimal.enclosed_formatNumber hlow).no_colon hmem
  · rcases List.mem_cons.mp hmem with hmem | hmem
    · cases hmem
    · exact (Decimal.enclosed_formatNumber hhigh).no_colon hmem

/-- A bucket name tells the field and both numbers. -/
theorem rangeBucketName_inj (hlow : low.isNaN = false) (hhigh : high.isNaN = false)
    (hlow' : low'.isNaN = false) (hhigh' : high'.isNaN = false)
    (h : rangeBucketName field low high = rangeBucketName other low' high') :
    field = other ∧ low.Same low' ∧ high.Same high' := by
  rw [← String.toList_inj, rangeBucketName_toList, rangeBucketName_toList] at h
  -- the last colon ends the field, and the dash between the numbers ends the lower one
  obtain ⟨hfield, hnumbers⟩ := append_colon_inj (no_colon_of_numbers hlow hhigh)
    (no_colon_of_numbers hlow' hhigh') (List.append_cancel_left h)
  obtain ⟨hlower, hupper⟩ := (Decimal.enclosed_formatNumber hlow).append_dash_inj
    (Decimal.enclosed_formatNumber hlow') hnumbers
  rw [Binary64.same_iff hlow hlow', Binary64.same_iff hhigh hhigh']
  exact ⟨String.toList_inj.mp hfield, (Decimal.formatNumber_eq_iff hlow hlow').mp hlower,
    (Decimal.formatNumber_eq_iff hhigh hhigh').mp hupper⟩

/-- Equal numbers give the same bucket name. -/
theorem rangeBucketName_congr (hlow : low.Same low') (hhigh : high.Same high') :
    rangeBucketName field low high = rangeBucketName field low' high' := by
  obtain ⟨hnan, hnan'⟩ := hlow.isNaN
  have hlower := (Decimal.formatNumber_eq_iff hnan hnan').mpr ((Binary64.same_iff hnan hnan').mp hlow)
  obtain ⟨hnan, hnan'⟩ := hhigh.isNaN
  have hupper := (Decimal.formatNumber_eq_iff hnan hnan').mpr ((Binary64.same_iff hnan hnan').mp hhigh)
  rw [← String.toList_inj, rangeBucketName_toList, rangeBucketName_toList, hlower, hupper]

/-- **Two queries share a bucket name only if they are the same query**: on the same field, between equal
    numbers. -/
theorem rangeBucketName_eq_iff (hlow : low.isNaN = false) (hhigh : high.isNaN = false)
    (hlow' : low'.isNaN = false) (hhigh' : high'.isNaN = false) :
    rangeBucketName field low high = rangeBucketName other low' high' ↔
      field = other ∧ low.Same low' ∧ high.Same high' := by
  refine ⟨rangeBucketName_inj hlow hhigh hlow' hhigh', ?_⟩
  rintro ⟨rfl, hlower, hupper⟩
  exact rangeBucketName_congr hlower hupper

/-- A field that goes on like a name, and numbers with dashes of their own: only the sign of zero makes no
    difference. -/
theorem rangeBucketName_dashes :
    let low := Binary64.ofDecimal true 1 (-7)
    let high := Binary64.ofDecimal true 25 (-11)
    let zero := Binary64.zero
    (low.isNaN = false ∧ high.isNaN = false ∧ (zero false).isNaN = false ∧ (zero true).isNaN = false) ∧
      rangeBucketName "n:-1e-7" low high ≠ rangeBucketName "n" low high ∧
      rangeBucketName "n:-1e-7" (zero false) high = rangeBucketName "n:-1e-7" (zero true) high := by
  intro low high zero
  have hlow : low.isNaN = false := by decide +kernel
  have hhigh : high.isNaN = false := by decide +kernel
  have hplus : (zero false).isNaN = false := by decide
  have hminus : (zero true).isNaN = false := by decide
  refine ⟨⟨hlow, hhigh, hplus, hminus⟩, fun hname => ?_, ?_⟩
  · exact absurd ((rangeBucketName_eq_iff hlow hhigh hlow hhigh).mp hname).1 (by decide)
  · refine (rangeBucketName_eq_iff hplus hhigh hminus hhigh).mpr ⟨rfl, ?_, ?_⟩
    · exact ⟨by decide, by decide⟩
    · exact (Binary64.same_iff hhigh hhigh).mpr rfl

end Database

end DocStore
