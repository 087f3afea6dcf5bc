import DocStore.Proofs.Decimal.Numerals
import DocStore.Proofs.Decimal.ShortestDigits

/-!
# Numbers are read back from their texts

The text of a number is its sign in front of the text of its magnitude. Reading takes the sign off and finds
the decimal that was written, to which the magnitude is nearest. Only the sign of a zero is lost, which
has no text.

## Contents
- `trim_formatNumber`, `splitSign_formatNumber`: what is left of a text when reading begins.
- `read_magnitudeText`: the text of a magnitude behind a sign.
- `parseNumber_of_formatNumber`: **a number is read back from its text**.
- `formatNumber_eq_iff`: the text of a number tells the number, up to the sign of zero.
- `Written`, `written_shortest`: the four forms of a text, and that it has one of them.
- `parseNumber_formatNumber`: **what the text of a number looks like, says and is read as**.
-/

namespace DocStore.Decimal

open Binary64

/-! ## Signs -/

theorem isBlank_magnitudeText (code : Nat) : ∀ c ∈ magnitudeText code, Text.isBlank c = false := by
  have hinfinity : "Infinity".toList.all (fun c => !Text.isBlank c) = true := by decide
  unfold magnitudeText
  split
  · exact fun c hc => (Bool.not_eq_true' _).mp (List.all_eq_true.mp hinfinity c hc)
  · exact fun c hc => isBlank_of_numeral (mem_code (List.forall_mem_nil _) code c hc)

/-- There are no blanks to take off the text of a number. -/
theorem trim_formatNumber {x : Binary64} (h : x.isNaN = false) :
    Text.trim (formatNumber x) = formatNumber x := by
  apply Text.trim_eq_self
  rw [formatNumber_eq_rankText h]
  unfold rankText
  split
  · exact List.forall_mem_cons.mpr ⟨by decide, isBlank_magnitudeText _⟩
  · exact isBlank_magnitudeText _

theorem splitSign_of_head {text : List Char} (h : ∀ c ∈ text.head?, c ≠ '-' ∧ c ≠ '+') :
    splitSign text = (false, text) := by
  unfold splitSign
  split
  · exact absurd rfl (h '-' rfl).1
  · exact absurd rfl (h '+' rfl).2
  · rfl

/-- The sign that is read is that of the number, unless it is zero. -/
theorem splitSign_formatNumber {x : Binary64} (h : x.isNaN = false) :
    splitSign (formatNumber x) = (x.negative && !x.isZero, magnitudeText x.code) := by
  rw [formatNumber_eq_rankText h]
  unfold rankText
  rw [natAbs_rank]
  split
  · rename_i hneg
    obtain ⟨hnegative, hzero⟩ := (rank_neg_iff x).mp hneg
    have hzero : x.isZero = false := beq_eq_false_iff_ne.mpr hzero
    rw [hnegative, hzero]
    rfl
  · rename_i hneg
    have hsign : (x.negative && !x.isZero) = false := by
      by_contra hne
      have hboth := Bool.and_eq_true_iff.mp (Bool.eq_true_of_not_eq_false hne)
      refine hneg ((rank_neg_iff x).mpr ⟨hboth.1, ?_⟩)
      exact beq_eq_false_iff_ne.mp ((Bool.not_eq_true' _).mp hboth.2)
    rw [hsign, splitSign_of_head (magnitudeText_head x.code)]

/-! ## Reading back -/

/-- A literal is read as the number with the given sign that is nearest to its value. -/
theorem Says.read {text : List Char} {value : ℚ} (h : Says text value) {x : Binary64}
    (hnearest : Nearest value x.code) :
    (readUnsigned text).map (Unsigned.value x.negative) = some x := by
  obtain ⟨literal, hread, rfl⟩ := h
  rw [hread, Option.map_some]
  exact congrArg some (ofDecimal_eq hnearest)

/-- A finite magnitude is nearest to what its text says. -/
theorem nearest_says_code {tie : Tie} {code : Nat} (hfin : code < infinityCode) :
    Nearest (if code = 0 then 0 else (shortest tie code).exact) code := by
  split
  · rename_i hzero
    rw [hzero]
    exact Nearest.zero
  · rename_i hne
    exact nearest_shortest tie (Nat.pos_of_ne_zero hne) hfin

/-- The text of a magnitude is read as the number with that magnitude and the sign that was read. -/
theorem read_magnitudeText {x : Binary64} (h : x.isNaN = false) :
    (if magnitudeText x.code = "Infinity".toList then some (infinity x.negative)
      else (readUnsigned (magnitudeText x.code)).map (Unsigned.value x.negative)) = some x := by
  by_cases hinfinite : x.code = infinityCode
  · have htext : magnitudeText x.code = "Infinity".toList := if_pos hinfinite
    rw [if_pos htext]
    exact congrArg some (ext_code rfl hinfinite.symm)
  · have htext : magnitudeText x.code = Layout.plain.code x.code := if_neg hinfinite
    have hsays := says_code x.code
    have hne : Layout.plain.code x.code ≠ "Infinity".toList := by
      intro hinfinity
      have hhead := hsays.head 'I'
      rw [hinfinity] at hhead
      exact (hhead rfl).2.2 rfl
    have hfin : x.code < infinityCode :=
      Nat.lt_of_le_of_ne (Nat.not_lt.mp (of_decide_eq_false h)) hinfinite
    rw [htext, if_neg hne]
    exact hsays.read (nearest_says_code hfin)

/-- **A number is read back from its text**; the sign of a zero is lost. -/
theorem parseNumber_of_formatNumber {x : Binary64} (h : x.isNaN = false) :
    parseNumber (formatNumber x) = some (x.withSign (x.negative && !x.isZero)) := by
  unfold parseNumber
  rw [trim_formatNumber h, splitSign_formatNumber h]
  exact read_magnitudeText (x := x.withSign (x.negative && !x.isZero)) h

theorem withSign_eq (x : Binary64) :
    x.withSign (x.negative && !x.isZero) = if x.isZero then zero false else x := by
  cases hzero : x.isZero with
  | true =>
      rw [Bool.not_true, Bool.and_false, if_pos rfl]
      exact ext_code rfl (beq_iff_eq.mp hzero)
  | false =>
      rw [Bool.not_false, Bool.and_true, if_neg Bool.false_ne_true]
      rfl

theorem rank_withSign (x : Binary64) : (x.withSign (x.negative && !x.isZero)).rank = x.rank := by
  rw [withSign_eq]
  split
  · rename_i hzero
    have hcode : x.code = 0 := beq_iff_eq.mp hzero
    simp [rank, hcode, zero]
  · rfl

/-- **The text of a number tells the number**, up to the sign of zero. -/
theorem formatNumber_eq_iff {x y : Binary64} (hx : x.isNaN = false) (hy : y.isNaN = false) :
    formatNumber x = formatNumber y ↔ x.rank = y.rank := by
  constructor
  · intro htext
    have hread := parseNumber_of_formatNumber hx
    rw [htext, parseNumber_of_formatNumber hy] at hread
    rw [← rank_withSign x, ← rank_withSign y, Option.some.inj hread]
  · intro hrank
    rw [formatNumber_eq_rankText hx, formatNumber_eq_rankText hy, hrank]

/-! ## The form of a text -/

/-- The forms of a text for digits of which the first stands for tens to the power of `exponent`: zeros
    behind the digits, a point among them, zeros in front of them, or a power of ten. -/
inductive Written (ds : List Char) (exponent : Int) : List Char → Prop
  | whole (hlow : ds.length ≤ exponent + 1) (hhigh : exponent + 1 ≤ 21) :
      Written ds exponent (ds ++ List.replicate (exponent + 1 - ds.length).toNat '0')
  | pointed (hlow : 0 < exponent + 1) (hpoint : exponent + 1 < ds.length) (hhigh : exponent + 1 ≤ 21) :
      Written ds exponent
        (ds.take (exponent + 1).toNat ++ '.' :: ds.drop (exponent + 1).toNat)
  | fraction (hlow : -6 < exponent + 1) (hhigh : exponent + 1 ≤ 0) :
      Written ds exponent ('0' :: '.' :: (List.replicate (-(exponent + 1)).toNat '0' ++ ds))
  | powered {d : Char} {rest : List Char} (hds : ds = d :: rest)
      (hout : exponent + 1 ≤ -6 ∨ 21 < exponent + 1) :
      Written ds exponent (d :: ((if rest = [] then [] else '.' :: rest) ++
        'e' :: (if exponent < 0 then '-' else '+') :: digits exponent.natAbs))

/-- The plain text of digits has one of these forms. -/
theorem written_magnitude {ds : List Char} (hne : ds ≠ []) (exponent : Int) :
    Written ds exponent (Layout.plain.magnitude ds (exponent + 1)) := by
  obtain ⟨d, rest, hds⟩ := List.exists_cons_of_ne_nil hne
  have hlength : 0 < ds.length := List.length_pos_of_ne_nil hne
  have hleast : Layout.plain.leastFixed = -6 := rfl
  have hgreatest : Layout.plain.greatestFixed = 20 := rfl
  have hmark : Layout.plain.wholeMark = [] := rfl
  unfold Layout.magnitude
  split
  · have hform : Written ds exponent _ := .powered hds (by omega)
    have hscientific : scientific ds (exponent + 1 - 1) =
        d :: ((if rest = [] then [] else '.' :: rest) ++
          'e' :: (if exponent < 0 then '-' else '+') :: digits exponent.natAbs) := by
      rw [Int.add_sub_cancel, hds]
      simp [scientific]
    rwa [hscientific]
  split
  · exact .fraction (by omega) (by omega)
  split
  · exact .pointed (by omega) (by omega) (by omega)
  · rw [hmark, List.append_nil]
    exact .whole (by omega) (by omega)

/-- The text of a positive magnitude is that of its shortest digits. -/
theorem written_shortest {code : Nat} (hpos : 0 < code) (hfin : code < infinityCode) :
    ∃ ds exponent, ShortestDigits code ds exponent ∧ Written ds exponent (magnitudeText code) ∧
      Says (magnitudeText code) (scientificValue ds exponent) := by
  have htext : magnitudeText code = Layout.plain.decimal (shortest .up code) := by
    unfold magnitudeText Layout.code
    rw [if_neg (Nat.ne_of_lt hfin), if_neg (Nat.ne_of_gt hpos)]
    rfl
  refine ⟨_, _, shortestDigits_shortest .up hpos hfin, ?_, ?_⟩
  · have hform := written_magnitude (digits_ne_nil (shortest .up code).significand)
      ((shortest .up code).exponent + (digits (shortest .up code).significand).length - 1)
    rw [Int.sub_add_cancel] at hform
    rw [htext]
    exact hform
  · rw [htext, scientificValue_digits]
    exact says_decimal _

/-- **Texts of numbers.** Every number is read back from its text, where both zeros are read as the
    positive one. The text of a finite number that is not zero is its sign and its shortest digits in one of
    four forms, and it says the value of those digits and no other. -/
theorem parseNumber_formatNumber {x : Binary64} (h : x.isNaN = false) :
    parseNumber (formatNumber x) = some (if x.isZero then zero false else x) ∧
      (x.isFinite = true → x.isZero = false → ∃ ds exponent body,
        ShortestDigits x.code ds exponent ∧ Written ds exponent body ∧
        formatNumber x = (if x.negative then ['-'] else []) ++ body ∧
        ∀ value, Says body value ↔ value = scientificValue ds exponent) := by
  refine ⟨?_, fun hfinite hzero => ?_⟩
  · rw [parseNumber_of_formatNumber h, withSign_eq]
  have hne : x.code ≠ 0 := beq_eq_false_iff_ne.mp hzero
  obtain ⟨ds, exponent, hshortest, hwritten, hsays⟩ :=
    written_shortest (Nat.pos_of_ne_zero hne) (of_decide_eq_true hfinite)
  refine ⟨ds, exponent, magnitudeText x.code, hshortest, hwritten, ?_, fun value => ?_⟩
  · rw [formatNumber_eq_rankText h]
    unfold rankText
    rw [natAbs_rank]
    simp only [rank_neg_iff, hne, ne_eq, not_false_eq_true, and_true]
    cases x.negative
    · rfl
    · rfl
  · exact ⟨fun hother => hother.unique hsays, fun heq => heq ▸ hsays⟩

/-- The number of the text `-2.5e-10`. -/
theorem parseNumber_formatNumber_small :
    let x := ofDecimal true 25 (-11)
    x.isNaN = false ∧ formatNumber x = "-2.5e-10".toList ∧ parseNumber (formatNumber x) = some x ∧
      ∃ ds exponent body, ShortestDigits x.code ds exponent ∧ Written ds exponent body ∧
        formatNumber x = '-' :: body ∧ ∀ value, Says body value ↔ value = scientificValue ds exponent := by
  intro x
  have hnan : x.isNaN = false := by decide +kernel
  have hzero : x.isZero = false := by decide +kernel
  have hfinite : x.isFinite = true := by decide +kernel
  have htext : formatNumber x = "-2.5e-10".toList := by decide +kernel
  have hnegative : x.negative = true := negative_ofDecimal _ _ _
  obtain ⟨hread, hforms⟩ := parseNumber_formatNumber hnan
  rw [hzero, if_neg Bool.false_ne_true] at hread
  obtain ⟨ds, exponent, body, hshortest, hwritten, hbody, hsays⟩ := hforms hfinite hzero
  rw [hnegative, if_pos rfl] at hbody
  exact ⟨hnan, htext, hread, ds, exponent, body, hshortest, hwritten, hbody, hsays⟩

end DocStore.Decimal
