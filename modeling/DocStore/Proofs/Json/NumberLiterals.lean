import DocStore.Json.Decoder
import DocStore.Proofs.Decimal.Grammar
import DocStore.Proofs.Json.ReadBack

/-!
# Number literals in documents

The numbers that can be written in a document are literals of the commands too, and have an exact value
there. In a document another reader takes them. What it makes of a literal, if it does not refuse it, depends
on the literal alone and not on what the document has behind it, also where the literal has more digits than
are kept.

## Contents
- `NumberLiteral`: the literals with their parts; `NumberLiteral.denotes`: **their exact values in a
  command**.
- `skipDigits_run`, `gatherWhole_run`, `gatherFraction_run`, `gatherExponent_run`: runs of any length.
- `Settled`: readers whose answer does not depend on what follows a value; `settled_number`.
- `NumberLiteral.read`, `NumberLiteral.reads`: **what is read from a literal in a document**.
- `parseObject_member`: documents with one member.
-/

namespace DocStore

open Text (Bytes)
open Text.Utf8 (encode encodeChar)
open Decimal (digitsValue)

/-! ## Literals -/

/-- The literals of numbers in documents: a sign, digits of which only a lone one may be zero in front,
    digits behind a point if there is one, and an exponent if there is one. -/
structure NumberLiteral where
  negative : Bool
  whole : List Char
  fraction : List Char
  tail : List Char
  exponent : Int
  whole_ne : whole ≠ []
  whole_digits : ∀ c ∈ whole, Decimal.isDigit c = true
  lead : whole.head? = some '0' → whole = ['0']
  fraction_digits : ∀ c ∈ fraction, Decimal.isDigit c = true
  exponent_text : Decimal.ExponentText tail exponent

namespace NumberLiteral

variable (t : NumberLiteral)

/-- The point with its digits, if there are any. -/
def point : List Char :=
  if t.fraction.isEmpty then [] else '.' :: t.fraction

/-- The text of a literal without its sign. -/
def unsigned : List Char :=
  t.whole ++ (t.point ++ t.tail)

/-- The text of a literal. -/
def text : List Char :=
  if t.negative then '-' :: t.unsigned else t.unsigned

/-- The number written by all digits of a literal. -/
def significand : Nat :=
  digitsValue (t.whole ++ t.fraction)

/-- The power of ten by which the digits of a literal count. -/
def power : Int :=
  t.exponent - t.fraction.length

/-- The exact value of a literal. -/
def exact : Extended :=
  Extended.signed t.negative (t.significand * 10 ^ t.power)

theorem decimalText : Decimal.DecimalText t.unsigned (t.significand * 10 ^ t.power) := by
  unfold unsigned point significand power
  split
  · rename_i hempty
    rw [List.isEmpty_iff.mp hempty, List.append_nil, List.nil_append, List.length_nil, Nat.cast_zero,
      sub_zero]
    exact .whole t.whole_ne t.whole_digits t.exponent_text
  · exact .pointed (Or.inl t.whole_ne) t.whole_digits t.fraction_digits t.exponent_text

/-- **A literal is a literal of the commands**, with its exact value. -/
theorem denotes : Decimal.Denotes t.text t.exact := by
  have hblank : Decimal.AllBlank [] := List.forall_mem_nil _
  unfold text exact
  cases t.negative with
  | true => simpa using Decimal.Denotes.decimal hblank .minus t.decimalText hblank
  | false => simpa using Decimal.Denotes.decimal hblank .absent t.decimalText hblank

end NumberLiteral

namespace Json.Reader

variable {α : Type} {ds : List Char} {rest : Bytes}

/-! ## Runs of digits

What is gathered from a run does not depend on what follows it, also where the digits do not fit. -/

theorem skipDigits_run (hds : ∀ c ∈ ds, c.isDigit = true) (hrest : startsWithDigit rest = false) :
    skipDigits (encode ds ++ rest) = rest := by
  induction ds with
  | nil =>
      rw [Text.Utf8.encode_nil, List.nil_append]
      cases rest with
      | nil => rfl
      | cons b rest =>
          have hb : Byte.isDigit b = false := hrest
          rw [skipDigits, hb]
          rfl
  | cons c ds ih =>
      obtain ⟨hc, hds⟩ := List.forall_mem_cons.mp hds
      obtain ⟨b, henc, hb, -⟩ := encodeChar_digit hc
      rw [Text.Utf8.encode_cons, henc, List.append_assoc, List.singleton_append, skipDigits, if_pos hb,
        ih hds]

theorem gatherWhole_run (hds : ∀ c ∈ ds, c.isDigit = true) (significand dropped : Nat) :
    ∃ gathered surplus, ∀ rest, startsWithDigit rest = false →
      gatherWhole significand dropped (encode ds ++ rest) = (gathered, surplus, rest) := by
  induction ds generalizing significand dropped with
  | nil => exact ⟨significand, dropped, fun rest hrest => gatherWhole_end hrest _ _⟩
  | cons c ds ih =>
      obtain ⟨hc, hds⟩ := List.forall_mem_cons.mp hds
      obtain ⟨b, henc, hb, -⟩ := encodeChar_digit hc
      simp only [Text.Utf8.encode_cons, henc, List.cons_append, List.nil_append, gatherWhole, hb, if_true]
      split
      · exact ih hds _ _
      · exact ih hds _ _

theorem gatherFraction_run (hds : ∀ c ∈ ds, c.isDigit = true) (significand taken : Nat) :
    ∃ gathered count, ∀ rest, startsWithDigit rest = false →
      gatherFraction significand taken (encode ds ++ rest) = (gathered, count, rest) := by
  induction ds generalizing significand taken with
  | nil => exact ⟨significand, taken, fun rest hrest => gatherFraction_end hrest _ _⟩
  | cons c ds ih =>
      obtain ⟨hc, hds⟩ := List.forall_mem_cons.mp hds
      obtain ⟨b, henc, hb, -⟩ := encodeChar_digit hc
      simp only [Text.Utf8.encode_cons, henc, List.cons_append, List.nil_append, gatherFraction, hb, if_true]
      split
      · exact ih hds _ _
      · exact ⟨significand, taken, fun rest hrest => by rw [skipDigits_run hds hrest]⟩

theorem gatherExponent_run (hds : ∀ c ∈ ds, c.isDigit = true) (start : Nat) :
    (∃ exponent, ∀ rest, startsWithDigit rest = false →
      gatherExponent start (encode ds ++ rest) = .ok (exponent, rest)) ∨
    ∀ rest, startsWithDigit rest = false →
      ∃ after, gatherExponent start (encode ds ++ rest) = .error after ∧ skipDigits after = rest := by
  induction ds generalizing start with
  | nil => exact Or.inl ⟨start, fun rest hrest => gatherExponent_end hrest _⟩
  | cons c ds ih =>
      obtain ⟨hc, hds⟩ := List.forall_mem_cons.mp hds
      obtain ⟨b, henc, hb, -⟩ := encodeChar_digit hc
      simp only [Text.Utf8.encode_cons, henc, List.cons_append, List.nil_append, gatherExponent, hb, if_true]
      split
      · exact ih hds _
      · exact Or.inr fun rest hrest => ⟨_, rfl, skipDigits_run hds hrest⟩

/-! ## Readers that settle -/

/-- Whether an answer does not depend on which of the texts follows that may follow a value. -/
def Settled (reader : Bytes → Result α) : Prop :=
  ∃ read : Option α, ∀ rest, Delimited rest → (reader rest).toOption = read.map (·, rest)

theorem Settled.congr {reader other : Bytes → Result α} (h : Settled reader)
    (hsame : ∀ rest, Delimited rest → other rest = reader rest) : Settled other := by
  obtain ⟨read, hread⟩ := h
  exact ⟨read, fun rest hrest => (congrArg _ (hsame rest hrest)).trans (hread rest hrest)⟩

theorem settled_error {reader : Bytes → Result α}
    (h : ∀ rest, Delimited rest → ∃ fault, reader rest = .error fault) : Settled reader := by
  refine ⟨none, fun rest hrest => ?_⟩
  obtain ⟨fault, herror⟩ := h rest hrest
  rw [herror]
  rfl

variable (negative : Bool)

theorem settled_finishNumber (significand : Nat) (exponent : Int) :
    Settled (finishNumber negative significand exponent) := by
  cases hscaled : scaled significand exponent with
  | none =>
      refine settled_error fun rest _ => ⟨.here .numberOutOfRange rest, ?_⟩
      rw [finishNumber, hscaled]
  | some x =>
      by_cases hfin : (x.withSign negative).isFinite = true
      · refine ⟨some (.binary (x.withSign negative) hfin), fun rest _ => ?_⟩
        rw [finishNumber_of_scaled hscaled negative hfin]
        rfl
      · refine settled_error fun rest _ => ⟨.here .numberOutOfRange rest, ?_⟩
        rw [finishNumber, hscaled]
        exact dif_neg hfin

theorem settled_wholeNumber (significand : Nat) : Settled (wholeNumber negative significand) := by
  cases negative with
  | true =>
      by_cases h : 0 < significand ∧ significand ≤ 0x8000000000000000
      · refine ⟨some (.integer (-(significand : Int)) (by omega) (by omega)), fun rest _ => ?_⟩
        rw [wholeNumber, if_pos rfl, dif_pos h]
        rfl
      · refine (settled_finishNumber true significand 0).congr fun rest _ => ?_
        rw [wholeNumber, if_pos rfl, dif_neg h]
  | false =>
      by_cases h : significand < 0x10000000000000000
      · refine ⟨some (.integer significand (by omega) (by omega)), fun rest _ => ?_⟩
        rw [wholeNumber, if_neg Bool.false_ne_true, dif_pos h]
        rfl
      · refine (settled_finishNumber false significand 0).congr fun rest _ => ?_
        rw [wholeNumber, if_neg Bool.false_ne_true, dif_neg h]

/-- A sign is taken off the digits of an exponent. -/
theorem exponentSign_text {sign : List Char} {down : Bool} (h : Decimal.SignText sign down) (b : UInt8)
    (rest : Bytes) (hb : Byte.isDigit b = true) :
    exponentSign (encode sign ++ b :: rest) = (down, b :: rest) := by
  cases h with
  | minus => rfl
  | plus => rfl
  | absent =>
      have hminus : b ≠ Byte.minus := by
        rintro rfl
        cases hb
      have hplus : b ≠ Byte.plus := by
        rintro rfl
        cases hb
      show exponentSign (b :: rest) = _
      rw [exponentSign, if_neg hminus, if_neg hplus]

theorem settled_exponentPart {sign : List Char} {down : Bool} (hsign : Decimal.SignText sign down)
    (hne : ds ≠ []) (hds : ∀ c ∈ ds, c.isDigit = true) (significand : Nat) (start : Int) :
    Settled fun rest => exponentPart negative significand start (encode (sign ++ ds) ++ rest) := by
  obtain ⟨d, ds, rfl⟩ := List.exists_cons_of_ne_nil hne
  obtain ⟨hd, hds⟩ := List.forall_mem_cons.mp hds
  have hpart := exponentPart_sign negative (exponentSign_text hsign) hd ds significand start
  rcases gatherExponent_run hds (d.toNat - '0'.toNat) with ⟨exponent, hfits⟩ | hover
  · refine (settled_finishNumber negative significand
      (if down then start - exponent else start + exponent)).congr fun rest hrest => ?_
    rw [hpart, hfits rest hrest.not_digit]
  · by_cases hlarge : significand ≠ 0 ∧ down = false
    · refine settled_error fun rest hrest => ?_
      obtain ⟨after, herror, -⟩ := hover rest hrest.not_digit
      refine ⟨.here .numberOutOfRange after, ?_⟩
      rw [hpart, herror]
      exact if_pos hlarge
    · refine (settled_finishNumber negative 0 0).congr fun rest hrest => ?_
      obtain ⟨after, herror, hafter⟩ := hover rest hrest.not_digit
      rw [hpart, herror, ← hafter]
      exact if_neg hlarge

/-- The letter of an exponent is one byte. -/
theorem encode_letter {letter : Char} (h : letter = 'e' ∨ letter = 'E') :
    ∃ b, Byte.isExponent b = true ∧ Byte.isDigit b = false ∧ b ≠ Byte.point ∧
      ∀ text rest, encode (letter :: text) ++ rest = b :: (encode text ++ rest) := by
  rcases h with rfl | rfl
  · exact ⟨0x65, by decide, by decide, by decide, fun _ _ => rfl⟩
  · exact ⟨0x45, by decide, by decide, by decide, fun _ _ => rfl⟩

/-- What ends the digits of a number in front of its exponent is no digit. -/
theorem not_digit_of_exponent {tail : List Char} {exponent : Int}
    (h : Decimal.ExponentText tail exponent) (hrest : Delimited rest) :
    startsWithDigit (encode tail ++ rest) = false := by
  cases h with
  | absent => exact hrest.not_digit
  | present letter_eq sign_text nonempty all_digits =>
      obtain ⟨b, -, hb, -, htext⟩ := encode_letter letter_eq
      rw [htext]
      exact hb

theorem settled_optionalExponent {tail : List Char} {exponent : Int}
    (h : Decimal.ExponentText tail exponent) (significand : Nat) (start : Int) :
    Settled fun rest => optionalExponent negative significand start (encode tail ++ rest) := by
  cases h with
  | absent =>
      exact (settled_finishNumber negative significand start).congr fun rest hrest =>
        optionalExponent_delimited negative hrest significand start
  | present letter_eq sign_text nonempty all_digits =>
      obtain ⟨b, hb, -, -, htext⟩ := encode_letter letter_eq
      refine (settled_exponentPart negative sign_text nonempty all_digits significand start).congr
        fun rest _ => ?_
      rw [htext, optionalExponent, if_pos hb]

theorem settled_fractionPart {fraction tail : List Char} {exponent : Int} (hne : fraction ≠ [])
    (hds : ∀ c ∈ fraction, c.isDigit = true) (h : Decimal.ExponentText tail exponent)
    (significand : Nat) (start : Int) :
    Settled fun rest =>
      fractionPart negative significand start (encode fraction ++ (encode tail ++ rest)) := by
  obtain ⟨gathered, count, hgather⟩ := gatherFraction_run hds significand 0
  refine (settled_optionalExponent negative h gathered (start - count)).congr fun rest hrest => ?_
  have hrun := hgather (encode tail ++ rest) (not_digit_of_exponent h hrest)
  obtain ⟨d, ds, rfl⟩ := List.exists_cons_of_ne_nil hne
  obtain ⟨b, henc, hb, -⟩ := encodeChar_digit (hds d List.mem_cons_self)
  rw [Text.Utf8.encode_cons, henc, List.singleton_append, List.cons_append] at hrun ⊢
  rw [fractionPart, hb, hrun]
  rfl

theorem settled_afterWhole {tail : List Char} {exponent : Int}
    (h : Decimal.ExponentText tail exponent) (significand dropped : Nat) :
    Settled fun rest => afterWhole negative significand dropped (encode tail ++ rest) := by
  cases h with
  | absent =>
      have hsettled : Settled fun rest => if dropped = 0 then wholeNumber negative significand rest
          else finishNumber negative significand dropped rest := by
        split
        · exact settled_wholeNumber negative significand
        · exact settled_finishNumber negative significand dropped
      exact hsettled.congr fun rest hrest => afterWhole_delimited negative hrest significand dropped
  | present letter_eq sign_text nonempty all_digits =>
      obtain ⟨b, hb, -, hpoint, htext⟩ := encode_letter letter_eq
      refine (settled_exponentPart negative sign_text nonempty all_digits significand dropped).congr
        fun rest _ => ?_
      rw [htext, afterWhole, if_neg hpoint, if_pos hb]

/-- The digits in front of the point, whether they fit or not. -/
theorem number_run (t : NumberLiteral) : ∃ significand dropped, ∀ rest, startsWithDigit rest = false →
    number negative (encode t.whole ++ rest) = afterWhole negative significand dropped rest := by
  obtain ⟨d, ds, hwhole⟩ := List.exists_cons_of_ne_nil t.whole_ne
  have hdigits := t.whole_digits
  have hlead := t.lead
  rw [hwhole] at hdigits hlead ⊢
  obtain ⟨hd, hds⟩ := List.forall_mem_cons.mp hdigits
  by_cases hzero : d = '0'
  · subst hzero
    obtain rfl : ds = [] := (List.cons.inj (hlead rfl)).2
    exact ⟨0, 0, fun rest hrest => number_zero negative hrest⟩
  · obtain ⟨gathered, surplus, hgather⟩ := gatherWhole_run hds (d.toNat - '0'.toNat) 0
    refine ⟨gathered, surplus, fun rest hrest => ?_⟩
    rw [number_nonzero negative hd hzero, hgather rest hrest]

/-- The bytes of a literal without a point. -/
theorem encode_pointless {t : NumberLiteral} (h : t.fraction = []) (rest : Bytes) :
    encode t.unsigned ++ rest = encode t.whole ++ (encode t.tail ++ rest) := by
  simp [NumberLiteral.unsigned, NumberLiteral.point, h, Text.Utf8.encode_append]

/-- The bytes of a literal with a point. -/
theorem encode_pointed {t : NumberLiteral} (h : t.fraction ≠ []) (rest : Bytes) :
    encode t.unsigned ++ rest =
      encode t.whole ++ Byte.point :: (encode t.fraction ++ (encode t.tail ++ rest)) := by
  have hpoint : encodeChar '.' = [Byte.point] := rfl
  simp [NumberLiteral.unsigned, NumberLiteral.point, h, Text.Utf8.encode_append, hpoint]

/-- **What is read from a literal** does not depend on what follows it. -/
theorem settled_number (t : NumberLiteral) :
    Settled fun rest => number negative (encode t.unsigned ++ rest) := by
  obtain ⟨significand, dropped, hnumber⟩ := number_run negative t
  by_cases hfraction : t.fraction = []
  · refine (settled_afterWhole negative t.exponent_text significand dropped).congr fun rest hrest => ?_
    rw [encode_pointless hfraction]
    exact hnumber _ (not_digit_of_exponent t.exponent_text hrest)
  · refine (settled_fractionPart negative hfraction t.fraction_digits t.exponent_text significand
      dropped).congr fun rest _ => ?_
    rw [encode_pointed hfraction, hnumber _ rfl, afterWhole, if_pos rfl]

end Json.Reader

/-! ## Literals in documents -/

namespace NumberLiteral

open Json.Reader

variable (t : NumberLiteral) {rest : Bytes}

/-- The number that is read from a literal in a document, if one is. -/
def read : Option Number :=
  (number t.negative (encode t.unsigned)).toOption.map Prod.fst

theorem number_read (hrest : Delimited rest) :
    (number t.negative (encode t.unsigned ++ rest)).toOption = t.read.map (·, rest) := by
  obtain ⟨found, hfound⟩ := settled_number t.negative t
  have hself : t.read = found := by
    have halone : (number t.negative (encode t.unsigned ++ [])).toOption = found.map (·, []) :=
      hfound [] delimited_nil
    rw [List.append_nil] at halone
    rw [read, halone]
    cases found with
    | none => rfl
    | some n => rfl
  rw [hself]
  exact hfound rest hrest

/-- A literal is the sign or the first digit of a number with what follows it. -/
theorem start (rest : Bytes) : ∃ b tail, encode t.text ++ rest = b :: tail ∧
    (b = Byte.minus ∨ Byte.isDigit b = true) ∧
    signed b tail = number t.negative (encode t.unsigned ++ rest) := by
  unfold text
  cases t.negative with
  | true => exact ⟨Byte.minus, _, rfl, Or.inl rfl, rfl⟩
  | false =>
      obtain ⟨d, ds, hwhole⟩ := List.exists_cons_of_ne_nil t.whole_ne
      obtain ⟨b, henc, hb, -⟩ := encodeChar_digit (t.whole_digits d (hwhole ▸ List.mem_cons_self))
      have hbytes : encode t.unsigned ++ rest =
          b :: (encode (ds ++ (t.point ++ t.tail)) ++ rest) := by
        rw [unsigned, hwhole, List.cons_append, Text.Utf8.encode_cons, henc]
        rfl
      have hminus : b ≠ Byte.minus := by
        rintro rfl
        cases hb
      refine ⟨b, _, hbytes, Or.inr hb, ?_⟩
      rw [signed, if_neg hminus, beq_eq_false_iff_ne.mpr hminus, hbytes]

/-- **What is read from a literal in a document**, at any place where a value may stand. -/
theorem reads (rounds depth : Nat) :
    Reads (value rounds depth) (encode t.text) (t.read.map Json.number) where
  head := by
    obtain ⟨b, tail, htext, hb, -⟩ := t.start []
    obtain ⟨hblank, -, -, hclose, -⟩ := signed_start hb
    rw [List.append_nil] at htext
    exact ⟨b, tail, htext, hblank, hclose⟩
  read := by
    intro gap rest hgap hrest
    obtain ⟨b, tail, htext, hb, hsigned⟩ := t.start rest
    obtain ⟨hblank, hbracket, hbrace, -, -⟩ := signed_start hb
    obtain ⟨inner, hinner⟩ := value_eq rounds depth
    rw [hinner, htext]
    simp only [valueWith, skipBlanks_gap hgap, skipBlanks_cons hblank, if_neg hbracket, if_neg hbrace,
      scalar_of_signed hb, hsigned]
    have hread := t.number_read hrest
    cases hfound : t.read with
    | none =>
        rw [hfound] at hread
        obtain ⟨fault, herror⟩ := eq_error_of_toOption hread
        rw [herror]
        rfl
    | some n =>
        rw [hfound] at hread
        rw [eq_ok_of_toOption hread]
        rfl

end NumberLiteral

/-! ## Documents with one member -/

namespace Json

open Reader

/-- An object with one member, from its opening brace on. -/
theorem Reader.reads_member {rounds depth : Nat} (hrounds : 1 < rounds) (field : String) {text : Bytes}
    {back : Option Json} (hread : Reads (value rounds depth) text back) :
    Reads (mapping rounds (depth + 1) (fun depth => value rounds depth))
      (Byte.openBrace :: (quotedBytes field ++ Byte.colon :: (text ++ [Byte.closeBrace])))
      (back.map fun v => KeyMap.ofList [(field, v)]) where
  head := ⟨_, _, rfl, by decide, by decide⟩
  read := by
    intro gap rest hgap hrest
    have hblank : Byte.isBlank Byte.openBrace = false := by decide
    have hbytes : Byte.openBrace :: (quotedBytes field ++ Byte.colon :: (text ++ [Byte.closeBrace])) ++
        rest = Byte.openBrace :: (listed true [] ([field].map fun name => quotedBytes name ++
          Byte.colon :: ([] ++ text)) ++ ([] ++ Byte.closeBrace :: rest)) := by
      simp [listed, lead]
    have hitems : ∀ name ∈ [field], Reads (value rounds depth) text back := fun _ _ => hread
    have hobject := objectOf_listed id gap_nil gap_nil gap_nil rest hitems hrounds
    rw [hbytes]
    simp only [mapping, skipBlanks_gap hgap, skipBlanks_cons hblank, if_true]
    refine hobject.trans ?_
    cases back with
    | none => rfl
    | some v => rfl

/-- **A document with one member** is read as what is read from its value. -/
theorem parseObject_member (field : String) {text : Bytes} {back : Option Json}
    (hread : ∀ rounds depth, Reads (value rounds depth) text back) :
    (parseObject (Byte.openBrace :: (quotedBytes field ++
      Byte.colon :: (text ++ [Byte.closeBrace])))).toOption =
      back.map fun v => KeyMap.ofList [(field, v)] := by
  refine parseWith_reads (reads_member ?_ field (hread _ 126))
  rw [List.length_cons]
  omega

end Json

end DocStore
