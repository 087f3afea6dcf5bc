/-!
# UTF-8

Texts as bytes and bytes as texts. A byte sequence that is no UTF-8 is refused at its first flaw,
and the flaw says where it is and how many bytes it spans.

## Contents
- `encode`: the bytes of a text.
- `decode`: the text of a byte sequence, or its first `Flaw`.
- `Flaw.message`: how a flaw is reported.
- `decode_encode`: what was encoded is read back.
-/

namespace DocStore.Text

/-- A byte sequence, from its first byte on. -/
abbrev Bytes := List UInt8

namespace Utf8

/-! ## Encoding -/

/-- The continuation byte that carries the six lowest bits of `n`. -/
def tailByte (n : Nat) : UInt8 :=
  UInt8.ofNat (0x80 + n % 64)

/-- The one to four bytes of a character. -/
def encodeChar (c : Char) : Bytes :=
  let n := c.toNat
  if n < 0x80 then [UInt8.ofNat n]
  else if n < 0x800 then [UInt8.ofNat (0xC0 + n / 64), tailByte n]
  else if n < 0x10000 then [UInt8.ofNat (0xE0 + n / 4096), tailByte (n / 64), tailByte n]
  else [UInt8.ofNat (0xF0 + n / 262144), tailByte (n / 4096), tailByte (n / 64), tailByte n]

/-- The bytes of a text. -/
def encode (text : List Char) : Bytes :=
  text.flatMap encodeChar

@[simp] theorem encode_nil : encode [] = [] := rfl

@[simp] theorem encode_cons (c : Char) (text : List Char) :
    encode (c :: text) = encodeChar c ++ encode text := rfl

@[simp] theorem encode_append (s t : List Char) : encode (s ++ t) = encode s ++ encode t := by
  simp [encode]

/-! ## Decoding -/

/-- The first place at which a byte sequence stops being UTF-8: the offset of the character that
    cannot be read, and the number of its bytes that are wrong, or nothing when the sequence ends
    inside a character that could still be completed. -/
structure Flaw where
  index : Nat
  length : Option Nat
  deriving DecidableEq, Repr

/-- How a flaw is reported. -/
def Flaw.message (flaw : Flaw) : String :=
  match flaw.length with
  | some length => s!"invalid utf-8 sequence of {length} bytes from index {flaw.index}"
  | none => s!"incomplete utf-8 byte sequence from index {flaw.index}"

/-- How many bytes a character has, by its first byte; zero for a byte that starts none. -/
def width (lead : Nat) : Nat :=
  if lead < 0x80 then 1
  else if 0xC2 ≤ lead ∧ lead ≤ 0xDF then 2
  else if 0xE0 ≤ lead ∧ lead ≤ 0xEF then 3
  else if 0xF0 ≤ lead ∧ lead ≤ 0xF4 then 4
  else 0

/-- Whether a byte continues a character. -/
def isTail (b : Nat) : Bool :=
  0x80 ≤ b && b ≤ 0xBF

/-- Whether a byte continues a character of three or four bytes right after its first byte: overlong
    forms, surrogates and numbers past the last character are refused here. -/
def isSecond (lead b : Nat) : Bool :=
  isTail b && (lead != 0xE0 || 0xA0 ≤ b) && (lead != 0xED || b ≤ 0x9F) &&
    (lead != 0xF0 || 0x90 ≤ b) && (lead != 0xF4 || b ≤ 0x8F)

/-- The character of two bytes. -/
def join2 (a b : Nat) : Char :=
  Char.ofNat (a % 32 * 64 + b % 64)

/-- The character of three bytes. -/
def join3 (a b c : Nat) : Char :=
  Char.ofNat (a % 16 * 4096 + b % 64 * 64 + c % 64)

/-- The character of four bytes. -/
def join4 (a b c d : Nat) : Char :=
  Char.ofNat (a % 8 * 262144 + b % 64 * 4096 + c % 64 * 64 + d % 64)

/-- Reads the bytes from offset `index` on, after the characters `seen` (last one first). -/
def decodeFrom (index : Nat) (seen : List Char) : Bytes → Except Flaw (List Char)
  | [] => .ok seen.reverse
  | a :: rest =>
    match width a.toNat with
    | 1 => decodeFrom (index + 1) (Char.ofNat a.toNat :: seen) rest
    | 2 =>
      match rest with
      | [] => .error ⟨index, none⟩
      | b :: rest =>
        if isTail b.toNat then decodeFrom (index + 2) (join2 a.toNat b.toNat :: seen) rest
        else .error ⟨index, some 1⟩
    | 3 =>
      match rest with
      | [] => .error ⟨index, none⟩
      | b :: rest =>
        if !isSecond a.toNat b.toNat then .error ⟨index, some 1⟩
        else match rest with
          | [] => .error ⟨index, none⟩
          | c :: rest =>
            if isTail c.toNat then
              decodeFrom (index + 3) (join3 a.toNat b.toNat c.toNat :: seen) rest
            else .error ⟨index, some 2⟩
    | 4 =>
      match rest with
      | [] => .error ⟨index, none⟩
      | b :: rest =>
        if !isSecond a.toNat b.toNat then .error ⟨index, some 1⟩
        else match rest with
          | [] => .error ⟨index, none⟩
          | c :: rest =>
            if !isTail c.toNat then .error ⟨index, some 2⟩
            else match rest with
              | [] => .error ⟨index, none⟩
              | d :: rest =>
                if isTail d.toNat then
                  decodeFrom (index + 4) (join4 a.toNat b.toNat c.toNat d.toNat :: seen) rest
                else .error ⟨index, some 3⟩
    | _ => .error ⟨index, some 1⟩

/-- The text of a byte sequence, or its first flaw. -/
def decode (bytes : Bytes) : Except Flaw (List Char) :=
  decodeFrom 0 [] bytes

/-! ## Reading back -/

private theorem toNat_ofNat_byte {n : Nat} (h : n < 256) : (UInt8.ofNat n).toNat = n := by
  simp [Nat.mod_eq_of_lt h]

private theorem toNat_tailByte (n : Nat) : (tailByte n).toNat = 0x80 + n % 64 :=
  toNat_ofNat_byte (by omega)

/-- The bytes of a character are read back as that character. -/
theorem decodeFrom_encodeChar (c : Char) (index : Nat) (seen : List Char) (rest : Bytes) :
    decodeFrom index seen (encodeChar c ++ rest) =
      decodeFrom (index + (encodeChar c).length) (c :: seen) rest := by
  have hvalid : c.toNat.isValidChar := c.valid
  have hself : Char.ofNat c.toNat = c := Char.ofNat_toNat c
  generalize hn : c.toNat = n at hvalid hself
  have hrange : n < 0xD800 ∨ (0xDFFF < n ∧ n < 0x110000) := hvalid
  simp only [encodeChar, hn]
  split
  · rename_i h
    have ha : (UInt8.ofNat n).toNat = n := toNat_ofNat_byte (by omega)
    have hw : width n = 1 := by simp [width, h]
    rw [List.cons_append, List.nil_append, decodeFrom.eq_def]
    simp only [ha, hw, hself, List.length_singleton]
  split
  · rename_i h1 h2
    have ha : (UInt8.ofNat (0xC0 + n / 64)).toNat = 0xC0 + n / 64 := toNat_ofNat_byte (by omega)
    have hw : width (0xC0 + n / 64) = 2 := by
      unfold width
      rw [if_neg (by omega), if_pos (by omega)]
    have ht : isTail (0x80 + n % 64) = true := by simp [isTail]; omega
    have hj : join2 (0xC0 + n / 64) (0x80 + n % 64) = c := by
      rw [join2, ← hself]
      congr 1
      omega
    simp only [List.cons_append, List.nil_append]
    rw [decodeFrom.eq_def]
    simp only [ha, hw, toNat_tailByte, ht, hj, if_true, List.length_cons, List.length_nil]
  split
  · rename_i h1 h2 h3
    have ha : (UInt8.ofNat (0xE0 + n / 4096)).toNat = 0xE0 + n / 4096 :=
      toNat_ofNat_byte (by omega)
    have hw : width (0xE0 + n / 4096) = 3 := by
      unfold width
      rw [if_neg (by omega), if_neg (by omega), if_pos (by omega)]
    have hs : isSecond (0xE0 + n / 4096) (0x80 + n / 64 % 64) = true := by
      simp [isSecond, isTail]
      omega
    have ht : isTail (0x80 + n % 64) = true := by simp [isTail]; omega
    have hj : join3 (0xE0 + n / 4096) (0x80 + n / 64 % 64) (0x80 + n % 64) = c := by
      rw [join3, ← hself]
      congr 1
      omega
    simp only [List.cons_append, List.nil_append]
    rw [decodeFrom.eq_def]
    simp only [ha, hw, toNat_tailByte, hs, ht, hj, Bool.not_true, Bool.false_eq_true, if_false,
      if_true, List.length_cons, List.length_nil]
  · rename_i h1 h2 h3
    have ha : (UInt8.ofNat (0xF0 + n / 262144)).toNat = 0xF0 + n / 262144 :=
      toNat_ofNat_byte (by omega)
    have hw : width (0xF0 + n / 262144) = 4 := by
      unfold width
      rw [if_neg (by omega), if_neg (by omega), if_neg (by omega), if_pos (by omega)]
    have hs : isSecond (0xF0 + n / 262144) (0x80 + n / 4096 % 64) = true := by
      simp [isSecond, isTail]
      omega
    have ht : isTail (0x80 + n / 64 % 64) = true := by simp [isTail]; omega
    have hu : isTail (0x80 + n % 64) = true := by simp [isTail]; omega
    have hj : join4 (0xF0 + n / 262144) (0x80 + n / 4096 % 64) (0x80 + n / 64 % 64)
        (0x80 + n % 64) = c := by
      rw [join4, ← hself]
      congr 1
      omega
    simp only [List.cons_append, List.nil_append]
    rw [decodeFrom.eq_def]
    simp only [ha, hw, toNat_tailByte, hs, ht, hu, hj, Bool.not_true, Bool.false_eq_true, if_false,
      if_true, List.length_cons, List.length_nil]

/-- What was encoded is read back, whatever was read before it. -/
theorem decodeFrom_encode (text : List Char) (index : Nat) (seen : List Char) :
    decodeFrom index seen (encode text) = .ok (seen.reverse ++ text) := by
  induction text generalizing index seen with
  | nil => simp [decodeFrom]
  | cons c text ih =>
      rw [encode_cons, decodeFrom_encodeChar, ih]
      simp

/-- What was encoded is read back. -/
theorem decode_encode (text : List Char) : decode (encode text) = .ok text := by
  simp [decode, decodeFrom_encode]

end DocStore.Text.Utf8
