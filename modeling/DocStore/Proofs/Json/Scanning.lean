import DocStore.Json.Parser

/-!
# Reading what was written: words and strings

What the scanners make of a text that the printer wrote, followed by anything. A gap of white space
contributes nothing, a fixed word is taken off, and a quoted string is read back as itself.

## Contents
- `Gap`, `skipBlanks_gap`: white space between the parts of a text.
- `Delimited`: the texts that may follow a value.
- `encodeChar_ascii`, `mem_encodeChar`: the bytes of one character.
- `stringBytes_escapeChar`, `string_quoted`: strings.
-/

namespace DocStore

open Text (Bytes)

/-! ## Bytes of characters -/

namespace Text.Utf8

/-- An ASCII character is one byte. -/
theorem encodeChar_ascii {c : Char} (h : c.toNat < 0x80) :
    encodeChar c = [UInt8.ofNat c.toNat] := by
  simp only [encodeChar, if_pos h]

private theorem le_ofNat {n : Nat} (h₁ : 0x80 ≤ n) (h₂ : n < 256) : 0x80 ≤ UInt8.ofNat n := by
  rw [UInt8.le_iff_toNat_le]
  simpa [Nat.mod_eq_of_lt h₂] using h₁

/-- No byte of a character outside ASCII is an ASCII byte. -/
theorem mem_encodeChar {c : Char} (h : 0x80 ≤ c.toNat) {b : UInt8} (hb : b ∈ encodeChar c) :
    0x80 ≤ b := by
  have hvalid : c.toNat < 0x110000 := by
    rcases c.valid with hv | hv
    · exact Nat.lt_trans hv (by decide)
    · exact hv.2
  have tail : ∀ n, 0x80 ≤ tailByte n := fun n => le_ofNat (by omega) (by omega)
  -- two, three or four bytes: the first one has a length mark, the others have a tail mark
  simp only [encodeChar, if_neg (Nat.not_lt.mpr h)] at hb
  split at hb
  · simp only [List.mem_cons, List.not_mem_nil, or_false] at hb
    rcases hb with rfl | rfl
    · exact le_ofNat (by omega) (by omega)
    · exact tail _
  split at hb
  · simp only [List.mem_cons, List.not_mem_nil, or_false] at hb
    rcases hb with rfl | rfl | rfl
    · exact le_ofNat (by omega) (by omega)
    · exact tail _
    · exact tail _
  · simp only [List.mem_cons, List.not_mem_nil, or_false] at hb
    rcases hb with rfl | rfl | rfl | rfl
    · exact le_ofNat (by omega) (by omega)
    · exact tail _
    · exact tail _
    · exact tail _

end Text.Utf8

namespace Json.Reader

/-! ## Gaps -/

/-- White space between the parts of a text. -/
def Gap (gap : Bytes) : Prop := ∀ b ∈ gap, Byte.isBlank b = true

theorem gap_nil : Gap [] := fun _ h => absurd h List.not_mem_nil

theorem gap_cons {b : UInt8} {gap : Bytes} (hb : Byte.isBlank b = true) (h : Gap gap) :
    Gap (b :: gap) := by
  intro c hc
  rcases List.mem_cons.mp hc with rfl | hc
  · exact hb
  · exact h c hc

/-- A gap contributes nothing. -/
theorem skipBlanks_gap {gap : Bytes} (h : Gap gap) (rest : Bytes) :
    skipBlanks (gap ++ rest) = skipBlanks rest := by
  induction gap with
  | nil => rfl
  | cons b gap ih =>
      rw [List.cons_append, skipBlanks, if_pos (h b List.mem_cons_self)]
      exact ih fun c hc => h c (List.mem_cons_of_mem _ hc)

theorem skipBlanks_cons {b : UInt8} (h : Byte.isBlank b = false) (rest : Bytes) :
    skipBlanks (b :: rest) = b :: rest := by
  simp [skipBlanks, h]

/-- What may follow a value: the end, white space, a comma or a closing bracket. -/
def Delimited (rest : Bytes) : Prop :=
  ∀ b ∈ rest.head?, Byte.isBlank b = true ∨ b = Byte.comma ∨ b = Byte.closeBracket ∨
    b = Byte.closeBrace

theorem delimited_nil : Delimited [] := fun _ h => absurd h (by simp)

theorem delimited_cons {b : UInt8} (rest : Bytes)
    (h : Byte.isBlank b = true ∨ b = Byte.comma ∨ b = Byte.closeBracket ∨ b = Byte.closeBrace) :
    Delimited (b :: rest) := by
  intro c hc
  rw [List.head?_cons, Option.mem_some_iff] at hc
  exact hc ▸ h

/-- A gap may follow a value if what is behind it may. -/
theorem delimited_gap {gap rest : Bytes} (hg : Gap gap) (h : Delimited rest) :
    Delimited (gap ++ rest) := by
  cases gap with
  | nil => exact h
  | cons b gap => exact delimited_cons _ (Or.inl (hg b List.mem_cons_self))

/-! ## Words -/

theorem word_append (expected rest : Bytes) : word expected (expected ++ rest) = .ok rest := by
  induction expected with
  | nil => rfl
  | cons e expected ih => rw [List.cons_append, word, if_pos rfl, ih]

/-! ## Strings -/

/-- A byte that is neither control, quote nor backslash is kept. -/
theorem stringBytes_plain {b : UInt8} (hq : b ≠ Byte.quote) (hs : b ≠ Byte.backslash)
    (hc : 0x20 ≤ b) (seen rest : Bytes) :
    stringBytes seen (b :: rest) = stringBytes (b :: seen) rest := by
  rw [stringBytes, if_neg hq, if_neg hs, if_neg (by simpa using hc)]

theorem stringBytes_run {bytes : Bytes}
    (h : ∀ b ∈ bytes, b ≠ Byte.quote ∧ b ≠ Byte.backslash ∧ 0x20 ≤ b) (seen rest : Bytes) :
    stringBytes seen (bytes ++ rest) = stringBytes (bytes.reverse ++ seen) rest := by
  induction bytes generalizing seen with
  | nil => rfl
  | cons b bytes ih =>
      obtain ⟨hq, hs, hc⟩ := h b List.mem_cons_self
      rw [List.cons_append, stringBytes_plain hq hs hc,
        ih (fun c hc => h c (List.mem_cons_of_mem _ hc)), List.reverse_cons, List.append_assoc]
      rfl

/-- An escape is replaced by the bytes of its character. -/
theorem stringBytes_escape {s after : Bytes} {c : Char} (h : escape s = .ok (c, after))
    (seen : Bytes) :
    stringBytes seen (Byte.backslash :: s) =
      stringBytes ((Text.Utf8.encodeChar c).reverse ++ seen) after := by
  rw [stringBytes, if_neg (by decide), if_pos rfl]
  split
  · rename_i hfault
    rw [h] at hfault
    cases hfault
  · rename_i c' after' hok
    rw [h] at hok
    cases hok
    rfl

theorem hexValue_hexDigit (n : Nat) :
    ∃ b, Text.Utf8.encodeChar (Tree.hexDigit n) = [b] ∧ Byte.hexValue b = some (n % 16) := by
  have digits : ∀ m < 16, Text.Utf8.encodeChar (Nat.digitChar m) =
      [UInt8.ofNat (Nat.digitChar m).toNat] ∧
      Byte.hexValue (UInt8.ofNat (Nat.digitChar m).toNat) = some m := by decide
  exact ⟨_, digits (n % 16) (Nat.mod_lt _ (by decide))⟩

/-- The numbered escape of a control character. -/
theorem escape_control {c : Char} (h : c.toNat < 0x20) (rest : Bytes) :
    escape (Text.Utf8.encode ['u', '0', '0', Tree.hexDigit (c.toNat / 16), Tree.hexDigit c.toNat]
      ++ rest) = .ok (c, rest) := by
  obtain ⟨high, hhigh, hv⟩ := hexValue_hexDigit (c.toNat / 16)
  obtain ⟨low, hlow, hw⟩ := hexValue_hexDigit c.toNat
  have hzero : Byte.hexValue 0x30 = some 0 := by decide
  have hbytes : Text.Utf8.encode ['u', '0', '0', Tree.hexDigit (c.toNat / 16),
      Tree.hexDigit c.toNat] = [0x75, 0x30, 0x30, high, low] := by
    simp only [Text.Utf8.encode_cons, Text.Utf8.encode_nil, hhigh, hlow]
    rfl
  have hvalue : ((0 * 16 + 0) * 16 + c.toNat / 16 % 16) * 16 + c.toNat % 16 = c.toNat := by omega
  rw [hbytes]
  simp only [List.cons_append, List.nil_append, escape, unicodeEscape, hexDigits, hzero, hv, hw,
    hvalue, if_true]
  rw [if_neg (by omega), if_neg (by omega), Char.ofNat_toNat]

/-- A character that the printer escaped, or left alone, is read back as its bytes. -/
theorem stringBytes_escapeChar (c : Char) (seen rest : Bytes) :
    stringBytes seen (Text.Utf8.encode (Tree.escapeChar c) ++ rest) =
      stringBytes ((Text.Utf8.encodeChar c).reverse ++ seen) rest := by
  -- seven characters have a short escape, the other control characters a numbered one
  unfold Tree.escapeChar
  split
  · subst_vars; exact stringBytes_escape rfl seen
  split
  · subst_vars; exact stringBytes_escape rfl seen
  split
  · subst_vars; exact stringBytes_escape rfl seen
  split
  · subst_vars; exact stringBytes_escape rfl seen
  split
  · subst_vars; exact stringBytes_escape rfl seen
  split
  · subst_vars; exact stringBytes_escape rfl seen
  split
  · subst_vars; exact stringBytes_escape rfl seen
  split
  · rename_i hc
    exact stringBytes_escape (escape_control hc rest) seen
  · -- a character that is left alone: one byte of its own, or bytes outside ASCII
    rename_i hquote hslash _ _ _ _ _ hc
    rw [show Text.Utf8.encode [c] = Text.Utf8.encodeChar c from List.append_nil _]
    refine stringBytes_run (fun b hb => ?_) seen rest
    by_cases hascii : c.toNat < 0x80
    · have hself : Char.ofNat c.toNat = c := Char.ofNat_toNat c
      rw [Text.Utf8.encodeChar_ascii hascii, List.mem_singleton] at hb
      have hb' : b.toNat = c.toNat := by
        rw [hb]
        simp [Nat.mod_eq_of_lt (Nat.lt_trans hascii (by decide : 0x80 < 256))]
      refine ⟨?_, ?_, ?_⟩
      · rintro rfl
        exact hquote (hself ▸ hb' ▸ rfl)
      · rintro rfl
        exact hslash (hself ▸ hb' ▸ rfl)
      · rw [UInt8.le_iff_toNat_le, hb']
        exact Nat.not_lt.mp hc
    · have hhigh := Text.Utf8.mem_encodeChar (Nat.not_lt.mp hascii) hb
      rw [UInt8.le_iff_toNat_le] at hhigh
      have hhigh : 128 ≤ b.toNat := hhigh
      refine ⟨?_, ?_, ?_⟩
      · rintro rfl
        exact absurd hhigh (by decide)
      · rintro rfl
        exact absurd hhigh (by decide)
      · rw [UInt8.le_iff_toNat_le]
        exact Nat.le_trans (by decide) hhigh

theorem stringBytes_escaped (text : List Char) (seen rest : Bytes) :
    stringBytes seen (Text.Utf8.encode (text.flatMap Tree.escapeChar) ++ rest) =
      stringBytes ((Text.Utf8.encode text).reverse ++ seen) rest := by
  induction text generalizing seen with
  | nil => rfl
  | cons c text ih =>
      rw [List.flatMap_cons, Text.Utf8.encode_append, List.append_assoc, stringBytes_escapeChar, ih,
        Text.Utf8.encode_cons, List.reverse_append, List.append_assoc]

/-- The bytes of a quoted string. -/
def quotedBytes (text : String) : Bytes :=
  Text.Utf8.encode (Tree.quoted text)

theorem quotedBytes_eq (text : String) :
    quotedBytes text =
      Byte.quote :: (Text.Utf8.encode (text.toList.flatMap Tree.escapeChar) ++ [Byte.quote]) := by
  simp only [quotedBytes, Tree.quoted, Text.Utf8.encode_cons, Text.Utf8.encode_append]
  rfl

/-- **A quoted string is read back**, whatever follows its closing quote. -/
theorem string_quoted (text : String) (rest : Bytes) :
    string (Text.Utf8.encode (text.toList.flatMap Tree.escapeChar) ++ Byte.quote :: rest) =
      .ok (text, rest) := by
  have hbytes : stringBytes []
      (Text.Utf8.encode (text.toList.flatMap Tree.escapeChar) ++ Byte.quote :: rest) =
      .ok (Text.Utf8.encode text.toList, rest) := by
    rw [stringBytes_escaped, stringBytes, if_pos rfl, List.append_nil, List.reverse_reverse]
  simp only [string, hbytes, Text.Utf8.decode_encode, String.ofList_toList]

end Json.Reader

end DocStore
