import DocStore.Proofs.Json.Remainders
import DocStore.Proofs.WrittenDocuments

/-!
# The arguments of a SET

Behind its key, a SET takes words that are passed over, the words of a document and perhaps a lifetime. Two
grammars meet in the last word: it may be a number, and it may end the text of an object. It is never both,
since the text of an object ends with a brace, so the words can be divided in one way only.

## Contents
- `Division`: a way to divide words; `Division.Gives`: the document and the lifetime that it gives.
- `parseNumber_of_object`: **no number ends the text of an object**.
- `Division.Gives.find?`, `exists_division`: a division is what is found among the words.
- `Division.Gives.unique`: **there is one division at most**.
- `PayloadSpan.find?_slice`: the words of the document by their places.
- `Database.set_division`: **what a SET accepts and stores**.
-/

namespace DocStore

open Text (isBlank)
open Text.Utf8 (encode)

/-! ## Divisions -/

/-- A way to divide words: those that are passed over, those of the document, and the lifetime if one is
    given. -/
@[ext]
structure Division where
  noise : List String
  document : List String
  lifetime : Option String
  deriving DecidableEq

namespace Division

/-- The words that are divided. -/
def words (d : Division) : List String :=
  d.noise ++ (d.document ++ d.lifetime.toList)

/-- Whether a division gives a document and a lifetime: no word that is passed over starts an object, the
    first word of the document does, its words denote the payload, and the lifetime is a number. -/
structure Gives (d : Division) (payload : Payload) (ttl : Option Binary64) : Prop where
  noise : ∀ token ∈ d.noise, opensObject token = false
  opens : ∃ first ∈ d.document.head?, opensObject first = true
  parsed : Json.parseObject (encode (joinTokens d.document).toList) = .ok payload
  lifetime : d.lifetime.map (fun token => Decimal.parseNumber token.toList) = ttl.map some

end Division

/-! ## Numbers and objects -/

/-- A word that starts an object is no number. -/
theorem parseNumber_of_opens {token : String} (h : opensObject token = true) :
    Decimal.parseNumber token.toList = none := by
  have hbrace : '\x7b' ∈ token.toList :=
    List.mem_of_mem_head? (by simpa [opensObject] using h)
  exact Decimal.parseNumber_eq_none hbrace (by decide) (by decide) (by decide)

/-- Joined words end with the last of them. -/
theorem joinTokens_suffix (front : List String) (last : String) :
    last.toList <:+ (joinTokens (front ++ [last])).toList := by
  induction front with
  | nil => simp [joinTokens]
  | cons token front ih =>
      have hne : (front ++ [last]).map String.toList ≠ [] := by simp
      have hjoin : (joinTokens (token :: (front ++ [last]))).toList =
          (token.toList ++ " ".toList) ++ (joinTokens (front ++ [last])).toList := by
        simp only [joinTokens, String.toList_intercalate, List.map_cons]
        exact List.intercalate_cons_of_ne_nil hne
      rw [List.cons_append, hjoin]
      exact ih.trans (List.suffix_append _ _)

/-- The last character of a text, from the last byte of it. -/
theorem eq_of_last_byte {front : List Char} {c : Char} {b : UInt8}
    (hlast : b ∈ (encode (front ++ [c])).getLast?) (hb : b < 0x80) : c.toNat = b.toNat := by
  have hne : Text.Utf8.encodeChar c ≠ [] := by
    unfold Text.Utf8.encodeChar
    dsimp only
    split_ifs <;> exact List.cons_ne_nil _ _
  rw [Text.Utf8.encode_append, Text.Utf8.encode_cons, Text.Utf8.encode_nil, List.append_nil,
    List.getLast?_append_of_ne_nil _ hne] at hlast
  by_cases hascii : c.toNat < 0x80
  · rw [Text.Utf8.encodeChar_ascii hascii, List.getLast?_singleton] at hlast
    obtain rfl := Option.some.inj hlast
    rw [UInt8.toNat_ofNat']
    omega
  · -- all bytes of the other characters are above
    have habove := Text.Utf8.mem_encodeChar (Nat.le_of_not_lt hascii) (List.mem_of_getLast? hlast)
    exact absurd hb (UInt8.not_lt.mpr habove)

/-- **No number ends the text of an object.** -/
theorem parseNumber_of_object {tokens : List String} {last : String} {payload : Payload}
    (hlast : last ∈ tokens.getLast?) (hne : last.toList ≠ [])
    (hblank : ∀ c ∈ last.toList, isBlank c = false)
    (hparsed : Json.parseObject (encode (joinTokens tokens).toList) = .ok payload) :
    Decimal.parseNumber last.toList = none := by
  obtain ⟨front, rfl⟩ := List.getLast?_eq_some_iff.mp hlast
  obtain ⟨earlier, hjoin⟩ := joinTokens_suffix front last
  have hconcat := (List.dropLast_concat_getLast hne).symm
  generalize hc : last.toList.getLast hne = c at hconcat
  have hmem : c ∈ last.toList := hc ▸ List.getLast_mem hne
  -- the last character of the word is the one that ends the text
  obtain ⟨b, hb, hkind⟩ := Json.parseObject_last hparsed
  rw [← hjoin, hconcat, ← List.append_assoc] at hb
  rcases hkind with rfl | hspace
  · have hbrace : c = '\x7d' := Char.toNat_inj.mp (eq_of_last_byte hb (by decide))
    subst hbrace
    exact Decimal.parseNumber_eq_none hmem (by decide) (by decide) (by decide)
  · simp only [Json.Reader.Byte.isBlank, Bool.or_eq_true, beq_iff_eq] at hspace
    have hword := hblank c hmem
    have hcode : c.toNat = 32 ∨ c.toNat = 10 ∨ c.toNat = 9 ∨ c.toNat = 13 := by
      rcases hspace with ((rfl | rfl) | rfl) | rfl
      · exact Or.inl (eq_of_last_byte hb (by decide))
      · exact Or.inr (Or.inl (eq_of_last_byte hb (by decide)))
      · exact Or.inr (Or.inr (Or.inl (eq_of_last_byte hb (by decide))))
      · exact Or.inr (Or.inr (Or.inr (eq_of_last_byte hb (by decide))))
    exfalso
    simp [isBlank] at hword
    omega

/-! ## What is found among words -/

/-- Words are cut at the first one that starts an object, if there is one. -/
theorem cut_at_object (tokens : List String) :
    (∀ token ∈ tokens, opensObject token = false) ∨
      ∃ noise first rest, tokens = noise ++ first :: rest ∧
        (∀ token ∈ noise, opensObject token = false) ∧ opensObject first = true := by
  induction tokens with
  | nil => exact Or.inl (by simp)
  | cons token tokens ih =>
      cases htoken : opensObject token with
      | true => exact Or.inr ⟨[], token, tokens, rfl, by simp, htoken⟩
      | false =>
          rcases ih with hnone | ⟨noise, first, rest, rfl, hnoise, hfirst⟩
          · exact Or.inl (List.forall_mem_cons.mpr ⟨htoken, hnone⟩)
          · exact Or.inr ⟨token :: noise, first, rest, rfl,
              List.forall_mem_cons.mpr ⟨htoken, hnoise⟩, hfirst⟩

/-- The last of some words is a lifetime or not; the one that starts the object is not. -/
theorem last_cases {first : String} (hfirst : opensObject first = true) (rest : List String) :
    (∃ front last ttl, rest = front ++ [last] ∧ Decimal.parseNumber last.toList = some ttl) ∨
      ∃ last ∈ (first :: rest).getLast?, Decimal.parseNumber last.toList = none := by
  rcases List.eq_nil_or_concat' rest with rfl | ⟨front, last, rfl⟩
  · exact Or.inr ⟨first, rfl, parseNumber_of_opens hfirst⟩
  · cases hlast : Decimal.parseNumber last.toList with
    | none => exact Or.inr ⟨last, by rw [← List.cons_append, List.getLast?_concat]; rfl, hlast⟩
    | some ttl => exact Or.inl ⟨front, last, ttl, rfl, hlast⟩

namespace PayloadSpan

/-- Words in front of a document are passed over. -/
theorem find?_append {noise : List String} (hnoise : ∀ token ∈ noise, opensObject token = false)
    (tokens : List String) : find? (noise ++ tokens) = find? tokens := by
  have hpassed : ∀ token ∈ noise, (!opensObject token) = true := by simpa using hnoise
  unfold find?
  rw [List.dropWhile_append_of_pos hpassed]

/-- Where a document starts: at the first word that starts an object. -/
def start (tokens : List String) : Nat :=
  tokens.findIdx opensObject

/-- The lifetime that may be the last of some words. -/
def lifetime? (tokens : List String) : Option Binary64 :=
  tokens.getLast?.bind fun last => Decimal.parseNumber last.toList

/-- Where a document ends: behind the last word, or before it if that is a lifetime. -/
def stop (tokens : List String) : Nat :=
  if (lifetime? tokens).isSome then tokens.length - 1 else tokens.length

theorem start_append {noise : List String} (hnoise : ∀ token ∈ noise, opensObject token = false)
    {first : String} (hfirst : opensObject first = true) (rest : List String) :
    start (noise ++ first :: rest) = noise.length := by
  have hnone : noise.findIdx opensObject = noise.length := List.findIdx_eq_length.mpr hnoise
  rw [start, List.findIdx_append, hnone, if_neg (Nat.lt_irrefl _), List.findIdx_cons, hfirst]
  exact Nat.zero_add _

/-- **The words of a document by their places.** There is at least one, and all of them are among the
    words. -/
theorem find?_slice {tokens : List String} (h : ∃ token ∈ tokens, opensObject token = true) :
    start tokens < stop tokens ∧ stop tokens ≤ tokens.length ∧
      find? tokens = some ⟨joinTokens ((tokens.take (stop tokens)).drop (start tokens)),
        lifetime? tokens⟩ := by
  rcases cut_at_object tokens with hnone | ⟨noise, first, rest, rfl, hnoise, hfirst⟩
  · obtain ⟨token, htoken, hopens⟩ := h
    rw [hnone token htoken] at hopens
    cases hopens
  rw [start_append hnoise hfirst, find?_append hnoise]
  rcases last_cases hfirst rest with ⟨front, last, ttl, rfl, hlast⟩ | ⟨last, hlast, hnumber⟩
  · have hshape : noise ++ first :: (front ++ [last]) = noise ++ (first :: front) ++ [last] := by simp
    have hlifetime : lifetime? (noise ++ first :: (front ++ [last])) = some ttl := by
      rw [lifetime?, hshape, List.getLast?_concat, Option.bind_some, hlast]
    have hstop : stop (noise ++ first :: (front ++ [last])) = (noise ++ (first :: front)).length := by
      rw [stop, hlifetime, if_pos (by rfl), hshape, List.length_append, List.length_singleton,
        Nat.add_sub_cancel]
    refine ⟨?_, ?_, ?_⟩
    · rw [hstop]
      simp
    · rw [hstop]
      simp
    · rw [hstop, hlifetime, hshape, List.take_left' rfl, List.drop_left' rfl,
        find?_of_ttl hfirst front hlast]
  · have hlifetime : lifetime? (noise ++ first :: rest) = none := by
      rw [lifetime?, List.getLast?_append_of_ne_nil _ (List.cons_ne_nil first rest), hlast,
        Option.bind_some, hnumber]
    have hstop : stop (noise ++ first :: rest) = (noise ++ first :: rest).length := by
      rw [stop, hlifetime]
      rfl
    refine ⟨?_, ?_, ?_⟩
    · rw [hstop]
      simp
    · rw [hstop]
    · rw [hstop, hlifetime, List.take_length, List.drop_left' rfl,
        find?_of_no_ttl hfirst hlast hnumber]

end PayloadSpan

namespace Division

variable {d e : Division} {payload other : Payload} {ttl later : Option Binary64}

/-- What a division gives is what is found among its words. -/
theorem Gives.find? (h : d.Gives payload ttl)
    (hword : ∀ token ∈ d.words, token.toList ≠ [] ∧ ∀ c ∈ token.toList, isBlank c = false) :
    PayloadSpan.find? d.words = some ⟨joinTokens d.document, ttl⟩ := by
  obtain ⟨noise, document, lifetime⟩ := d
  obtain ⟨hnoise, ⟨first, hfirst, hopens⟩, hparsed, hlifetime⟩ := h
  obtain ⟨rest, rfl⟩ := List.head?_eq_some_iff.mp hfirst
  rw [words, PayloadSpan.find?_append hnoise]
  cases lifetime with
  | none =>
      -- the last word of the document is not a lifetime
      obtain rfl : ttl = none := by simpa using hlifetime.symm
      have hlast := List.getLast?_eq_some_getLast (List.cons_ne_nil first rest)
      have hmem := List.getLast_mem (List.cons_ne_nil first rest)
      obtain ⟨hne, hblank⟩ := hword _ (List.mem_append_right _ (List.mem_append_left _ hmem))
      rw [Option.toList_none, List.append_nil]
      exact PayloadSpan.find?_of_no_ttl hopens hlast
        (parseNumber_of_object hlast hne hblank hparsed)
  | some token =>
      obtain ⟨x, hx, hnumber⟩ := Option.map_eq_some_iff.mp hlifetime.symm
      subst hx
      exact PayloadSpan.find?_of_ttl hopens rest hnumber.symm

/-- The words that are passed over are those before the first one that starts an object. -/
theorem Gives.noise_eq (h : d.Gives payload ttl) :
    d.noise = d.words.takeWhile fun token => !opensObject token := by
  obtain ⟨first, hfirst, hopens⟩ := h.opens
  obtain ⟨rest, hdocument⟩ := List.head?_eq_some_iff.mp hfirst
  have hpassed : ∀ token ∈ d.noise, (!opensObject token) = true := by simpa using h.noise
  rw [words, List.takeWhile_append_of_pos hpassed, hdocument, List.cons_append,
    List.takeWhile_cons_of_neg (by simp [hopens]), List.append_nil]

/-- **Words are divided in one way** at most, so they give one document and one lifetime. -/
theorem Gives.unique (hd : d.Gives payload ttl) (he : e.Gives other later) (hwords : d.words = e.words)
    (hword : ∀ token ∈ d.words, token.toList ≠ [] ∧ ∀ c ∈ token.toList, isBlank c = false) :
    d = e ∧ payload = other ∧ ttl = later := by
  have hspan : some (PayloadSpan.mk (joinTokens d.document) ttl) = some ⟨joinTokens e.document, later⟩ := by
    rw [← hd.find? hword, ← he.find? (hwords ▸ hword), hwords]
  obtain ⟨hdocument, httl⟩ := PayloadSpan.mk.inj (Option.some.inj hspan)
  have hpayload : payload = other := by
    have hparsed := hd.parsed
    rw [hdocument, he.parsed] at hparsed
    exact (Except.ok.inj hparsed).symm
  refine ⟨?_, hpayload, httl⟩
  have hnoise : d.noise = e.noise := by rw [hd.noise_eq, he.noise_eq, hwords]
  have hblock : d.document ++ d.lifetime.toList = e.document ++ e.lifetime.toList := by
    rw [words, words, hnoise] at hwords
    exact List.append_cancel_left hwords
  -- both lifetimes are there or none is, so the documents end at the same place
  have hsome : d.lifetime.isSome = e.lifetime.isSome := by
    rw [← Option.isSome_map (f := fun token => Decimal.parseNumber token.toList), hd.lifetime, httl,
      ← he.lifetime, Option.isSome_map]
  have hcount : d.lifetime.toList.length = e.lifetime.toList.length := by
    rw [Option.length_toList, Option.length_toList, hsome]
  obtain ⟨hends, hlifetime⟩ := List.append_inj' hblock hcount
  refine Division.ext hnoise hends ?_
  simpa only [Option.head?_toList] using congrArg List.head? hlifetime

end Division

/-- What is found among words is divided from them. -/
theorem exists_division {tokens : List String} {span : PayloadSpan} {payload : Payload}
    (hspan : PayloadSpan.find? tokens = some span)
    (hparsed : Json.parseObject (encode span.json.toList) = .ok payload) :
    ∃ d : Division, d.words = tokens ∧ d.Gives payload span.ttl := by
  rcases cut_at_object tokens with hnone | ⟨noise, first, rest, rfl, hnoise, hfirst⟩
  · rw [← List.append_nil tokens, PayloadSpan.find?_append hnone] at hspan
    cases hspan
  rw [PayloadSpan.find?_append hnoise] at hspan
  rcases last_cases hfirst rest with ⟨front, last, ttl, rfl, hlast⟩ | ⟨last, hlast, hnumber⟩
  · rw [PayloadSpan.find?_of_ttl hfirst front hlast] at hspan
    cases hspan
    exact ⟨⟨noise, first :: front, some last⟩, rfl, hnoise, ⟨first, rfl, hfirst⟩, hparsed,
      congrArg some hlast⟩
  · rw [PayloadSpan.find?_of_no_ttl hfirst hlast hnumber] at hspan
    cases hspan
    exact ⟨⟨noise, first :: rest, none⟩, by simp [Division.words], hnoise, ⟨first, rfl, hfirst⟩,
      hparsed, rfl⟩

namespace Database

/-- A SET with a key succeeds exactly if a document is found among its words and can be read. -/
theorem set_isOk_iff {db : Database} {now : Millis} {line key : String} {rest : List String}
    (hnames : Names line .set (key :: rest)) :
    (∃ reply ∈ (db.execute now line).1, reply.isOk = true) ↔
      ∃ span payload, PayloadSpan.find? rest = some span ∧
        Json.parseObject (encode span.json.toList) = .ok payload := by
  constructor
  · rintro ⟨reply, hreply, hok⟩
    rw [execute_of_names hnames] at hreply
    simp only [run, set] at hreply
    cases hspan : PayloadSpan.find? rest with
    | none =>
        simp only [hspan] at hreply
        obtain rfl := Option.some.inj hreply
        cases hok
    | some span =>
        cases hparsed : Json.parseObject (encode span.json.toList) with
        | error report =>
            simp only [hspan, hparsed] at hreply
            obtain rfl := Option.some.inj hreply
            cases hok
        | ok payload => exact ⟨span, payload, rfl, hparsed⟩
  · rintro ⟨span, payload, hspan, hparsed⟩
    refine ⟨⟨some .set, .ok Texts.stored⟩, ?_, rfl⟩
    rw [execute_of_span hnames hspan hparsed]
    rfl

/-- **What a SET accepts and stores.** A SET with a key succeeds exactly if the words behind the key can be
    divided into words that are passed over, the words of a document and at most one number. The division is
    unique, and its document and its lifetime, as whole milliseconds, are what is then found under the key;
    all other documents and all buckets stay as they are. If the last word is a number, no words up to it
    denote an object, so it is never taken from a document. The words of the document are a range of all
    words that is never empty. -/
theorem set_division (db : Database) (now : Millis) {line key : String} {rest : List String}
    (hnames : Names line .set (key :: rest)) :
    ((∃ reply ∈ (db.execute now line).1, reply.isOk = true) ↔
      ∃ (d : Division) (payload : Payload) (ttl : Option Binary64),
        d.words = rest ∧ d.Gives payload ttl) ∧
    (∀ (d : Division) (payload : Payload) (ttl : Option Binary64), d.words = rest → d.Gives payload ttl →
      (∃ (next : Database) (record : Record),
        db.execute now line = (some ⟨some .set, .ok Texts.stored⟩, next) ∧
        next.find? key = some record ∧ record.payload = payload ∧
        record.ttl = ttl.map Binary64.truncate ∧
        record.expiresAt = (ttl.map Binary64.truncate).map (Millis.add now ·) ∧
        next.documents.AgreesExcept key db.documents ∧ next.indices = db.indices) ∧
      ∀ (e : Division) (other : Payload) (later : Option Binary64), e.words = rest →
        e.Gives other later → d = e ∧ payload = other ∧ ttl = later) ∧
    (∀ (front block : List String) (last : String), rest = front ++ block → last ∈ block.getLast? →
      (Decimal.parseNumber last.toList).isSome = true → ∀ payload,
      Json.parseObject (encode (joinTokens block).toList) ≠ .ok payload) ∧
    ∀ tokens : List String, (∃ token ∈ tokens, opensObject token = true) →
      PayloadSpan.start tokens < PayloadSpan.stop tokens ∧
      PayloadSpan.stop tokens ≤ tokens.length ∧
      PayloadSpan.find? tokens =
        some ⟨joinTokens ((tokens.take (PayloadSpan.stop tokens)).drop (PayloadSpan.start tokens)),
          PayloadSpan.lifetime? tokens⟩ := by
  have hword : ∀ token ∈ rest, token.toList ≠ [] ∧ ∀ c ∈ token.toList, isBlank c = false :=
    fun token htoken => hnames.arg_word token (List.mem_cons_of_mem key htoken)
  refine ⟨?_, ?_, ?_, fun tokens => PayloadSpan.find?_slice⟩
  · rw [set_isOk_iff hnames]
    constructor
    · rintro ⟨span, payload, hspan, hparsed⟩
      obtain ⟨d, hwords, hgives⟩ := exists_division hspan hparsed
      exact ⟨d, payload, span.ttl, hwords, hgives⟩
    · rintro ⟨d, payload, ttl, rfl, hgives⟩
      exact ⟨_, payload, hgives.find? hword, hgives.parsed⟩
  · rintro d payload ttl rfl hgives
    refine ⟨stored_of_span hnames (hgives.find? hword) hgives.parsed, ?_⟩
    intro e other later hwords hother
    exact hgives.unique hother hwords.symm hword
  · rintro front block last rfl hlast hnumber payload hparsed
    obtain ⟨hne, hblank⟩ := hword last (List.mem_append_right _ (List.mem_of_getLast? hlast))
    rw [parseNumber_of_object hlast hne hblank hparsed] at hnumber
    cases hnumber

/-- A word in front of the document is passed over, and the number behind it is its lifetime. -/
theorem set_division_noise :
    Names "SET k 7 \x7b\"a\": 1\x7d 60" .set ["k", "7", "\x7b\"a\":", "1\x7d", "60"] ∧
    ∃ record, (empty.execute 5 "SET k 7 \x7b\"a\": 1\x7d 60").2.find? "k" = some record ∧
      record.payload = KeyMap.ofList [("a", Json.number (Number.ofInt64 1))] ∧ record.ttl = some 60 ∧
      record.expiresAt = some 65 := by
  have hnames : Names "SET k 7 \x7b\"a\": 1\x7d 60" .set ["k", "7", "\x7b\"a\":", "1\x7d", "60"] :=
    ⟨⟨"SET", ["k", "7", "\x7b\"a\":", "1\x7d", "60"]⟩, by decide +kernel, by decide +kernel, rfl⟩
  refine ⟨hnames, ?_⟩
  have hgives : (Division.mk ["7"] ["\x7b\"a\":", "1\x7d"] (some "60")).Gives
      (KeyMap.ofList [("a", Json.number (Number.ofInt64 1))]) (some (Binary64.ofInt 60)) :=
    { noise := by decide
      opens := ⟨"\x7b\"a\":", rfl, by decide⟩
      parsed := by decide +kernel
      lifetime := by decide +kernel }
  obtain ⟨next, record, hexecute, hfound, hpayload, httl, hends, -, -⟩ :=
    ((set_division empty 5 hnames).2.1 _ _ _ rfl hgives).1
  have hmillis : (Binary64.ofInt 60).truncate = 60 := by decide +kernel
  have hend : Millis.add 5 60 = 65 := by decide
  rw [Option.map_some, hmillis] at httl
  rw [Option.map_some, hmillis, Option.map_some, hend] at hends
  rw [hexecute]
  exact ⟨record, hfound, hpayload, httl, hends⟩

end Database

end DocStore
