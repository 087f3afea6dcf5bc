import DocStore.Proofs.Effects
import DocStore.Proofs.RangeScans
import DocStore.Proofs.View.Table

/-!
# The countdown of a lifetime

The last column of the table counts a lifetime down in seconds. The milliseconds that are left and the
seconds that are shown are both cut off at the end of the range of times; here they are put down as exact
numbers, from which the order of two readings follows.

## Contents
- `Status.persistent_iff`, `Status.expired_iff`, `Status.remaining_iff`: the lifetime at a given time.
- `Status.shownSeconds`, `Status.text_remaining`: the seconds that are shown; `Status.text_eq_expired_iff`.
- `Status.shownSeconds_mono`: less time shows no more seconds.
- `View.ttlCell?`: the cell of a key in the last column; `Database.ttlCell?_eq_expired_iff`.
- `Record.status_countdown`: **the countdown**, which has run out exactly if a GET says so.
-/

namespace DocStore

theorem Millis.toInt_sub (a b : Millis) : (sub a b).toInt = clamp (a.toInt - b.toInt) :=
  toInt_ofIntClamp _

/-! ## The lifetime at a time -/

namespace Status

section Times

variable {expiresAt : Option Millis} {now : Millis}

/-- The lifetime that ends at a given moment. -/
theorem until_some (last now : Millis) : Status.until (some last) now =
    if last.toInt < now.toInt then .expired else .remaining (Millis.sub last now) := by
  simp only [Status.until, gt_iff_lt, Int64.lt_iff_toInt_lt]

theorem persistent_iff : Status.until expiresAt now = .persistent ↔ expiresAt = none := by
  cases expiresAt with
  | none => exact ⟨fun _ => rfl, fun _ => rfl⟩
  | some last =>
      rw [until_some]
      split <;> simp

theorem expired_iff :
    Status.until expiresAt now = .expired ↔ ∃ last ∈ expiresAt, last.toInt < now.toInt := by
  cases expiresAt with
  | none => simp [Status.until]
  | some last =>
      rw [until_some]
      split
      · rename_i hended
        simpa using hended
      · rename_i hlasts
        simpa using hlasts

/-- What is left of a lifetime that has not ended, in exact numbers. -/
theorem remaining_iff {left : Millis} : Status.until expiresAt now = .remaining left ↔
    ∃ last ∈ expiresAt, now.toInt ≤ last.toInt ∧
      left.toInt = min (last.toInt - now.toInt) 0x7fffffffffffffff := by
  cases expiresAt with
  | none => simp [Status.until]
  | some last =>
      have hsub : now.toInt ≤ last.toInt →
          (Millis.sub last now).toInt = min (last.toInt - now.toInt) 0x7fffffffffffffff := by
        intro hlasts
        rw [Millis.toInt_sub, Millis.clamp]
        omega
      rw [until_some]
      split
      · rename_i hended
        simpa using fun hlasts => absurd hended (not_lt.mpr hlasts)
      · rename_i hlasts
        rw [not_lt] at hlasts
        constructor
        · intro h
          cases h
          exact ⟨last, rfl, hlasts, hsub hlasts⟩
        · rintro ⟨other, hother, -, hleft⟩
          obtain rfl := Option.mem_some_iff.mp hother
          exact congrArg Status.remaining (Int64.toInt_inj.mp ((hsub hlasts).trans hleft.symm))

end Times

/-! ## Seconds -/

/-- The seconds that are shown of so many milliseconds: rounded up, as long as that stays within the range of
    times. -/
def shownSeconds (left : ℤ) : ℤ :=
  if left ≤ 9223372036854775000 then ⌈(left : ℚ) / 1000⌉ else 9223372036854775

/-- A thousandth is rounded up by adding 999 first. -/
theorem ceil_thousandth (n : ℤ) : ⌈(n : ℚ) / 1000⌉ = (n + 999) / 1000 := by
  have hceil := Rat.ceil_intCast_div_natCast n 1000
  push_cast at hceil
  rw [hceil]
  omega

theorem text_remaining {left : Millis} (h : 0 ≤ left.toInt) :
    (remaining left).text = toString (shownSeconds left.toInt) ++ "s" := by
  have hseconds : (Millis.add left 999).toInt.tdiv 1000 = shownSeconds left.toInt := by
    have hlimit := left.toInt_lt
    have hadded : (999 : Millis).toInt = 999 := rfl
    rw [Millis.toInt_add, hadded, Millis.clamp, shownSeconds, ceil_thousandth]
    rw [Int.tdiv_eq_ediv_of_nonneg (by omega)]
    split <;> omega
  rw [text, hseconds]

/-- **Less time shows no more seconds.** -/
theorem shownSeconds_mono {left rest : ℤ} (h : rest ≤ left) : shownSeconds rest ≤ shownSeconds left := by
  unfold shownSeconds
  rw [ceil_thousandth, ceil_thousandth]
  split <;> split <;> omega

/-- Only what has ended is shown as ended. -/
theorem text_eq_expired_iff (status : Status) : status.text = "Expired" ↔ status = .expired := by
  cases status with
  | persistent => simp [text]
  | expired => simp [text]
  | remaining duration =>
      refine ⟨fun h => ?_, fun h => by cases h⟩
      -- seconds end with their unit
      have hlast := congrArg (fun s : String => s.toList.getLast?) h
      rw [text] at hlast
      simp at hlast

end Status

/-! ## The last column -/

namespace View

/-- The cell of a key in the last column of the table. -/
def ttlCell? (db : Database) (now : Millis) (key : String) : Option (List Char) :=
  ((rows db now).find? fun row => row.key == key.toList).map Row.ttl

/-- A document is found in the table under its key. -/
theorem ttlCell?_of_found {db : Database} {key : String} {record : Record}
    (h : db.find? key = some record) (now : Millis) :
    ttlCell? db now key = some (record.status now).text.toList := by
  have hfound : ∀ entries : List (String × Record), entries.lookup key = some record →
      (entries.map fun entry => Row.ofRecord now entry.1 entry.2).find?
        (fun row => row.key == key.toList) = some (Row.ofRecord now key record) := by
    intro entries
    induction entries with
    | nil => exact fun h => nomatch h
    | cons entry entries ih =>
        intro h
        rw [KeyMap.lookup_cons_ite] at h
        rw [List.map_cons, List.find?_cons]
        split at h
        · rename_i hkey
          obtain rfl := Option.some.inj h
          simp [Row.ofRecord, hkey]
        · rename_i hkey
          have hother : (entry.1.toList == key.toList) = false := by
            simpa [String.toList_inj] using fun heq => hkey heq.symm
          simp only [Row.ofRecord] at ih ⊢
          rw [hother]
          exact ih h
  rw [ttlCell?, rows, hfound _ h]
  rfl

end View

/-- The text of a document starts with a brace, so it is not the notice of its end. -/
theorem Record.pretty_ne_notice (record : Record) : record.pretty ≠ Texts.expiredNotice := by
  intro htext
  have hhead := Database.head_pretty_object record.payload
  rw [← pretty, htext] at hhead
  exact absurd hhead (by decide)

/-- The table shows the end of a document exactly when a GET does. -/
theorem Database.ttlCell?_eq_expired_iff {db : Database} {key : String} {record : Record}
    (hfound : db.find? key = some record) (hne : key ≠ "")
    (hblank : ∀ c ∈ key.toList, Text.isBlank c = false) (now : Millis) :
    View.ttlCell? db now key = some "Expired".toList ↔
      (db.execute now ("GET " ++ key)).1 = some ⟨some .get, .ok Texts.expiredNotice⟩ := by
  rw [View.ttlCell?_of_found hfound, execute_get (names_get hne hblank), hfound,
    Option.some.injEq, String.toList_inj, Status.text_eq_expired_iff]
  dsimp only
  -- both sides ask for the status of the record
  cases hexpired : record.isExpired now with
  | true =>
      have hstatus : record.status now = .expired := beq_iff_eq.mp hexpired
      simp [hstatus]
  | false =>
      have hstatus : record.status now ≠ .expired := beq_eq_false_iff_ne.mp hexpired
      simp [hstatus, record.pretty_ne_notice]

/-- Where there is a document, the table is not the notice that there are none. -/
theorem Database.documentsView_of_found {db : Database} {key : String} {record : Record}
    (hfound : db.find? key = some record) (now : Millis) :
    (db.documentsView now).toList = View.lines (View.tableLines db now) := by
  rw [documentsView, String.toList_ofList, View.documents_eq (KeyMap.isEmpty_of_find? hfound)]

/-- **The countdown.** A record without an end never expires. One with an end has expired behind it, and until
    then so many milliseconds are left as the end lies ahead, or as many as the range of times has; they are
    shown as whole seconds, rounded up except at the end of the range. As time passes, what has expired stays
    so, and the seconds that are shown do not rise. The table of a database, which has a line for each of its
    documents, shows the end of a document at the very times at which a GET does. -/
theorem Record.status_countdown (record : Record) (now : Millis) :
    (record.status now = .persistent ↔ record.expiresAt = none) ∧
    (record.status now = .expired ↔ ∃ last ∈ record.expiresAt, last.toInt < now.toInt) ∧
    (∀ last ∈ record.expiresAt, now.toInt ≤ last.toInt →
      ∃ left, record.status now = .remaining left ∧
        left.toInt = min (last.toInt - now.toInt) 0x7fffffffffffffff ∧ 0 ≤ left.toInt ∧
        (record.status now).text = toString (Status.shownSeconds left.toInt) ++ "s") ∧
    (∀ later, now.toInt ≤ later.toInt →
      (record.status now = .expired → record.status later = .expired) ∧
      ∀ left rest, record.status now = .remaining left → record.status later = .remaining rest →
        Status.shownSeconds rest.toInt ≤ Status.shownSeconds left.toInt) ∧
    ∀ (db : Database) (key : String), db.find? key = some record → key ≠ "" →
      (∀ c ∈ key.toList, Text.isBlank c = false) →
      (db.documentsView now).toList = View.lines (View.tableLines db now) ∧
      (View.ttlCell? db now key = some "Expired".toList ↔
        (db.execute now ("GET " ++ key)).1 = some ⟨some .get, .ok Texts.expiredNotice⟩) := by
  refine ⟨Status.persistent_iff, Status.expired_iff, ?_, ?_, ?_⟩
  · intro last hlast hlasts
    have hstatus : record.status now = .remaining (Millis.sub last now) := by
      rw [status, Option.mem_def.mp hlast, Status.until_some, if_neg (not_lt.mpr hlasts)]
    obtain ⟨other, hother, -, hleft⟩ := Status.remaining_iff.mp hstatus
    obtain rfl := Option.mem_unique hlast hother
    have hnonneg : 0 ≤ (Millis.sub last now).toInt := by omega
    exact ⟨_, hstatus, hleft, hnonneg, hstatus ▸ Status.text_remaining hnonneg⟩
  · intro later hlater
    constructor
    · intro hexpired
      obtain ⟨last, hlast, hended⟩ := Status.expired_iff.mp hexpired
      exact Status.expired_iff.mpr ⟨last, hlast, lt_of_lt_of_le hended hlater⟩
    · intro left rest hleft hrest
      obtain ⟨last, hlast, -, hleft⟩ := Status.remaining_iff.mp hleft
      obtain ⟨other, hother, -, hrest⟩ := Status.remaining_iff.mp hrest
      obtain rfl := Option.mem_unique hlast hother
      exact Status.shownSeconds_mono (by omega)
  · intro db key hfound hne hblank
    exact ⟨Database.documentsView_of_found hfound now,
      Database.ttlCell?_eq_expired_iff hfound hne hblank now⟩

/-- The last millisecond of a lifetime, and the one behind it. -/
theorem Record.status_countdown_ends :
    let record := Record.create KeyMap.empty (some 5) 1000
    let db := Database.empty.insert "k" record
    record.status 1005 = .remaining 0 ∧ (record.status 1005).text = "0s" ∧
      record.status 1006 = .expired ∧ View.ttlCell? db 1006 "k" = some "Expired".toList ∧
      (db.execute 1006 ("GET " ++ "k")).1 = some ⟨some .get, .ok Texts.expiredNotice⟩ := by
  intro record db
  obtain ⟨-, hexpired, -, -, htable⟩ := record.status_countdown 1006
  have hstatus : record.status 1006 = .expired := hexpired.mpr ⟨1005, rfl, by decide⟩
  have hfound : db.find? "k" = some record := KeyMap.find?_insert_self _ _ _
  have hcell : View.ttlCell? db 1006 "k" = some "Expired".toList := by
    rw [View.ttlCell?_of_found hfound, hstatus]
    rfl
  have hkey : ∀ c ∈ "k".toList, Text.isBlank c = false := by simp [Text.isBlank]
  exact ⟨by decide, by decide, hstatus, hcell, (htable db "k" hfound (by decide) hkey).2.mp hcell⟩

end DocStore
