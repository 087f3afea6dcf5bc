import DocStore.Proofs.RangeBuckets

/-!
# Commands that commute

What a command answers and changes depends on the one document that it names, or on all documents if it
is a RANGE, and it changes no more than one document and one bucket. Hence two commands that touch
different places can be executed in either order.

## Contents
- `Change`: what a command does to a database; `Change.onDocument`, `Change.onBucket`: what becomes of each
  document and of each bucket.
- `Change.Spares`, `Change.commutes_of_spares`: changes at different places commute.
- `Change.Of`, `Sees`: the changes that a command may make, and what it looks at.
- `Database.Determined`: a line does the same wherever it finds the same, with a lemma for each command;
  `Database.execute_determined`: **a command depends on what it looks at**.
- `Independent`, `Database.execute_comm`: **independent commands commute**.
-/

namespace DocStore

theorem KeyMap.insert_comm {α : Type} (m : KeyMap α) {key other : String} (h : key ≠ other)
    (x y : α) : (m.insert key x).insert other y = (m.insert other y).insert key x := by
  apply KeyMap.ext_find?
  intro name
  simp only [KeyMap.find?_insert]
  by_cases hkey : name = key
  · have hother : name ≠ other := fun hname => h (hkey.symm.trans hname)
    simp [hkey, h]
  · simp [hkey]

/-! ## Changes -/

/-- What a command does to a database. -/
inductive Change
  | keep
  | store (key : String) (record : Record)
  | drop (key : String)
  | note (base field : String) (value : Json)
  | replace (name : String) (bucket : Bucket)

namespace Change

/-- What becomes of the document of a key. -/
def onDocument (change : Change) (name : String) (old : Option Record) : Option Record :=
  match change with
  | .store key record => if name = key then some record else old
  | .drop key => if name = key then none else old
  | _ => old

/-- What becomes of the bucket of a name. -/
def onBucket (change : Change) (name : String) (old : Option Bucket) : Option Bucket :=
  match change with
  | .drop key => if name = key then none else old
  | .note base field value =>
    if name = base then some ((old.getD KeyMap.empty).insert field value) else old
  | .replace key bucket => if name = key then some bucket else old
  | _ => old

end Change

namespace Database

/-- The database after a change. -/
def apply (db : Database) : Change → Database
  | .keep => db
  | .store key record => db.insert key record
  | .drop key => ⟨db.documents.erase key, db.indices.erase key⟩
  | .note base field value => db.setIndexEntry base field value
  | .replace name bucket => db.replaceBucket name bucket

theorem find?_apply (db : Database) (change : Change) (name : String) :
    (db.apply change).find? name = change.onDocument name (db.find? name) := by
  cases change with
  | keep => rfl
  | store key record => exact KeyMap.find?_insert _ _ _ _
  | drop key => exact KeyMap.find?_erase _ _ _
  | note base field value => rfl
  | replace name bucket => rfl

theorem bucket?_apply (db : Database) (change : Change) (name : String) :
    (db.apply change).bucket? name = change.onBucket name (db.bucket? name) := by
  cases change with
  | keep => rfl
  | store key record => rfl
  | drop key => exact KeyMap.find?_erase _ _ _
  | note base field value =>
      have hlookup : (db.apply (.note base field value)).bucket? name =
          if name = base then some (((db.bucket? base).getD KeyMap.empty).insert field value)
          else db.bucket? name := KeyMap.find?_insert _ _ _ _
      rw [hlookup]
      unfold Change.onBucket
      by_cases hname : name = base
      · rw [hname]
      · simp only [if_neg hname]
  | replace key bucket => exact KeyMap.find?_insert _ _ _ _

/-- Databases with the same documents and buckets are equal. -/
theorem ext_lookups {a b : Database} (hdocuments : ∀ name, a.find? name = b.find? name)
    (hbuckets : ∀ name, a.bucket? name = b.bucket? name) : a = b := by
  obtain ⟨documents, indices⟩ := a
  obtain ⟨documents', indices'⟩ := b
  obtain rfl : documents = documents' := KeyMap.ext_find? hdocuments
  obtain rfl : indices = indices' := KeyMap.ext_find? hbuckets
  rfl

end Database

/-! ## Changes that commute -/

namespace Change

/-- Whether two changes come to the same in either order. -/
def Commutes (change other : Change) : Prop :=
  ∀ db : Database, (db.apply change).apply other = (db.apply other).apply change

/-- Whether a change leaves the document and the bucket of a name alone. -/
def Spares (change : Change) (name : String) : Prop :=
  (∀ old, change.onDocument name old = old) ∧ ∀ old, change.onBucket name old = old

/-- **Changes at different places commute**: of each name, one of them leaves the document and the bucket
    alone. -/
theorem commutes_of_spares {change other : Change}
    (h : ∀ name, change.Spares name ∨ other.Spares name) : change.Commutes other := by
  intro db
  apply Database.ext_lookups
  · intro name
    simp only [Database.find?_apply]
    rcases h name with hspares | hspares
    · rw [hspares.1, hspares.1]
    · rw [hspares.1, hspares.1]
  · intro name
    simp only [Database.bucket?_apply]
    rcases h name with hspares | hspares
    · rw [hspares.2, hspares.2]
    · rw [hspares.2, hspares.2]

theorem keep_spares (name : String) : keep.Spares name :=
  ⟨fun _ => rfl, fun _ => rfl⟩

theorem store_spares {key name : String} (h : name ≠ key) (record : Record) :
    (store key record).Spares name :=
  ⟨fun _ => if_neg h, fun _ => rfl⟩

theorem drop_spares {key name : String} (h : name ≠ key) : (drop key).Spares name :=
  ⟨fun _ => if_neg h, fun _ => if_neg h⟩

theorem note_spares {base name : String} (h : name ≠ base) (field : String) (value : Json) :
    (note base field value).Spares name :=
  ⟨fun _ => rfl, fun _ => if_neg h⟩

theorem replace_spares {key name : String} (h : name ≠ key) (bucket : Bucket) :
    (replace key bucket).Spares name :=
  ⟨fun _ => rfl, fun _ => if_neg h⟩

/-- Notes of different fields commute, also in one bucket. -/
theorem note_commutes {base field other : String} (h : field ≠ other) (value value' : Json) :
    (note base field value).Commutes (note base other value') := by
  intro db
  apply Database.ext_lookups
  · intro name
    rfl
  · intro name
    simp only [Database.bucket?_apply, onBucket]
    by_cases hname : name = base
    · simp only [if_pos hname, Option.getD_some]
      rw [KeyMap.insert_comm _ h]
    · simp only [if_neg hname]

end Change

/-! ## What a command looks at and what it changes -/

/-- The bucket that a RANGE with these arguments fills, if it succeeds. -/
def rangeTarget? (args : List String) : Option String :=
  match args with
  | [] => none
  | field :: rest =>
    (Decimal.parseNumber ((rest[0]?).getD "").toList).bind fun low =>
      (Decimal.parseNumber ((rest[1]?).getD "").toList).map fun high =>
        Database.rangeBucketName field low high

/-- The changes that a command with these arguments may make to a database. -/
inductive Change.Of (db : Database) : Command → List String → Change → Prop
  | keep (command : Command) (args : List String) : Change.Of db command args .keep
  | store (key : String) (rest : List String) (record : Record) :
      Change.Of db .set (key :: rest) (.store key record)
  | drop (key : String) (rest : List String) : Change.Of db .del (key :: rest) (.drop key)
  | note (base field : String) (rest : List String) (value : Json) :
      Change.Of db .index (base :: field :: rest) (.note base field value)
  | replace {field : String} {rest : List String} {low high : Binary64}
      (lower : Decimal.parseNumber ((rest[0]?).getD "").toList = some low)
      (upper : Decimal.parseNumber ((rest[1]?).getD "").toList = some high) :
      Change.Of db .range (field :: rest) (.replace (Database.rangeBucketName field low high)
        ((db.rangeScan field low high).map Json.object))

/-- Whether a command with these arguments finds the same in two databases: the same documents if it is a
    RANGE, otherwise the same document under its key. -/
def Sees (command : Command) (args : List String) (db other : Database) : Prop :=
  match command with
  | .range => other.documents = db.documents
  | _ => ∀ key ∈ args.head?, other.find? key = db.find? key

theorem sees_of_documents {db other : Database} (h : other.documents = db.documents)
    (command : Command) (args : List String) : Sees command args db other := by
  have hkeys : ∀ key ∈ args.head?, other.find? key = db.find? key := by
    intro key _
    unfold Database.find?
    rw [h]
  cases command with
  | range => exact h
  | _ => exact hkeys

namespace Database

variable {db : Database} {now : Millis} {line : String} {command : Command} {args : List String}

/-- Whether a line, with a command and its arguments, does one and the same in every database in which it
    finds what it finds in this one. -/
def Determined (db : Database) (now : Millis) (line : String) (command : Command)
    (args : List String) : Prop :=
  ∃ reply change, Change.Of db command args change ∧
    ∀ other, Sees command args db other → other.execute now line = (reply, other.apply change)

theorem determined_of_error (hnames : Names line command args) {error : CommandError}
    (h : ∀ other, Sees command args db other → other.run now command args = .error error) :
    Determined db now line command args := by
  refine ⟨some ⟨some command, .error error⟩, .keep, .keep command args, ?_⟩
  intro other hsees
  rw [execute_of_names hnames, h other hsees]
  rfl

theorem determined_of_ok (hnames : Names line command args) {text : String} {change : Change}
    (hof : Change.Of db command args change)
    (h : ∀ other, Sees command args db other →
      other.run now command args = .ok (text, other.apply change)) :
    Determined db now line command args := by
  refine ⟨some ⟨some command, .ok text⟩, change, hof, ?_⟩
  intro other hsees
  rw [execute_of_names hnames, h other hsees]

/-- A SET finds all that it needs on its line. -/
theorem determined_set (hnames : Names line .set args) : Determined db now line .set args := by
  cases args with
  | nil => exact determined_of_error hnames fun _ _ => rfl
  | cons key rest =>
      cases hspan : PayloadSpan.find? rest with
      | none =>
          apply determined_of_error hnames
          intro other _
          simp only [run, set, hspan]
          rfl
      | some span =>
          cases hparsed : Json.parseObject (Text.Utf8.encode span.json.toList) with
          | error report =>
              apply determined_of_error hnames
              intro other _
              simp only [run, set, hspan, hparsed]
              rfl
          | ok payload =>
              apply determined_of_ok hnames (.store key rest _)
              intro other _
              simp only [run, set, hspan, hparsed]
              rfl

theorem determined_get (hnames : Names line .get args) : Determined db now line .get args := by
  cases args with
  | nil => exact determined_of_error hnames fun _ _ => rfl
  | cons key rest =>
      cases hfound : db.find? key with
      | none =>
          apply determined_of_error hnames
          intro other hsees
          simp only [run, get, hsees key rfl, hfound]
          rfl
      | some record =>
          cases hexpired : record.isExpired now with
          | true =>
              apply determined_of_ok hnames (.keep .get _)
              intro other hsees
              simp only [run, get, hsees key rfl, hfound, hexpired]
              rfl
          | false =>
              apply determined_of_ok hnames (.keep .get _)
              intro other hsees
              simp only [run, get, hsees key rfl, hfound, hexpired]
              rfl

theorem determined_del (hnames : Names line .del args) : Determined db now line .del args := by
  cases args with
  | nil => exact determined_of_error hnames fun _ _ => rfl
  | cons key rest =>
      cases hfound : db.find? key with
      | none =>
          apply determined_of_error hnames
          intro other hsees
          simp only [run, del, hsees key rfl, hfound]
          rfl
      | some record =>
          apply determined_of_ok hnames (.drop key rest)
          intro other hsees
          have hother : other.find? key = some record := (hsees key rfl).trans hfound
          simp only [run, del, hother, remove_of_found hother]
          rfl

theorem determined_index (hnames : Names line .index args) : Determined db now line .index args := by
  cases args with
  | nil => exact determined_of_error hnames fun _ _ => rfl
  | cons base rest =>
      cases hfound : db.find? base with
      | none =>
          apply determined_of_error hnames
          intro other hsees
          simp only [run, index, hsees base rfl, hfound]
          rfl
      | some record =>
          rcases rest with _ | ⟨field, _ | ⟨value, rest⟩⟩
          · apply determined_of_error hnames
            intro other hsees
            simp only [run, index, hsees base rfl, hfound]
            rfl
          · apply determined_of_error hnames
            intro other hsees
            simp only [run, index, hsees base rfl, hfound]
            rfl
          · cases hchecked : checkEntry record field value with
            | error error =>
                apply determined_of_error hnames
                intro other hsees
                simp only [run, index, hsees base rfl, hfound, hchecked]
                rfl
            | ok _ =>
                apply determined_of_ok hnames (.note base field _ (Json.string value))
                intro other hsees
                simp only [run, index, hsees base rfl, hfound, hchecked]
                rfl

theorem determined_range (hnames : Names line .range args) : Determined db now line .range args := by
  cases args with
  | nil => exact determined_of_error hnames fun _ _ => rfl
  | cons field rest =>
      cases hlow : Decimal.parseNumber ((rest[0]?).getD "").toList with
      | none =>
          apply determined_of_error hnames
          intro other _
          simp only [run, range, hlow]
          rfl
      | some low =>
          cases hhigh : Decimal.parseNumber ((rest[1]?).getD "").toList with
          | none =>
              apply determined_of_error hnames
              intro other _
              simp only [run, range, hlow, hhigh]
              rfl
          | some high =>
              apply determined_of_ok hnames (.replace hlow hhigh)
              intro other hsees
              have hscan : other.rangeScan field low high = db.rangeScan field low high := by
                unfold rangeScan
                rw [show other.documents = db.documents from hsees]
              simp only [run, range, hlow, hhigh, hscan]
              rfl

/-- **A command depends on what it looks at**: its reply and its change are the same in every database in
    which it finds the same. -/
theorem execute_determined (db : Database) (now : Millis) (hnames : Names line command args) :
    Determined db now line command args := by
  cases command with
  | set => exact determined_set hnames
  | get => exact determined_get hnames
  | del => exact determined_del hnames
  | index => exact determined_index hnames
  | range => exact determined_range hnames

end Database

/-! ## Independent commands -/

/-- Whether two commands with their arguments have nothing to do with each other. -/
inductive Independent : Command → List String → Command → List String → Prop
  /-- Commands on documents with different keys. -/
  | keys {command other : Command} {args others : List String} (document : command ≠ .range)
      (document' : other ≠ .range) (apart : ∀ key ∈ args.head?, key ∉ others.head?) :
      Independent command args other others
  | ranges (args others : List String) : Independent .range args .range others
  | rangeGet (args others : List String) : Independent .range args .get others
  /-- A RANGE and an INDEX whose base is not the bucket of the RANGE. -/
  | rangeIndex {args others : List String}
      (apart : ∀ name ∈ rangeTarget? args, name ∉ others.head?) :
      Independent .range args .index others
  /-- Two INDEX with one base and different fields. -/
  | fields {base : String} {rest others : List String}
      (apart : ∀ field ∈ rest.head?, field ∉ others.head?) :
      Independent .index (base :: rest) .index (base :: others)

/-- A command on a document leaves everything of another name alone. -/
theorem Change.Of.spares {db : Database} {command : Command} {args : List String} {change : Change}
    (h : Change.Of db command args change) (hdocument : command ≠ .range) {name : String}
    (hname : name ∉ args.head?) : change.Spares name := by
  have hne : ∀ {key : String} {rest : List String}, name ∉ (key :: rest).head? → name ≠ key := by
    intro key rest hnone hsame
    apply hnone
    rw [hsame]
    rfl
  cases h with
  | keep _ _ => exact Change.keep_spares name
  | store key rest record => exact Change.store_spares (hne hname) record
  | drop key rest => exact Change.drop_spares (hne hname)
  | note base field rest value => exact Change.note_spares (hne hname) field value
  | replace _ _ => exact absurd rfl hdocument

/-- A RANGE leaves everything but its bucket alone. -/
theorem Change.Of.spares_range {db : Database} {args : List String} {change : Change}
    (h : Change.Of db .range args change) {name : String} (hname : name ∉ rangeTarget? args) :
    change.Spares name := by
  cases h with
  | keep _ _ => exact Change.keep_spares name
  | replace lower upper =>
      apply Change.replace_spares
      intro hsame
      apply hname
      rw [hsame, rangeTarget?, lower, upper]
      rfl

/-- Only a SET and a DEL change documents. -/
theorem Change.Of.documents {db other : Database} {command : Command} {args : List String}
    {change : Change} (h : Change.Of db command args change) (hset : command ≠ .set)
    (hdel : command ≠ .del) : (other.apply change).documents = other.documents := by
  cases h with
  | keep _ _ => rfl
  | store _ _ _ => exact absurd rfl hset
  | drop _ _ => exact absurd rfl hdel
  | note _ _ _ _ => rfl
  | replace _ _ => rfl

/-- Two RANGE commute: they fill different buckets, or they are the same query. -/
theorem Change.Of.ranges_commute {db : Database} {args others : List String} {change other : Change}
    (h : Change.Of db .range args change) (h' : Change.Of db .range others other) :
    change.Commutes other := by
  cases h with
  | keep _ _ => exact Change.commutes_of_spares fun name => Or.inl (Change.keep_spares name)
  | @replace field rest low high lower upper =>
      cases h' with
      | keep _ _ => exact Change.commutes_of_spares fun name => Or.inr (Change.keep_spares name)
      | @replace field' rest' low' high' lower' upper' =>
          by_cases hname : Database.rangeBucketName field low high =
              Database.rangeBucketName field' low' high'
          · obtain ⟨rfl, hlow, hhigh⟩ :=
              Database.rangeBucketName_inj (Decimal.isNaN_of_parseNumber lower)
                (Decimal.isNaN_of_parseNumber upper) (Decimal.isNaN_of_parseNumber lower')
                (Decimal.isNaN_of_parseNumber upper') hname
            rw [hname, Database.rangeScan_congr hlow hhigh]
            exact fun _ => rfl
          · apply Change.commutes_of_spares
            intro name
            by_cases hfirst : name = Database.rangeBucketName field low high
            · apply Or.inr
              apply Change.replace_spares
              rw [hfirst]
              exact hname
            · exact Or.inl (Change.replace_spares hfirst _)

/-- The changes of independent commands commute. -/
theorem Independent.commutes {db : Database} {command other : Command} {args others : List String}
    {change change' : Change} (h : Independent command args other others)
    (hof : Change.Of db command args change) (hof' : Change.Of db other others change') :
    change.Commutes change' := by
  cases h with
  | keys document document' apart =>
      apply Change.commutes_of_spares
      intro name
      by_cases hname : name ∈ args.head?
      · exact Or.inr (hof'.spares document' (apart name hname))
      · exact Or.inl (hof.spares document hname)
  | ranges _ _ => exact hof.ranges_commute hof'
  | rangeGet _ _ =>
      cases hof' with
      | keep _ _ => exact Change.commutes_of_spares fun name => Or.inr (Change.keep_spares name)
  | rangeIndex apart =>
      apply Change.commutes_of_spares
      intro name
      by_cases hname : name ∈ rangeTarget? args
      · exact Or.inr (hof'.spares Command.noConfusion (apart name hname))
      · exact Or.inl (hof.spares_range hname)
  | fields apart =>
      cases hof with
      | keep _ _ => exact Change.commutes_of_spares fun name => Or.inl (Change.keep_spares name)
      | note base field rest value =>
          cases hof' with
          | keep _ _ => exact Change.commutes_of_spares fun name => Or.inr (Change.keep_spares name)
          | note _ field' rest' value' =>
              apply Change.note_commutes
              intro hsame
              apply apart field rfl
              rw [hsame]
              rfl

/-- A command on a document still finds the same after a change that spares its key. -/
theorem sees_of_spares {db : Database} {command : Command} {args : List String} {change : Change}
    (hdocument : command ≠ .range) (h : ∀ key ∈ args.head?, change.Spares key) :
    Sees command args db (db.apply change) := by
  have hkeys : ∀ key ∈ args.head?, (db.apply change).find? key = db.find? key := by
    intro key hkey
    rw [Database.find?_apply, (h key hkey).1]
  cases command with
  | range => exact absurd rfl hdocument
  | _ => exact hkeys

/-- What one of two independent commands changes is not what the other one looks at. -/
theorem Independent.sees {db : Database} {command other : Command} {args others : List String}
    {change change' : Change} (h : Independent command args other others)
    (hof : Change.Of db command args change) (hof' : Change.Of db other others change') :
    Sees command args db (db.apply change') ∧ Sees other others db (db.apply change) := by
  have hquiet : command ≠ .set → command ≠ .del → other ≠ .set → other ≠ .del →
      Sees command args db (db.apply change') ∧ Sees other others db (db.apply change) := by
    intro hset hdel hset' hdel'
    exact ⟨sees_of_documents (hof'.documents hset' hdel') command args,
      sees_of_documents (hof.documents hset hdel) other others⟩
  cases h with
  | keys document document' apart =>
      constructor
      · apply sees_of_spares document
        intro key hkey
        exact hof'.spares document' (apart key hkey)
      · apply sees_of_spares document'
        intro key hkey
        apply hof.spares document
        intro hsame
        exact apart key hsame hkey
  | ranges _ _ => apply hquiet <;> exact Command.noConfusion
  | rangeGet _ _ => apply hquiet <;> exact Command.noConfusion
  | rangeIndex _ => apply hquiet <;> exact Command.noConfusion
  | fields _ => apply hquiet <;> exact Command.noConfusion

namespace Database

/-- **Independent commands commute**, in every database and at any two times: in either order they leave
    the same database behind, and each of the two lines gets the same reply. -/
theorem execute_comm (db : Database) (now now' : Millis) {line line' : String}
    {command command' : Command} {args args' : List String} (hnames : Names line command args)
    (hnames' : Names line' command' args') (h : Independent command args command' args') :
    ((db.execute now line).2.execute now' line').2 = ((db.execute now' line').2.execute now line).2 ∧
    ((db.execute now' line').2.execute now line).1 = (db.execute now line).1 ∧
    ((db.execute now line).2.execute now' line').1 = (db.execute now' line').1 := by
  obtain ⟨reply, change, hof, hexecute⟩ := execute_determined db now hnames
  obtain ⟨reply', change', hof', hexecute'⟩ := execute_determined db now' hnames'
  obtain ⟨hsees, hsees'⟩ := h.sees hof hof'
  rw [hexecute db (sees_of_documents rfl command args),
    hexecute' db (sees_of_documents rfl command' args'), hexecute _ hsees, hexecute' _ hsees']
  exact ⟨h.commutes hof hof' db, rfl, rfl⟩

/-- Two notes on one document go into one bucket in either order. -/
theorem execute_comm_notes :
    Names "INDEX k a 1" .index ["k", "a", "1"] ∧ Names "INDEX k b 2" .index ["k", "b", "2"] ∧
    Independent .index ["k", "a", "1"] .index ["k", "b", "2"] ∧
    (((empty.execute 0 "SET k \x7b\"a\":1,\"b\":2\x7d").2.execute 1 "INDEX k a 1").2.execute 2
        "INDEX k b 2").2 =
      (((empty.execute 0 "SET k \x7b\"a\":1,\"b\":2\x7d").2.execute 2 "INDEX k b 2").2.execute 1
        "INDEX k a 1").2 := by
  have hfirst : Names "INDEX k a 1" .index ["k", "a", "1"] :=
    ⟨⟨"INDEX", ["k", "a", "1"]⟩, by decide +kernel, by decide, rfl⟩
  have hsecond : Names "INDEX k b 2" .index ["k", "b", "2"] :=
    ⟨⟨"INDEX", ["k", "b", "2"]⟩, by decide +kernel, by decide, rfl⟩
  have hapart : Independent .index ["k", "a", "1"] .index ["k", "b", "2"] := .fields (by simp)
  exact ⟨hfirst, hsecond, hapart, (execute_comm _ 1 2 hfirst hsecond hapart).1⟩

end Database

end DocStore
