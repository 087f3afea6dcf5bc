import DocStore.Command.Execute

/-!
# What a line can do

All that the execution of a line can do to a database, with everything that was checked before. What
every line keeps is proved from these cases, without looking into the commands again.

## Contents
- `Script`: lines with their times.
- `Names`: the command and the arguments of a line; `names_of_words`, `names_joined`: how they are found;
  `Names.arg_word`: what an argument is.
- `Database.Step`: the cases; `Database.execute_step`: **every execution is one of them**.
- `Database.Step.eq_of_quiet`: a step after which nothing is saved changes nothing.
-/

namespace DocStore

open Text.Utf8 (encode)

/-- Lines with the times at which they are executed. -/
abbrev Script := List (Millis × String)

/-- Whether the verb of a line names a command, and the words after it are the given arguments. -/
def Names (line : String) (command : Command) (args : List String) : Prop :=
  ∃ parsed, CommandLine.parse line = some parsed ∧
    Command.lookup parsed.verb = some command ∧ parsed.args = args

/-- Words with single blanks between them are cut into these words. -/
theorem Text.words_intercalate {tokens : List (List Char)}
    (h : ∀ token ∈ tokens, token ≠ [] ∧ ∀ c ∈ token, Text.isBlank c = false) :
    Text.words (List.intercalate [' '] tokens) = tokens := by
  induction tokens with
  | nil => rfl
  | cons token rest ih =>
      obtain ⟨⟨hne, hblank⟩, hrest⟩ := List.forall_mem_cons.mp h
      cases rest with
      | nil => rw [List.intercalate_singleton, Text.words_word hne hblank]
      | cons next rest =>
          rw [List.intercalate_cons_cons, List.append_assoc, List.singleton_append,
            Text.words_append_blank hne hblank (by decide), ih hrest]

theorem toList_joinTokens (tokens : List (List Char)) :
    joinTokens (tokens.map String.ofList) = String.ofList (List.intercalate [' '] tokens) := by
  have hback : (tokens.map String.ofList).map String.toList = tokens := by
    rw [List.map_map]
    exact (List.map_congr_left fun token _ => String.toList_ofList).trans (List.map_id tokens)
  rw [← String.toList_inj, String.toList_ofList, joinTokens, String.toList_intercalate, hback]
  rfl

/-- The first word of a line names its command, and the other ones are the arguments. -/
theorem names_of_words {chars verb : List Char} {args : List (List Char)} {command : Command}
    (hwords : Text.words chars = verb :: args)
    (hlookup : Command.lookup (String.ofList (Text.uppercase verb)) = some command) :
    Names (String.ofList chars) command (args.map String.ofList) := by
  refine ⟨⟨String.ofList verb, args.map String.ofList⟩, ?_, ?_, rfl⟩
  · rw [CommandLine.parse, String.toList_ofList, hwords]
  · rw [CommandLine.verb, String.toList_ofList]
    exact hlookup

/-- A line that is put together from its words. -/
theorem names_joined {verb : String} {args : List String} {command : Command}
    (hwords : ∀ token ∈ verb :: args, token.toList ≠ [] ∧ ∀ c ∈ token.toList, Text.isBlank c = false)
    (hlookup : Command.lookup (String.ofList (Text.uppercase verb.toList)) = some command) :
    Names (joinTokens (verb :: args)) command args := by
  have hback : ∀ tokens : List String, (tokens.map String.toList).map String.ofList = tokens := by
    intro tokens
    rw [List.map_map]
    exact (List.map_congr_left fun token _ => String.ofList_toList).trans (List.map_id tokens)
  have hcut : Text.words (List.intercalate [' '] ((verb :: args).map String.toList)) =
      (verb :: args).map String.toList :=
    Text.words_intercalate (List.forall_mem_map.mpr hwords)
  have hnames := names_of_words hcut hlookup
  rwa [← toList_joinTokens, hback, hback] at hnames

/-- An argument of a line is a word: it is not empty and holds no blank. -/
theorem Names.arg_word {line : String} {command : Command} {args : List String}
    (h : Names line command args) :
    ∀ arg ∈ args, arg.toList ≠ [] ∧ ∀ c ∈ arg.toList, Text.isBlank c = false := by
  obtain ⟨parsed, hparse, -, rfl⟩ := h
  intro arg harg
  unfold CommandLine.parse at hparse
  split at hparse
  · cases hparse
  · rename_i first rest hwords
    cases hparse
    obtain ⟨word, hword, rfl⟩ := List.mem_map.mp harg
    have hmem : word ∈ Text.words line.toList := by
      rw [hwords]
      exact List.mem_cons_of_mem _ hword
    rw [String.toList_ofList]
    exact Text.mem_words hmem

/-- No argument of a line is empty. -/
theorem Names.arg_ne_empty {line : String} {command : Command} {args : List String}
    (h : Names line command args) : ∀ arg ∈ args, arg ≠ "" := by
  intro arg harg hempty
  apply (h.arg_word arg harg).1
  rw [hempty]
  rfl

/-- One token that starts an object, and is no number, is the whole document. -/
theorem PayloadSpan.find?_singleton {token : String} (hopens : opensObject token = true)
    (hnumber : Decimal.parseNumber token.toList = none) :
    PayloadSpan.find? [token] = some ⟨token, none⟩ := by
  have hdrop : [token].dropWhile (fun token => !opensObject token) = [token] := by
    simp [hopens]
  simp only [PayloadSpan.find?, hdrop, List.getLast?_singleton, Option.bind_some, hnumber, joinTokens]
  rfl

namespace Database

/-- What a line executed at a time does to a database: the reply and the database after it. -/
inductive Step (db : Database) (now : Millis) (line : String) : Option Reply → Database → Prop
  /-- A blank line, a read, or a command that failed. -/
  | keep {reply : Option Reply} (quiet : ∀ r ∈ reply, r.mutated = false) : Step db now line reply db
  | store {key : String} {rest : List String} {span : PayloadSpan} {payload : Payload}
      (names : Names line .set (key :: rest)) (found : PayloadSpan.find? rest = some span)
      (parsed : Json.parseObject (encode span.json.toList) = .ok payload) :
      Step db now line (some ⟨some .set, .ok Texts.stored⟩)
        (db.insert key (Record.create payload (span.ttl.map Binary64.truncate) now))
  | drop {key : String} {rest : List String} {record : Record}
      (names : Names line .del (key :: rest)) (found : db.find? key = some record) :
      Step db now line (some ⟨some .del, .ok ("Deleted key: " ++ key)⟩) (db.remove key)
  | note {base field value : String} {rest : List String} {record : Record}
      (names : Names line .index (base :: field :: value :: rest)) (found : db.find? base = some record)
      (checked : checkEntry record field value = .ok ()) :
      Step db now line (some ⟨some .index, .ok Texts.indexed⟩)
        (db.setIndexEntry base field (Json.string value))
  | scan {field : String} {rest : List String} {low high : Binary64}
      (names : Names line .range (field :: rest))
      (lower : Decimal.parseNumber ((rest[0]?).getD "").toList = some low)
      (upper : Decimal.parseNumber ((rest[1]?).getD "").toList = some high) :
      Step db now line
        (some ⟨some .range, .ok (matchesText ((db.rangeScan field low high).map Json.object))⟩)
        (db.replaceBucket (rangeBucketName field low high)
          ((db.rangeScan field low high).map Json.object))

/-- A command that failed keeps the database. -/
theorem Step.failed (db : Database) (now : Millis) (line : String) (command : Option Command)
    (error : CommandError) : Step db now line (some ⟨command, .error error⟩) db := by
  refine .keep ?_
  intro r hr
  obtain rfl := Option.mem_some_iff.mp hr
  rfl

variable {db : Database} {now : Millis} {line : String}

/-- The reply and the database of a command that was run. -/
theorem execute_of_names {command : Command} {args : List String} (h : Names line command args) :
    db.execute now line =
      match db.run now command args with
      | .error error => (some ⟨some command, .error error⟩, db)
      | .ok (text, after) => (some ⟨some command, .ok text⟩, after) := by
  obtain ⟨parsed, hparse, hlookup, rfl⟩ := h
  simp only [execute, hparse, executeLine, hlookup]
  cases db.run now command parsed.args with
  | error error => rfl
  | ok answer => rfl

/-- A line with a key and a document in one word stores the document. -/
theorem execute_set {chars verb key json : List Char} {payload : Payload}
    (hwords : Text.words chars = [verb, key, json])
    (hlookup : Command.lookup (String.ofList (Text.uppercase verb)) = some .set)
    (hopens : json.head? = some '\x7b') (hnumber : Decimal.parseNumber json = none)
    (hparsed : Json.parseObject (encode json) = .ok payload) :
    db.execute now (String.ofList chars) = (some ⟨some .set, .ok Texts.stored⟩,
      db.insert (String.ofList key) (Record.create payload none now)) := by
  have hspan : PayloadSpan.find? [String.ofList json] = some ⟨String.ofList json, none⟩ := by
    refine PayloadSpan.find?_singleton ?_ ?_
    · rw [opensObject, String.toList_ofList, hopens]
      rfl
    · rw [String.toList_ofList, hnumber]
  rw [execute_of_names (names_of_words hwords hlookup)]
  simp only [List.map, run, set, hspan, String.toList_ofList, hparsed]
  rfl

/-- The step of a command, once it is known what the command gives. -/
theorem step_of_run {command : Command} {args : List String} (h : Names line command args)
    (hrun : ∀ text after, db.run now command args = .ok (text, after) →
      Step db now line (some ⟨some command, .ok text⟩) after) :
    Step db now line (db.execute now line).1 (db.execute now line).2 := by
  rw [execute_of_names h]
  cases hresult : db.run now command args with
  | error error => exact Step.failed db now line _ error
  | ok answer => exact hrun _ _ hresult

theorem set_step {args : List String} (h : Names line .set args) {text : String} {after : Database}
    (hrun : db.set now args = .ok (text, after)) :
    Step db now line (some ⟨some .set, .ok text⟩) after := by
  unfold set at hrun
  split at hrun
  · cases hrun
  split at hrun
  · cases hrun
  · rename_i span hspan
    split at hrun
    · cases hrun
    · rename_i payload hpayload
      cases hrun
      exact .store h hspan hpayload

theorem get_step {args : List String} {text : String} {after : Database}
    (hrun : db.get now args = .ok (text, after)) :
    Step db now line (some ⟨some .get, .ok text⟩) after := by
  have quiet : ∀ text, Step db now line (some ⟨some .get, .ok text⟩) db := fun text => by
    refine .keep ?_
    intro r hr
    obtain rfl := Option.mem_some_iff.mp hr
    rfl
  unfold get at hrun
  split at hrun
  · cases hrun
  split at hrun
  · cases hrun
  split at hrun
  · cases hrun
    exact quiet _
  · cases hrun
    exact quiet _

theorem del_step {args : List String} (h : Names line .del args) {text : String} {after : Database}
    (hrun : db.del args = .ok (text, after)) :
    Step db now line (some ⟨some .del, .ok text⟩) after := by
  unfold del at hrun
  split at hrun
  · cases hrun
  split at hrun
  · cases hrun
  · rename_i record hfound
    cases hrun
    exact .drop h hfound

theorem index_step {args : List String} (h : Names line .index args) {text : String}
    {after : Database} (hrun : db.index args = .ok (text, after)) :
    Step db now line (some ⟨some .index, .ok text⟩) after := by
  unfold index at hrun
  split at hrun
  · cases hrun
  split at hrun
  · cases hrun
  rename_i record hfound
  split at hrun
  · cases hrun
  · cases hrun
  · split at hrun
    · cases hrun
    · rename_i hcheck
      cases hrun
      exact .note h hfound hcheck

theorem range_step {args : List String} (h : Names line .range args) {text : String}
    {after : Database} (hrun : db.range args = .ok (text, after)) :
    Step db now line (some ⟨some .range, .ok text⟩) after := by
  unfold range at hrun
  split at hrun
  · cases hrun
  dsimp only at hrun
  split at hrun
  · rename_i low high hlow hhigh
    cases hrun
    exact .scan h hlow hhigh
  · cases hrun

/-- **Every execution is a step.** -/
theorem execute_step (db : Database) (now : Millis) (line : String) :
    Step db now line (db.execute now line).1 (db.execute now line).2 := by
  cases hparse : CommandLine.parse line with
  | none =>
      rw [execute, hparse]
      refine .keep ?_
      intro r hr
      cases hr
  | some parsed =>
      cases hlookup : Command.lookup parsed.verb with
      | none =>
          rw [execute, hparse]
          simp only [executeLine, hlookup]
          exact Step.failed db now line none _
      | some command =>
          have hnames : Names line command parsed.args := ⟨parsed, hparse, hlookup, rfl⟩
          -- a command that fails keeps the database, so only its successes are left
          refine step_of_run hnames ?_
          intro text after hrun
          cases command with
          | set => exact set_step hnames hrun
          | get => exact get_step hrun
          | del => exact del_step hnames hrun
          | index => exact index_step hnames hrun
          | range => exact range_step hnames hrun

/-- A step after which nothing is saved changes nothing. -/
theorem Step.eq_of_quiet {reply : Option Reply} {after : Database} (h : Step db now line reply after)
    (quiet : ∀ r ∈ reply, r.mutated = false) : after = db := by
  -- every other step is answered by a success of a command that may change the database
  cases h with
  | keep _ => rfl
  | store _ _ _ => exact absurd (quiet _ rfl) Bool.noConfusion
  | drop _ _ => exact absurd (quiet _ rfl) Bool.noConfusion
  | note _ _ _ => exact absurd (quiet _ rfl) Bool.noConfusion
  | scan _ _ _ => exact absurd (quiet _ rfl) Bool.noConfusion

end Database

end DocStore
