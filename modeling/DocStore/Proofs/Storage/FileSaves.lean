import DocStore.Proofs.Saving
import DocStore.Proofs.Storage.TreeChanges

/-!
# Saves that go wrong

A disk may refuse any step of a save, and it may leave a part of what is written behind. The process may
stop at any time, so every tree that a disk goes through counts. What the data file holds is nevertheless
never a part of anything: a save writes beside it, and only a rename that succeeds, which is one change of
the tree, touches it.

## Contents
- `Fate`, `FrailDisk`: a disk with what will become of the steps of its saves.
- `FrailDisk.saveAll_calm`: without accidents it is the disk of the program.
- `FrailDisk.Stays`, `FrailDisk.step_inv`, `FrailDisk.perform_savePlan`: **what a save does to the data file**.
- `FrailDisk.saveAll_moments`, `FrailDisk.saveAll_last`: and the saves of a run.
- `Session.file_saves`: **saves are all or nothing**.
-/

namespace DocStore

open FileTree (FileOp savePlan)
open Text (Bytes)

/-! ## Disks with accidents -/

/-- What becomes of a step of a save: the contents that a file has while it is written, one after the
    other, and what the step then fails with, if it is not carried out. -/
structure Fate where
  passing : List Bytes
  fault : Option FileFault

/-- The fate of a step that is carried out at once. -/
def Fate.calm : Fate :=
  ⟨[], none⟩

/-- The tree while a file is written and has some content. A rename is one change, so there is nothing
    on the way. -/
def FileTree.draft (tree : FileTree) (content : Bytes) : FileOp → FileTree
  | .write path _ =>
    match tree.write path content with
    | .ok next => next
    | .error _ => tree
  | .rename _ _ => tree

/-- A data file on a disk with accidents: the trees that it was before, the latest one first, what will
    become of the steps to come, and how the saves have ended, again the latest one first. -/
structure FrailDisk where
  path : DataPath
  tree : FileTree
  past : List FileTree
  fates : List Fate
  saves : List (Option FileFault)

namespace FrailDisk

/-- The disk on which nothing was done. -/
def fresh (path : DataPath) (tree : FileTree) (fates : List Fate) : FrailDisk :=
  ⟨path, tree, [], fates, []⟩

/-- All trees that a disk has ever been. If the process stops, one of them is what is left. -/
def moments (disk : FrailDisk) : List FileTree :=
  disk.tree :: disk.past

/-- The disk with the next tree. -/
def pass (disk : FrailDisk) (tree : FileTree) : FrailDisk :=
  { disk with tree := tree, past := disk.tree :: disk.past }

/-- The disk after a file has had some contents while it was written. -/
def drafts (disk : FrailDisk) (op : FileOp) (contents : List Bytes) : FrailDisk :=
  contents.foldl (fun disk content => disk.pass (disk.tree.draft content op)) disk

/-- A step with its fate. Even if it is to be carried out, the tree may not allow it. -/
def step (disk : FrailDisk) (op : FileOp) : Option FileFault × FrailDisk :=
  let fate := disk.fates.headD Fate.calm
  let underway := drafts { disk with fates := disk.fates.tail } op fate.passing
  match fate.fault with
  | some fault => (some fault, underway)
  | none =>
    match underway.tree.step op with
    | .ok tree => (none, underway.pass tree)
    | .error fault => (some fault, underway)

/-- Some steps, up to the first one that fails, and its fault. -/
def perform (disk : FrailDisk) : List FileOp → Option FileFault × FrailDisk
  | [] => (none, disk)
  | op :: rest =>
    match disk.step op with
    | (none, next) => next.perform rest
    | (some fault, next) => (some fault, next)

instance : Backend FrailDisk where
  load disk := (loadFile (disk.tree.read disk.path), disk)
  save disk db :=
    let (fault, next) := disk.perform (savePlan disk.path db.encode)
    (fault.map .io, { next with saves := fault :: disk.saves })

/-! ## Without accidents -/

/-- Without an accident a step is that of the tree. -/
theorem step_calm {disk : FrailDisk} (h : disk.fates = []) (op : FileOp) :
    disk.step op =
      match disk.tree.step op with
      | .ok tree => (none, disk.pass tree)
      | .error fault => (some fault, disk) := by
  obtain ⟨path, tree, past, fates, saves⟩ := disk
  obtain rfl : fates = [] := h
  rfl

/-- Without accidents the steps of a save are those of the tree. -/
theorem perform_calm (ops : List FileOp) : ∀ disk : FrailDisk, disk.fates = [] →
    (disk.perform ops).1 = (disk.tree.perform ops).1 ∧
      (disk.perform ops).2.tree = (disk.tree.perform ops).2 ∧
      (disk.perform ops).2.path = disk.path ∧ (disk.perform ops).2.fates = [] := by
  induction ops with
  | nil => exact fun disk h => ⟨rfl, rfl, rfl, h⟩
  | cons op rest ih =>
      intro disk h
      rw [perform, FileTree.perform, step_calm h]
      cases disk.tree.step op with
      | error fault => exact ⟨rfl, rfl, rfl, h⟩
      | ok tree => exact ih (disk.pass tree) h

/-- **Without accidents it is the disk of the program**, whatever is saved. -/
theorem saveAll_calm (databases : List Database) : ∀ disk : FrailDisk, disk.fates = [] →
    (Backend.saveAll disk databases).tree =
      (Backend.saveAll (Disk.mk disk.path disk.tree) databases).tree := by
  induction databases with
  | nil => exact fun disk _ => rfl
  | cons db rest ih =>
      intro disk h
      obtain ⟨-, htree, hpath, hfates⟩ := perform_calm (savePlan disk.path db.encode) disk h
      have hdisk : (Backend.save disk db).2.path = disk.path := hpath
      have hsave : (Backend.save disk db).2.tree =
          (Backend.save (Disk.mk disk.path disk.tree) db).2.tree := htree
      have hrest := ih (Backend.save disk db).2 hfates
      rw [hdisk, hsave] at hrest
      exact hrest

/-! ## What the steps of a save leave alone -/

/-- Whether a disk, in all that it has become, has kept what is read at its path. -/
structure Stays (disk next : FrailDisk) : Prop where
  path : next.path = disk.path
  tree : next.tree.read disk.path = disk.tree.read disk.path
  moments : ∀ moment ∈ next.moments,
    moment ∈ disk.moments ∨ moment.read disk.path = disk.tree.read disk.path

theorem Stays.refl (disk : FrailDisk) : Stays disk disk :=
  ⟨rfl, rfl, fun _ h => Or.inl h⟩

theorem Stays.trans {first second third : FrailDisk} (h : Stays first second)
    (h' : Stays second third) : Stays first third := by
  obtain ⟨hpath, htree, hmoments⟩ := h'
  rw [h.path] at htree hmoments
  refine ⟨hpath.trans h.path, htree.trans h.tree, ?_⟩
  intro moment hmoment
  rcases hmoments moment hmoment with hmoment | hread
  · exact h.moments moment hmoment
  · exact Or.inr (hread.trans h.tree)

theorem stays_pass {disk : FrailDisk} {tree : FileTree}
    (h : tree.read disk.path = disk.tree.read disk.path) : Stays disk (disk.pass tree) := by
  refine ⟨rfl, h, ?_⟩
  intro moment hmoment
  rcases List.mem_cons.mp hmoment with rfl | hpast
  · exact Or.inr h
  · exact Or.inl hpast

/-- While the steps of a save are under way, the data file is as it was. -/
theorem read_draft (tree : FileTree) (path : DataPath) {content : Bytes} {op : FileOp}
    (h : op ∈ savePlan path content) (bytes : Bytes) :
    (tree.draft bytes op).read path = tree.read path := by
  simp only [savePlan, List.mem_cons, List.not_mem_nil, or_false] at h
  rcases h with rfl | rfl
  · unfold FileTree.draft
    dsimp only
    split
    · rename_i hwrite
      exact (FileTree.read_of_write_temporary hwrite).1
    · rfl
  · rfl

theorem stays_drafts {path : DataPath} {content : Bytes} {op : FileOp}
    (h : op ∈ savePlan path content) (contents : List Bytes) :
    ∀ disk : FrailDisk, disk.path = path → Stays disk (disk.drafts op contents) := by
  induction contents with
  | nil => exact fun disk _ => Stays.refl disk
  | cons bytes rest ih =>
      rintro disk rfl
      have hfirst := stays_pass (read_draft disk.tree disk.path h bytes)
      exact hfirst.trans (ih (disk.pass (disk.tree.draft bytes op)) rfl)

/-- A rename changes nothing before it is done. -/
theorem drafts_rename (source target : DataPath) (contents : List Bytes) :
    ∀ disk : FrailDisk, (disk.drafts (.rename source target) contents).tree = disk.tree := by
  induction contents with
  | nil => exact fun _ => rfl
  | cons bytes rest ih => exact fun disk => ih (disk.pass disk.tree)

/-- A step of a save is under way for some time, in which the data file is as it was. Then it fails, or it
    is carried out as the tree has it. -/
theorem step_inv {disk next : FrailDisk} {content : Bytes} {op : FileOp} {fault : Option FileFault}
    (hop : op ∈ savePlan disk.path content) (h : disk.step op = (fault, next)) :
    ∃ underway, Stays disk underway ∧
      (∀ source target, op = .rename source target → underway.tree = disk.tree) ∧
      (fault ≠ none ∧ next = underway ∨
        ∃ tree, fault = none ∧ underway.tree.step op = .ok tree ∧ next = underway.pass tree) := by
  unfold step at h
  have hstart : Stays disk { disk with fates := disk.fates.tail } :=
    ⟨rfl, rfl, fun _ h => Or.inl h⟩
  have hunderway := hstart.trans (stays_drafts hop (disk.fates.headD Fate.calm).passing _ rfl)
  refine ⟨_, hunderway, ?_, ?_⟩
  · rintro source target rfl
    exact drafts_rename source target _ _
  · dsimp only at h
    split at h
    · cases h
      exact Or.inl ⟨Option.some_ne_none _, rfl⟩
    · split at h
      · rename_i tree htree
        cases h
        exact Or.inr ⟨tree, rfl, htree, rfl⟩
      · cases h
        exact Or.inl ⟨Option.some_ne_none _, rfl⟩

/-! ## What a save does to the data file -/

/-- The temporary file of a save is written, or it is not, and in both cases the data file is as it was. -/
theorem step_write {disk next : FrailDisk} {content : Bytes} {fault : Option FileFault}
    (h : disk.step (.write disk.path.temporary content) = (fault, next)) :
    Stays disk next ∧ (fault = none → next.tree.read disk.path.temporary = .ok content) := by
  have hop : FileOp.write disk.path.temporary content ∈ savePlan disk.path content :=
    List.mem_cons_self
  obtain ⟨underway, hstays, -, ⟨hfault, rfl⟩ | ⟨tree, -, hwrite, rfl⟩⟩ := step_inv hop h
  · exact ⟨hstays, fun hnone => absurd hnone hfault⟩
  · obtain ⟨hpath, htemporary⟩ := FileTree.read_of_write_temporary hwrite
    rw [← hstays.path] at hpath
    exact ⟨hstays.trans (stays_pass hpath), fun _ => htemporary⟩

/-- The temporary file takes the place of the data file, or the data file is as it was. -/
theorem step_rename {disk next : FrailDisk} {content : Bytes} {fault : Option FileFault}
    (hwritten : disk.tree.read disk.path.temporary = .ok content)
    (h : disk.step (.rename disk.path.temporary disk.path) = (fault, next)) :
    fault ≠ none ∧ Stays disk next ∨
      fault = none ∧ ∃ underway, Stays disk underway ∧ next = underway.pass next.tree ∧
        next.tree.read disk.path = .ok content ∧
        next.tree.read disk.path.temporary = .error .notFound := by
  have hop : FileOp.rename disk.path.temporary disk.path ∈ savePlan disk.path content :=
    List.mem_cons_of_mem _ List.mem_cons_self
  obtain ⟨underway, hstays, htree, ⟨hfault, rfl⟩ | ⟨tree, hnone, hrename, rfl⟩⟩ := step_inv hop h
  · exact Or.inl ⟨hfault, hstays⟩
  · rw [htree _ _ rfl] at hrename
    exact Or.inr ⟨hnone, underway, hstays, rfl, FileTree.read_of_rename_temporary hwritten hrename⟩

/-- What a save of a content has made of a disk, with the fault of the save if it has failed: the data file
    holds what it held, or the whole content. -/
structure Saved (disk : FrailDisk) (content : Bytes) (fault : Option FileFault) (next : FrailDisk) :
    Prop where
  path : next.path = disk.path
  moments : ∀ moment ∈ next.moments, moment ∈ disk.moments ∨
    moment.read disk.path = disk.tree.read disk.path ∨ moment.read disk.path = .ok content
  failed : fault ≠ none → next.tree.read disk.path = disk.tree.read disk.path
  succeeded : fault = none → next.tree.read disk.path = .ok content ∧
    next.tree.read disk.path.temporary = .error .notFound

theorem Stays.saved {disk next : FrailDisk} (h : Stays disk next) {fault : Option FileFault}
    (hfault : fault ≠ none) (content : Bytes) : Saved disk content fault next where
  path := h.path
  moments := fun moment hmoment => (h.moments moment hmoment).imp_right Or.inl
  failed := fun _ => h.tree
  succeeded := fun hnone => absurd hnone hfault

/-- **What the steps of a save do**, whatever becomes of them. -/
theorem perform_savePlan {disk next : FrailDisk} {content : Bytes} {fault : Option FileFault}
    (h : disk.perform (savePlan disk.path content) = (fault, next)) :
    Saved disk content fault next := by
  rw [savePlan, perform] at h
  split at h
  · rename_i mid hwrite
    obtain ⟨hmid, hwritten⟩ := step_write hwrite
    rw [perform] at h
    split at h
    · rename_i hrename
      cases h
      rw [← hmid.path] at hrename hwritten
      rcases step_rename (hwritten rfl) hrename with ⟨hfault, -⟩ | ⟨-, underway, hstays, hnext, hdone⟩
      · exact absurd rfl hfault
      rw [hmid.path] at hdone
      have hall := hmid.trans hstays
      refine ⟨?_, ?_, fun hfault => absurd rfl hfault, fun _ => hdone⟩
      · rw [hnext]
        exact hall.path
      · intro moment hmoment
        rw [hnext] at hmoment
        -- only the last of its trees has the content, since a rename is one change
        rcases List.mem_cons.mp hmoment with rfl | hpast
        · exact Or.inr (Or.inr hdone.1)
        · exact (hall.moments moment hpast).imp_right Or.inl
    · rename_i hrename
      cases h
      rw [← hmid.path] at hrename hwritten
      rcases step_rename (hwritten rfl) hrename with ⟨hfault, hstays⟩ | ⟨hnone, -⟩
      · exact (hmid.trans hstays).saved hfault content
      · cases hnone
  · rename_i hwrite
    cases h
    exact (step_write hwrite).1.saved (Option.some_ne_none _) content

/-! ## Runs -/

/-- What a save of a database makes of a disk. -/
theorem save_inv (disk : FrailDisk) (db : Database) :
    ∃ fault next, Backend.save disk db = (fault.map .io, next) ∧
      next.saves = fault :: disk.saves ∧ Saved disk db.encode fault next := by
  have hsaved : Saved disk db.encode _ _ := perform_savePlan rfl
  exact ⟨_, _, rfl, rfl, hsaved.path, hsaved.moments, hsaved.failed, hsaved.succeeded⟩

/-- The saves of a run never leave anything but what was there or the text of a database that was saved. By
    induction on the saves: each goes on with one of the two. -/
theorem saveAll_moments (databases : List Database) : ∀ disk : FrailDisk,
    (Backend.saveAll disk databases).path = disk.path ∧
      ∀ moment ∈ (Backend.saveAll disk databases).moments, moment ∈ disk.moments ∨
        moment.read disk.path = disk.tree.read disk.path ∨
        ∃ db ∈ databases, moment.read disk.path = .ok db.encode := by
  induction databases with
  | nil => exact fun disk => ⟨rfl, fun _ h => Or.inl h⟩
  | cons db rest ih =>
      intro disk
      obtain ⟨fault, next, hsave, -, hsaved⟩ := save_inv disk db
      have hall : Backend.saveAll disk (db :: rest) = Backend.saveAll next rest := by
        show Backend.saveAll (Backend.save disk db).2 rest = _
        rw [hsave]
      obtain ⟨hpath, hmoments⟩ := ih next
      rw [hsaved.path] at hpath hmoments
      rw [hall]
      refine ⟨hpath, ?_⟩
      intro moment hmoment
      rcases hmoments moment hmoment with hbefore | hread | ⟨later, hlater, hread⟩
      · rcases hsaved.moments moment hbefore with hold | hread | hread
        · exact Or.inl hold
        · exact Or.inr (Or.inl hread)
        · exact Or.inr (Or.inr ⟨db, List.mem_cons_self, hread⟩)
      · by_cases hfault : fault = none
        · exact Or.inr (Or.inr ⟨db, List.mem_cons_self, hread.trans (hsaved.succeeded hfault).1⟩)
        · exact Or.inr (Or.inl (hread.trans (hsaved.failed hfault)))
      · exact Or.inr (Or.inr ⟨later, List.mem_cons_of_mem _ hlater, hread⟩)

/-- If the last save of a run has succeeded, the data file holds what was saved last. -/
theorem saveAll_last {databases : List Database} {disk : FrailDisk} (hnew : disk.saves = [])
    (h : (Backend.saveAll disk databases).saves.head? = some none) :
    ∃ last, databases.getLast? = some last ∧
      (Backend.saveAll disk databases).tree.read disk.path = .ok last.encode ∧
      (Backend.saveAll disk databases).tree.read disk.path.temporary = .error .notFound := by
  rcases List.eq_nil_or_concat databases with rfl | ⟨front, last, rfl⟩
  · have hnone : disk.saves.head? = some none := h
    rw [hnew] at hnone
    cases hnone
  rw [List.concat_eq_append] at h ⊢
  obtain ⟨fault, next, hsave, hsaves, hsaved⟩ := save_inv (Backend.saveAll disk front) last
  have hall : Backend.saveAll disk (front ++ [last]) = next := by
    rw [Backend.saveAll, List.foldl_append]
    show (Backend.save (Backend.saveAll disk front) last).2 = _
    rw [hsave]
  rw [hall] at h ⊢
  rw [hsaves] at h
  obtain rfl : fault = none := Option.some.inj h
  refine ⟨last, List.getLast?_concat, ?_⟩
  rw [← (saveAll_moments front disk).1]
  exact hsaved.succeeded rfl

end FrailDisk

/-! ## Sessions -/

namespace Session

/-- **Saves are all or nothing.** Take a session on a data file with any path, on a disk with any contents
    and any accidents, and let it execute any lines.
    - The temporary file goes by other steps than the data file, and the two never are one file.
    - At every moment the data file reads as when the session was opened, or as the text of the database
      right after one of the writes.
    - If the last save has succeeded, it reads as the text of the database, and there is no temporary file.
    - A save that fails leaves the data file as it was.
    - Without accidents the files are those of a session on the disk of the program. -/
theorem file_saves (path : DataPath) (tree : FileTree) (fates : List Fate)
    {session : Session FrailDisk} (hstart : start (FrailDisk.fresh path tree fates) = .ok session)
    (script : Script) :
    path.temporary.parts ≠ path.parts ∧
    (∀ (moment : FileTree) place other asFile asOther,
      moment.resolve path.temporary = .ok (.entry place asFile) →
      moment.resolve path = .ok (.entry other asOther) →
        FileTree.placeText other ≠ FileTree.placeText place) ∧
    (∀ moment ∈ (session.run script).backend.moments,
      moment.read path = tree.read path ∨
        ∃ db ∈ session.database.written script, moment.read path = .ok db.encode) ∧
    ((session.run script).backend.saves.head? = some none →
      (session.run script).backend.tree.read path = .ok (session.run script).database.encode ∧
        (session.run script).backend.tree.read path.temporary = .error .notFound) ∧
    (∀ (disk next : FrailDisk) db error, Backend.save disk db = (some error, next) →
      next.path = disk.path ∧ next.tree.read disk.path = disk.tree.read disk.path) ∧
    (∀ plain : Session Disk, start (Disk.mk path tree) = .ok plain → fates = [] →
      (session.run script).backend.tree = (plain.run script).backend.tree) := by
  -- loading leaves the disk as it is
  have hbackend : FrailDisk.fresh path tree fates = session.backend :=
    congrArg Prod.snd (load_of_start hstart)
  refine ⟨path.parts_temporary_ne, ?_, ?_, ?_, ?_, ?_⟩
  · intro moment place other asFile asOther htemporary hpath
    obtain ⟨_, hplace, hbeside⟩ := FileTree.resolve_beside htemporary
    cases hplace
    rcases hbeside with ⟨fault, hfault⟩ | hdirectory | ⟨spot, asDirectory, hspot, hne⟩
    · rw [hfault moment rfl] at hpath
      cases hpath
    · rw [hdirectory] at hpath
      cases hpath
    · rw [hspot] at hpath
      cases hpath
      exact hne
  · intro moment hmoment
    rw [run_backend, ← hbackend] at hmoment
    rcases (FrailDisk.saveAll_moments _ _).2 moment hmoment with hfirst | hread
    · obtain rfl := List.mem_singleton.mp hfirst
      exact Or.inl rfl
    · exact hread
  · intro hlast
    rw [run_backend, ← hbackend] at hlast ⊢
    obtain ⟨last, hwritten, hread⟩ := FrailDisk.saveAll_last rfl hlast
    rw [run_database, Database.after_eq_last, hwritten]
    exact hread
  · intro disk next db error hsave
    obtain ⟨fault, kept, hsame, -, hsaved⟩ := FrailDisk.save_inv disk db
    rw [hsame] at hsave
    obtain ⟨hfault, rfl⟩ := Prod.mk.inj hsave
    refine ⟨hsaved.path, hsaved.failed ?_⟩
    rintro rfl
    cases hfault
  · intro plain hplain hcalm
    obtain ⟨hloaded, hdisk⟩ := Prod.mk.inj (load_of_start hplain)
    have hsame : session.database = plain.database :=
      Except.ok.inj ((congrArg Prod.fst (load_of_start hstart)).symm.trans hloaded)
    rw [run_backend, run_backend, ← hbackend, ← hdisk, hsame]
    exact FrailDisk.saveAll_calm _ _ hcalm

/-! ### A save that gets no further than three bytes -/

/-- A disk that is full when it is first written to. -/
def fullDisk : FrailDisk :=
  FrailDisk.fresh ⟨["db.json"]⟩ FileTree.empty
    [⟨[[0x7b], [0x7b, 0x0a, 0x20]], some (.other "No space left on device")⟩]

/-- Lines that store two objects. -/
def storingLines : Script :=
  [(0, "SET k \x7b\x7d"), (1, "SET l \x7b\x7d")]

/-- The first save fails and the second one succeeds, so that the data file has both objects. It never had
    anything but the text of a database, or it was not there. -/
theorem file_saves_fullDisk :
    ∃ session, start fullDisk = .ok session ∧
      (session.run storingLines).backend.saves =
        [none, some (.other "No space left on device")] ∧
      (session.run storingLines).backend.moments.length = 5 ∧
      (∀ moment ∈ (session.run storingLines).backend.moments,
        moment.read ⟨["db.json"]⟩ = .error .notFound ∨
          ∃ db ∈ session.database.written storingLines,
            moment.read ⟨["db.json"]⟩ = .ok db.encode) ∧
      (session.run storingLines).backend.tree.read ⟨["db.json"]⟩ =
        .ok (session.run storingLines).database.encode := by
  have hstart : start fullDisk = .ok ⟨Database.empty, fullDisk⟩ := rfl
  have hsaves : (Session.run ⟨Database.empty, fullDisk⟩ storingLines).backend.saves =
      [none, some (.other "No space left on device")] := by decide +kernel
  have habsent : FileTree.empty.read ⟨["db.json"]⟩ = .error .notFound := rfl
  obtain ⟨-, -, hmoments, hlast, -⟩ := file_saves _ _ _ hstart storingLines
  rw [habsent] at hmoments
  have hsaved := hlast (congrArg List.head? hsaves)
  exact ⟨_, hstart, hsaves, by decide +kernel, hmoments, hsaved.1⟩

end Session

end DocStore
