import DocStore.Proofs.Storage.TemporaryPaths
import DocStore.Storage.FileTree

/-!
# Files that change in a tree

The steps of a save change what stands at places that are no directories. So every path leads where it led
before; and as the temporary path and the path of the data file never lead to one place, a temporary file
that is written leaves the data file as it is, and one that is renamed takes its place.

A tree has no links: what stands at a place stands nowhere else.

## Contents
- `FileTree.Keeps`: every directory is still there.
- `FileTree.resolve_eq`: what a path leads to; `FileTree.resolve_of_keeps`: it still leads there.
- `FileTree.resolve_beside`: **the two paths never lead to one place**.
- `FileTree.write_inv`, `FileTree.rename_inv`: what a step that succeeds does.
- `FileTree.read_of_write_temporary`: **a temporary file leaves the data file as it is**.
- `FileTree.read_of_rename_temporary`: **a renamed temporary file takes the place of the data file**.
-/

namespace DocStore

open Text (Bytes)

namespace FileTree

/-! ## Places -/

/-- Whether a place is a directory in every tree: the root, and those above it. -/
def Outer (place : Place) : Prop :=
  (place.all (· == "..") || place == ["/"]) = true

theorem node?_of_outer {place : Place} (h : Outer place) (tree : FileTree) :
    tree.node? place = some .directory :=
  if_pos h

theorem node?_of_not_outer {place : Place} (h : ¬ Outer place) (tree : FileTree) :
    tree.node? place = tree.nodes.find? (placeText place) :=
  if_neg h

theorem not_outer_of_node? {tree : FileTree} {place : Place}
    (h : tree.node? place ≠ some .directory) : ¬ Outer place :=
  fun houter => h (node?_of_outer houter tree)

/-- What stands at a place after something has been put there. -/
theorem node?_put {tree : FileTree} {place : Place} (h : ¬ Outer place) (node : Node) :
    (tree.put place node).node? place = some node := by
  rw [node?_of_not_outer h]
  exact (KeyMap.find?_insert _ _ _ _).trans (if_pos rfl)

theorem node?_put_of_ne {place other : Place} (h : placeText other ≠ placeText place)
    (tree : FileTree) (node : Node) : (tree.put place node).node? other = tree.node? other := by
  by_cases houter : Outer other
  · rw [node?_of_outer houter, node?_of_outer houter]
  · rw [node?_of_not_outer houter, node?_of_not_outer houter]
    exact (KeyMap.find?_insert _ _ _ _).trans (if_neg h)

theorem node?_clear {tree : FileTree} {place : Place} (h : ¬ Outer place) :
    (tree.clear place).node? place = none := by
  rw [node?_of_not_outer h]
  exact (KeyMap.find?_erase _ _ _).trans (if_pos rfl)

theorem node?_clear_of_ne {place other : Place} (h : placeText other ≠ placeText place)
    (tree : FileTree) : (tree.clear place).node? other = tree.node? other := by
  by_cases houter : Outer other
  · rw [node?_of_outer houter, node?_of_outer houter]
  · rw [node?_of_not_outer houter, node?_of_not_outer houter]
    exact (KeyMap.find?_erase _ _ _).trans (if_neg h)

/-! ## Directories that are kept -/

/-- Whether a tree reaches as far as another one and still has all its directories. -/
structure Keeps (tree next : FileTree) : Prop where
  reach : next.reach = tree.reach
  directories : ∀ place, tree.node? place = some .directory → next.node? place = some .directory

theorem Keeps.trans {first second third : FileTree} (h : Keeps first second)
    (h' : Keeps second third) : Keeps first third :=
  ⟨h'.reach.trans h.reach, fun place hplace => h'.directories place (h.directories place hplace)⟩

theorem placeText_ne {tree : FileTree} {place other : Place}
    (hplace : tree.node? place ≠ some .directory) (hother : tree.node? other = some .directory)
    (houter : ¬ Outer other) : placeText other ≠ placeText place := by
  intro hsame
  apply hplace
  rw [node?_of_not_outer (not_outer_of_node? hplace), ← hsame, ← node?_of_not_outer houter]
  exact hother

/-- Where no directory stands, something may be put. -/
theorem keeps_put {tree : FileTree} {place : Place} (h : tree.node? place ≠ some .directory)
    (node : Node) : Keeps tree (tree.put place node) := by
  refine ⟨rfl, ?_⟩
  intro other hother
  by_cases houter : Outer other
  · exact node?_of_outer houter _
  · rw [node?_put_of_ne (placeText_ne h hother houter)]
    exact hother

theorem keeps_clear {tree : FileTree} {place : Place} (h : tree.node? place ≠ some .directory) :
    Keeps tree (tree.clear place) := by
  refine ⟨rfl, ?_⟩
  intro other hother
  by_cases houter : Outer other
  · exact node?_of_outer houter _
  · rw [node?_clear_of_ne (placeText_ne h hother houter)]
    exact hother

/-! ## Following paths -/

/-- What is wrong with the text of a path in the trees of some reach. -/
def textFault (reach : Nat) (path : DataPath) : Option FileFault :=
  if path.text.toList.contains '\x00' then some .nulByte
  else if reach < path.byteLength then some .nameTooLong
  else if path.blank then some .notFound
  else none

/-- The place that a path is followed from. -/
def origin (path : DataPath) : Place :=
  if path.absolute then ["/"] else []

/-- A path leads where its names can be followed to, unless its text is refused. -/
theorem resolve_eq (tree : FileTree) (path : DataPath) :
    tree.resolve path =
      match textFault tree.reach path with
      | some fault => .error fault
      | none => tree.follow (origin path) path.asDirectory path.parts := by
  unfold resolve textFault
  split
  · rfl
  split
  · rfl
  split
  · rfl
  · rfl

/-- A name that others follow must lead to a directory, in which they are followed. -/
theorem follow_cons {name : String} (hup : name ≠ "..")
    (hlong : ¬ maxNameLength < name.utf8ByteSize) {rest : List String} (hrest : rest ≠ [])
    (tree : FileTree) (place : Place) (asDirectory : Bool) :
    tree.follow place asDirectory (name :: rest) =
      match tree.node? (place ++ [name]) with
      | none => .error .notFound
      | some (.file _) => .error .notDirectory
      | some .directory => tree.follow (place ++ [name]) asDirectory rest := by
  have hmore : rest.isEmpty = false := by simp [hrest]
  rw [follow, if_neg hup, if_neg hlong]
  simp only [hmore]
  rfl

/-- The names of a path that could be followed can still be followed. By induction on the names: all that
    is asked of the tree on the way is whether directories are there. -/
theorem follow_of_keeps {tree next : FileTree} (hkeeps : Keeps tree next) {asDirectory : Bool}
    {goal : Goal} (names : List String) : ∀ place, tree.follow place asDirectory names = .ok goal →
      next.follow place asDirectory names = .ok goal := by
  induction names with
  | nil => exact fun place h => h
  | cons name rest ih =>
      intro place h
      by_cases hup : name = ".."
      · rw [follow, if_pos hup] at h ⊢
        exact ih _ h
      by_cases hlong : maxNameLength < name.utf8ByteSize
      · rw [follow, if_neg hup, if_pos hlong] at h
        cases h
      by_cases hrest : rest = []
      · rw [hrest, follow, if_neg hup, if_neg hlong] at h ⊢
        exact h
      rw [follow_cons hup hlong hrest] at h ⊢
      cases hnode : tree.node? (place ++ [name]) with
      | none =>
          rw [hnode] at h
          cases h
      | some node =>
          rw [hnode] at h
          cases node with
          | file content => cases h
          | directory =>
              rw [hkeeps.directories _ hnode]
              exact ih _ h

/-- A path that leads somewhere still leads there. -/
theorem resolve_of_keeps {tree next : FileTree} (hkeeps : Keeps tree next) {path : DataPath}
    {goal : Goal} (h : tree.resolve path = .ok goal) : next.resolve path = .ok goal := by
  rw [resolve_eq] at h ⊢
  rw [hkeeps.reach]
  cases hfault : textFault tree.reach path with
  | some fault =>
      rw [hfault] at h
      cases h
  | none =>
      rw [hfault] at h
      exact follow_of_keeps hkeeps _ _ h

/-! ## The two paths lead to different places -/

/-- What stands before the last name of a place does not depend on that name. -/
theorem placeText_concat (spot : Place) :
    ∃ before : String, ∀ name, placeText (spot ++ [name]) = before ++ name := by
  unfold placeText
  induction spot with
  | nil =>
      refine ⟨"", ?_⟩
      intro name
      simp
  | cons first rest ih =>
      obtain ⟨before, hbefore⟩ := ih
      refine ⟨first ++ "/" ++ before, ?_⟩
      intro name
      obtain ⟨second, more, hmore⟩ : ∃ second more, rest ++ [name] = second :: more :=
        List.exists_cons_of_ne_nil (by simp)
      rw [List.cons_append, hmore, String.intercalate_cons_cons, ← hmore, hbefore]
      simp [String.append_assoc]

/-- A name and the same name with the mark of a temporary file are different places. -/
theorem placeText_mark_ne (spot : Place) (name : String) :
    placeText (spot ++ [name]) ≠ placeText (spot ++ [name ++ DataPath.temporaryMark]) := by
  obtain ⟨before, hbefore⟩ := placeText_concat spot
  rw [hbefore, hbefore]
  intro hsame
  have hlength := congrArg String.length hsame
  rw [String.length_append, String.length_append, DataPath.length_append_mark] at hlength
  omega

/-- The directory that names lead to. -/
def descend (tree : FileTree) (place : Place) : List String → Except FileFault Place
  | [] => .ok place
  | name :: rest =>
    if name = ".." then tree.descend (above place) rest
    else if maxNameLength < name.utf8ByteSize then .error .nameTooLong
    else
      match tree.node? (place ++ [name]) with
      | none => .error .notFound
      | some (.file _) => .error .notDirectory
      | some .directory => tree.descend (place ++ [name]) rest

/-- The last names of a path are followed from the directory that the first ones lead to. -/
theorem follow_append (tree : FileTree) (asDirectory : Bool) {back : List String} (hback : back ≠ [])
    (front : List String) : ∀ place, tree.follow place asDirectory (front ++ back) =
      (tree.descend place front).bind fun spot => tree.follow spot asDirectory back := by
  induction front with
  | nil => exact fun _ => rfl
  | cons name rest ih =>
      intro place
      rw [List.cons_append, descend]
      by_cases hup : name = ".."
      · rw [follow, if_pos hup, if_pos hup]
        exact ih _
      by_cases hlong : maxNameLength < name.utf8ByteSize
      · rw [follow, if_neg hup, if_neg hup, if_pos hlong, if_pos hlong]
        rfl
      have hmore : rest ++ back ≠ [] := by simp [hback]
      rw [follow_cons hup hlong hmore, if_neg hup, if_neg hlong]
      cases tree.node? (place ++ [name]) with
      | none => rfl
      | some node =>
          cases node with
          | file content => rfl
          | directory => exact ih _

/-- If a path can be followed, its first names lead to a directory. -/
theorem follow_append_inv {tree : FileTree} {place : Place} {asDirectory : Bool}
    {front back : List String} {goal : Goal} (hback : back ≠ [])
    (h : tree.follow place asDirectory (front ++ back) = .ok goal) :
    ∃ spot, tree.descend place front = .ok spot ∧ tree.follow spot asDirectory back = .ok goal := by
  rw [follow_append tree asDirectory hback] at h
  cases hspot : tree.descend place front with
  | error fault =>
      rw [hspot] at h
      cases h
  | ok spot =>
      rw [hspot] at h
      exact ⟨spot, rfl, h⟩

/-- A name that is no step up and can be followed stands in the directory. -/
theorem follow_name {tree : FileTree} {spot : Place} {asDirectory : Bool} {name : String}
    {goal : Goal} (hname : name ≠ "..") (h : tree.follow spot asDirectory [name] = .ok goal) :
    name.utf8ByteSize ≤ maxNameLength ∧ goal = .entry (spot ++ [name]) asDirectory := by
  rw [follow, if_neg hname] at h
  split at h
  · cases h
  · rename_i hlong
    cases h
    exact ⟨Nat.le_of_not_lt hlong, rfl⟩

/-- The names beside a marked name can be followed. -/
theorem follow_unmarked {tree : FileTree} {place : Place} {front : List String} {name : String}
    {goal : Goal} (hname : name ≠ "..")
    (h : tree.follow place false (front ++ [name ++ DataPath.temporaryMark]) = .ok goal) :
    ∃ spot, goal = .entry (spot ++ [name ++ DataPath.temporaryMark]) false ∧
      ∀ asDirectory, tree.follow place asDirectory (front ++ [name]) =
        .ok (.entry (spot ++ [name]) asDirectory) := by
  obtain ⟨spot, hspot, h⟩ := follow_append_inv (List.cons_ne_nil _ _) h
  have hmarked : name ++ DataPath.temporaryMark ≠ ".." := by
    intro hsame
    have hlength := congrArg String.length hsame
    have htwo : "..".length = 2 := by decide
    rw [DataPath.length_append_mark] at hlength
    omega
  obtain ⟨hlong, rfl⟩ := follow_name hmarked h
  refine ⟨spot, rfl, ?_⟩
  intro asDirectory
  -- the unmarked name is shorter
  have hshort : ¬ maxNameLength < name.utf8ByteSize := by
    rw [String.utf8ByteSize_append] at hlong
    omega
  rw [follow_append tree asDirectory (List.cons_ne_nil _ _), hspot]
  show tree.follow spot asDirectory [name] = _
  rw [follow, if_neg hname, if_neg hshort]
  rfl

/-- Names that end in no name lead to a directory if something in it can be followed. -/
theorem follow_nameless {tree : FileTree} {place : Place} {names : List String} {name : String}
    {goal : Goal} (hnames : names = [] ∨ names.getLast? = some "..") (hname : name ≠ "..")
    (h : tree.follow place false (names ++ [name]) = .ok goal) :
    (∃ spot, goal = .entry spot false) ∧
      ∀ asDirectory, tree.follow place asDirectory names = .ok .directory := by
  rcases hnames with rfl | hlast
  · exact ⟨⟨_, (follow_name hname h).2⟩, fun _ => rfl⟩
  obtain ⟨front, rfl⟩ := List.getLast?_eq_some_iff.mp hlast
  rw [List.append_assoc] at h
  obtain ⟨spot, hspot, h⟩ := follow_append_inv (by simp) h
  rw [List.singleton_append, follow, if_pos rfl] at h
  refine ⟨⟨_, (follow_name hname h).2⟩, ?_⟩
  intro asDirectory
  rw [follow_append tree asDirectory (List.cons_ne_nil _ _), hspot]
  show tree.follow spot asDirectory [".."] = _
  rw [follow, if_pos rfl]
  rfl

/-- **The two paths never lead to one place.** If the temporary path leads anywhere, it leads to a file in
    a directory. Then the path of the data file leads to a directory or to another place, or it is refused
    for its text alone, whatever the tree contains. -/
theorem resolve_beside {tree : FileTree} {path : DataPath} {goal : Goal}
    (h : tree.resolve path.temporary = .ok goal) :
    ∃ place, goal = .entry place false ∧
      ((∃ fault, ∀ other : FileTree, other.reach = tree.reach → other.resolve path = .error fault) ∨
        tree.resolve path = .ok .directory ∨
        ∃ spot asDirectory, tree.resolve path = .ok (.entry spot asDirectory) ∧
          placeText spot ≠ placeText place) := by
  have hfollow : tree.follow (origin path) false path.temporary.parts = .ok goal := by
    rw [resolve_eq, DataPath.asDirectory_temporary, origin, DataPath.absolute_temporary] at h
    cases hfault : textFault tree.reach path.temporary with
    | some fault =>
        rw [hfault] at h
        cases h
    | none =>
        rw [hfault] at h
        exact h
  have hbeside : ∃ place, goal = .entry place false ∧
      (tree.follow (origin path) path.asDirectory path.parts = .ok .directory ∨
        ∃ spot asDirectory, tree.follow (origin path) path.asDirectory path.parts =
            .ok (.entry spot asDirectory) ∧ placeText spot ≠ placeText place) := by
    rcases path.parts_temporary with ⟨front, name, hname, hparts, hmarked⟩ | ⟨hparts, hmarked⟩
    · rw [hmarked] at hfollow
      obtain ⟨spot, rfl, hspot⟩ := follow_unmarked hname hfollow
      refine ⟨_, rfl, Or.inr ⟨spot ++ [name], path.asDirectory, ?_, placeText_mark_ne spot name⟩⟩
      rw [hparts]
      exact hspot path.asDirectory
    · rw [hmarked] at hfollow
      obtain ⟨⟨spot, rfl⟩, hdirectory⟩ := follow_nameless hparts (by decide) hfollow
      exact ⟨spot, rfl, Or.inl (hdirectory path.asDirectory)⟩
  obtain ⟨place, hgoal, hplaces⟩ := hbeside
  refine ⟨place, hgoal, ?_⟩
  cases hfault : textFault tree.reach path with
  | some fault =>
      refine Or.inl ⟨fault, ?_⟩
      intro other hreach
      rw [resolve_eq, hreach, hfault]
  | none =>
      rw [resolve_eq, hfault]
      exact Or.inr hplaces

/-! ## What the steps of a save do -/

/-- A file that was written stands where its path leads, and no directory stood there. -/
theorem write_inv {tree next : FileTree} {path : DataPath} {content : Bytes}
    (h : tree.write path content = .ok next) :
    ∃ place, tree.resolve path = .ok (.entry place false) ∧
      tree.node? place ≠ some .directory ∧ next = tree.put place (.file content) := by
  unfold write at h
  cases hgoal : tree.resolve path with
  | error fault =>
      rw [hgoal] at h
      cases h
  | ok goal =>
      rw [hgoal] at h
      cases goal with
      | directory => cases h
      | entry place asDirectory =>
          change (if asDirectory || tree.node? place == some .directory then throw _
            else pure _ : Except FileFault FileTree) = _ at h
          split at h
          · cases h
          · rename_i hfree
            simp only [Bool.or_eq_true, beq_iff_eq, not_or, Bool.not_eq_true] at hfree
            cases h
            obtain ⟨rfl, hnode⟩ := hfree
            exact ⟨place, rfl, hnode, rfl⟩

/-- What a path that leads to a place reads. -/
theorem read_entry {tree : FileTree} {path : DataPath} {place : Place} {asDirectory : Bool}
    (h : tree.resolve path = .ok (.entry place asDirectory)) :
    tree.read path =
      match tree.node? place with
      | none => .error .notFound
      | some .directory => .error .isDirectory
      | some (.file content) => if asDirectory then .error .notDirectory else .ok content := by
  unfold read
  rw [h]
  rfl

/-- A file that can be read stands where its path leads. -/
theorem read_inv {tree : FileTree} {path : DataPath} {content : Bytes}
    (h : tree.read path = .ok content) :
    ∃ place, tree.resolve path = .ok (.entry place false) ∧
      tree.node? place = some (.file content) := by
  cases hgoal : tree.resolve path with
  | error fault =>
      unfold read at h
      rw [hgoal] at h
      cases h
  | ok goal =>
      cases goal with
      | directory =>
          unfold read at h
          rw [hgoal] at h
          cases h
      | entry place asDirectory =>
          rw [read_entry hgoal] at h
          split at h
          · cases h
          · cases h
          · rename_i hnode
            split at h
            · cases h
            · rename_i hfile
              cases h
              obtain rfl : asDirectory = false := eq_false_of_ne_true hfile
              exact ⟨place, rfl, hnode⟩

/-- A file that was renamed could be read, and both paths lead to places where no directory stood. -/
theorem rename_inv {tree next : FileTree} {source target : DataPath}
    (h : tree.rename source target = .ok next) :
    ∃ start goal content, tree.resolve source = .ok (.entry start false) ∧
      tree.node? start = some (.file content) ∧ tree.resolve target = .ok (.entry goal false) ∧
      tree.node? goal ≠ some .directory ∧ next = (tree.clear start).put goal (.file content) := by
  unfold rename at h
  cases hread : tree.read source with
  | error fault =>
      rw [hread] at h
      cases h
  | ok content =>
      obtain ⟨start, hstart, hnode⟩ := read_inv hread
      rw [hread, hstart] at h
      cases hgoal : tree.resolve target with
      | error fault =>
          rw [hgoal] at h
          cases h
      | ok goal =>
          rw [hgoal] at h
          cases goal with
          | directory => cases h
          | entry goal asDirectory =>
              change (if tree.node? goal == some .directory then throw _
                else if asDirectory then throw _ else pure _ : Except FileFault FileTree) = _ at h
              split at h
              · cases h
              rename_i hfree
              split at h
              · cases h
              rename_i hfile
              cases h
              obtain rfl : asDirectory = false := eq_false_of_ne_true hfile
              refine ⟨start, goal, content, hstart, hnode, rfl, ?_, rfl⟩
              intro hdirectory
              exact hfree (beq_iff_eq.mpr hdirectory)

/-- A path reads the same in two trees in which it leads to the same place with the same node. -/
theorem read_congr {tree next : FileTree} {path : DataPath}
    (hgoal : next.resolve path = tree.resolve path)
    (hnode : ∀ place asDirectory, tree.resolve path = .ok (.entry place asDirectory) →
      next.node? place = tree.node? place) : next.read path = tree.read path := by
  cases hplace : tree.resolve path with
  | error fault =>
      unfold read
      rw [hgoal, hplace]
      rfl
  | ok goal =>
      cases goal with
      | directory =>
          unfold read
          rw [hgoal, hplace]
          rfl
      | entry place asDirectory =>
          rw [read_entry (hgoal.trans hplace), read_entry hplace, hnode place asDirectory hplace]

/-- What reading at a path is after its temporary file has changed. -/
theorem read_of_beside {tree next : FileTree} {path : DataPath} {place : Place} {asDirectory : Bool}
    (hplace : tree.resolve path.temporary = .ok (.entry place asDirectory))
    (hkeeps : Keeps tree next)
    (hothers : ∀ other, placeText other ≠ placeText place → next.node? other = tree.node? other) :
    next.read path = tree.read path := by
  obtain ⟨_, hgoal, hpath⟩ := resolve_beside hplace
  cases hgoal
  rcases hpath with ⟨fault, hfault⟩ | hdirectory | ⟨spot, asDirectory, hspot, hne⟩
  · refine read_congr ?_ ?_
    · rw [hfault next hkeeps.reach, hfault tree rfl]
    · intro place asDirectory hentry
      rw [hfault tree rfl] at hentry
      cases hentry
  · refine read_congr ?_ ?_
    · rw [hdirectory, resolve_of_keeps hkeeps hdirectory]
    · intro place asDirectory hentry
      rw [hdirectory] at hentry
      cases hentry
  · refine read_congr ?_ ?_
    · rw [hspot, resolve_of_keeps hkeeps hspot]
    · intro place asDirectory hentry
      rw [hspot] at hentry
      cases hentry
      exact hothers _ hne

/-- **A temporary file that is written leaves the data file as it is**, and it holds what was written. -/
theorem read_of_write_temporary {tree next : FileTree} {path : DataPath} {content : Bytes}
    (h : tree.write path.temporary content = .ok next) :
    next.read path = tree.read path ∧ next.read path.temporary = .ok content := by
  obtain ⟨place, hplace, hfree, rfl⟩ := write_inv h
  have hkeeps := keeps_put hfree (.file content)
  constructor
  · apply read_of_beside hplace hkeeps
    intro other hne
    exact node?_put_of_ne hne tree _
  · rw [read_entry (resolve_of_keeps hkeeps hplace), node?_put (not_outer_of_node? hfree)]
    rfl

/-- **A temporary file that is renamed takes the place of the data file**, and there is no temporary file
    any more. -/
theorem read_of_rename_temporary {tree next : FileTree} {path : DataPath} {content : Bytes}
    (hread : tree.read path.temporary = .ok content)
    (h : tree.rename path.temporary path = .ok next) :
    next.read path = .ok content ∧ next.read path.temporary = .error .notFound := by
  obtain ⟨start, goal, moved, hstart, hnode, hgoal, hfree, rfl⟩ := rename_inv h
  have hsource : tree.node? start ≠ some .directory := by
    rw [hnode]
    intro hdirectory
    cases hdirectory
  -- what is read is what is moved
  rw [read_entry hstart, hnode] at hread
  obtain rfl : moved = content := Except.ok.inj hread
  have hne : placeText goal ≠ placeText start := by
    obtain ⟨_, hplace, hpath⟩ := resolve_beside hstart
    cases hplace
    rcases hpath with ⟨fault, hfault⟩ | hdirectory | ⟨spot, asDirectory, hspot, hne⟩
    · rw [hfault tree rfl] at hgoal
      cases hgoal
    · rw [hdirectory] at hgoal
      cases hgoal
    · rw [hspot] at hgoal
      cases hgoal
      exact hne
  have hcleared : (tree.clear start).node? goal ≠ some .directory := by
    rw [node?_clear_of_ne hne]
    exact hfree
  have hkeeps : Keeps tree ((tree.clear start).put goal (.file moved)) :=
    (keeps_clear hsource).trans (keeps_put hcleared _)
  constructor
  · rw [read_entry (resolve_of_keeps hkeeps hgoal), node?_put (not_outer_of_node? hfree)]
    rfl
  · rw [read_entry (resolve_of_keeps hkeeps hstart), node?_put_of_ne (Ne.symm hne),
      node?_clear (not_outer_of_node? hsource)]

end FileTree

end DocStore
