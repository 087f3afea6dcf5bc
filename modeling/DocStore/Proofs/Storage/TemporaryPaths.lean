import DocStore.Storage.DataPath

/-!
# Temporary paths

The temporary file of a save stands in the directory of the data file, under another name. If the path of
the data file ends in no name, the temporary file stands in the directory that this path leads to.

## Contents
- `DataPath.parts_temporary`: the steps of the two paths; `DataPath.parts_temporary_ne`: they differ.
- `DataPath.asDirectory_temporary`, `DataPath.absolute_temporary`: where the temporary path ends and where it
  goes from.
-/

namespace DocStore

namespace DataPath

/-! ## The two paths differ -/

theorem steps_append (pieces more : List String) :
    steps (pieces ++ more) = steps pieces ++ steps more := by
  simp [steps]

/-- Pieces that lead nowhere hold no step. -/
theorem steps_eq_nil {pieces : List String} (h : ∀ piece ∈ pieces, isStill piece = true) :
    steps pieces = [] := by
  simp only [steps, List.filter_eq_nil_iff]
  intro piece hpiece
  simp [h piece hpiece]

/-- Dropping the last pieces that lead nowhere keeps the steps. -/
theorem steps_reverse_dropWhile (pieces : List String) :
    steps (pieces.reverse.dropWhile isStill).reverse = steps pieces := by
  have hsplit : pieces.reverse.takeWhile isStill ++ pieces.reverse.dropWhile isStill =
      pieces.reverse := List.takeWhile_append_dropWhile
  have hstill : ∀ piece ∈ (pieces.reverse.takeWhile isStill).reverse, isStill piece = true := by
    intro piece hpiece
    exact List.all_eq_true.mp List.all_takeWhile piece (List.mem_reverse.mp hpiece)
  have hpieces : pieces = (pieces.reverse.dropWhile isStill).reverse ++
      (pieces.reverse.takeWhile isStill).reverse := by
    rw [← List.reverse_append, hsplit, List.reverse_reverse]
  conv => rhs; rw [hpieces, steps_append, steps_eq_nil hstill, List.append_nil]

/-- The last piece that leads somewhere, and what stands before and behind it. -/
theorem pieces_of_dropWhile {pieces above : List String} {name : String}
    (h : pieces.reverse.dropWhile isStill = name :: above) :
    isStill name = false ∧ ∃ still, pieces = above.reverse ++ name :: still := by
  have hhead := List.head?_dropWhile_not isStill pieces.reverse
  have hsplit : pieces.reverse.takeWhile isStill ++ pieces.reverse.dropWhile isStill =
      pieces.reverse := List.takeWhile_append_dropWhile
  rw [h] at hhead hsplit
  refine ⟨by simpa using hhead, (pieces.reverse.takeWhile isStill).reverse, ?_⟩
  calc pieces = (pieces.reverse.takeWhile isStill ++ name :: above).reverse := by
        rw [hsplit, List.reverse_reverse]
    _ = above.reverse ++ name :: (pieces.reverse.takeWhile isStill).reverse := by simp

theorem steps_upToLastStep (pieces : List String) :
    steps (upToLastStep pieces) = steps pieces := by
  have hkept := steps_reverse_dropWhile pieces
  unfold upToLastStep
  split
  · rename_i hnil
    rw [hnil] at hkept
    have htaken : pieces.reverse.takeWhile isStill ++ pieces.reverse.dropWhile isStill =
        pieces.reverse := List.takeWhile_append_dropWhile
    have hall : (pieces.reverse.takeWhile isStill).all isStill = true := List.all_takeWhile
    rw [hnil, List.append_nil] at htaken
    rw [htaken] at hall
    have hstill : ∀ piece ∈ pieces, isStill piece = true := fun piece hpiece =>
      List.all_eq_true.mp hall piece (List.mem_reverse.mpr hpiece)
    rw [steps_eq_nil hstill]
    exact steps_eq_nil fun piece hpiece => hstill piece (List.mem_of_mem_take hpiece)
  · rename_i hcons
    rw [hcons] at hkept
    exact hkept

/-- A name that is put after some pieces is one more step. -/
theorem steps_attach (pieces : List String) {name : String} (h : isStill name = false) :
    steps (attach pieces name) = steps pieces ++ [name] := by
  have hname : steps [name] = [name] := by simp [steps, h]
  unfold attach
  split
  · rename_i hlast
    obtain ⟨front, rfl⟩ := List.getLast?_eq_some_iff.mp hlast
    have hempty : steps [""] = [] := rfl
    rw [List.dropLast_concat, steps_append, steps_append, hname, hempty, List.append_nil]
  · rw [steps_append, hname]

theorem isStill_mark : isStill temporaryMark = false := by decide

/-- A name with the mark of a temporary file is a step. -/
theorem isStill_append_mark (name : String) : isStill (name ++ temporaryMark) = false := by
  have hne : ∀ text : String, text.length < 4 → name ++ temporaryMark ≠ text := by
    intro text htext h
    have hlength := congrArg String.length h
    have hmark : temporaryMark.length = 4 := by decide
    rw [String.length_append, hmark] at hlength
    omega
  simp [isStill, hne "" (by decide), hne "." (by decide)]

/-- The steps of the two paths. If the data file has a name, the temporary file has that name with the mark
    and the same steps before it. Otherwise the mark is one more step. -/
theorem parts_temporary (path : DataPath) :
    (∃ front name, name ≠ ".." ∧ path.parts = front ++ [name] ∧
      path.temporary.parts = front ++ [name ++ temporaryMark]) ∨
    ((path.parts = [] ∨ path.parts.getLast? = some "..") ∧
      path.temporary.parts = path.parts ++ [temporaryMark]) := by
  obtain ⟨pieces⟩ := path
  have hpieces := steps_reverse_dropWhile pieces
  show (∃ front name, name ≠ ".." ∧ steps pieces = front ++ [name] ∧
      steps (temporaryPieces pieces) = front ++ [name ++ temporaryMark]) ∨
    ((steps pieces = [] ∨ (steps pieces).getLast? = some "..") ∧
      steps (temporaryPieces pieces) = steps pieces ++ [temporaryMark])
  unfold temporaryPieces
  split
  · rename_i hnil
    rw [hnil] at hpieces
    exact Or.inr ⟨Or.inl hpieces.symm, steps_attach pieces isStill_mark⟩
  rename_i name above hcons
  have hname : isStill name = false := (pieces_of_dropWhile hcons).1
  have hlast : steps [name] = [name] := by simp [steps, hname]
  rw [hcons, List.reverse_cons, steps_append, hlast] at hpieces
  split
  · rename_i hup
    refine Or.inr ⟨Or.inr ?_, steps_attach pieces isStill_mark⟩
    rw [← hpieces, List.getLast?_concat, hup]
  · rename_i hup
    have hmarked : steps [name ++ temporaryMark] = [name ++ temporaryMark] := by
      simp [steps, isStill_append_mark]
    refine Or.inl ⟨steps above.reverse, name, hup, hpieces.symm, ?_⟩
    rw [steps_append, steps_upToLastStep, hmarked]

theorem length_append_mark (name : String) : (name ++ temporaryMark).length = name.length + 4 := by
  have hmark : temporaryMark.length = 4 := by decide
  rw [String.length_append, hmark]

/-- The temporary file is reached by other steps than the data file. -/
theorem parts_temporary_ne (path : DataPath) : path.temporary.parts ≠ path.parts := by
  intro h
  rcases path.parts_temporary with ⟨front, name, -, hparts, hmarked⟩ | ⟨-, hmarked⟩
  · rw [hmarked, hparts] at h
    have hname := (List.cons.inj (List.append_cancel_left h)).1
    have hlength := congrArg String.length hname
    rw [length_append_mark] at hlength
    omega
  · rw [hmarked] at h
    have hlength := congrArg List.length h
    simp at hlength

/-! ## The temporary file stands beside the data file -/

/-- The last piece of the temporary path is a name. -/
theorem getLast?_temporaryPieces (pieces : List String) :
    ∃ name, (temporaryPieces pieces).getLast? = some name ∧ isStill name = false := by
  have hattach : ∃ name, (attach pieces temporaryMark).getLast? = some name ∧ isStill name = false := by
    refine ⟨temporaryMark, ?_, isStill_mark⟩
    unfold attach
    split
    · exact List.getLast?_concat
    · exact List.getLast?_concat
  unfold temporaryPieces
  split
  · exact hattach
  split
  · exact hattach
  · exact ⟨_, List.getLast?_concat, isStill_append_mark _⟩

/-- The temporary path does not ask for a directory. -/
theorem asDirectory_temporary (path : DataPath) : path.temporary.asDirectory = false := by
  obtain ⟨name, hlast, hname⟩ := getLast?_temporaryPieces path.pieces
  have hpieces : path.temporary.pieces.getLast? = some name := hlast
  unfold asDirectory
  rw [hpieces]
  simp [hname]

/-- What stands before a name tells whether a path goes from the root. -/
theorem absolute_append {name : String} (h : name ≠ "") (front rest : List String) :
    absolute ⟨front ++ name :: rest⟩ = (front.head? == some "") := by
  unfold absolute
  cases front with
  | nil => simp [h]
  | cons first front =>
      have hlength : 0 < front.length + (rest.length + 1) := by omega
      simp [hlength]

theorem head?_upToLastStep (pieces : List String) : (upToLastStep pieces).head? = pieces.head? := by
  unfold upToLastStep
  split
  · cases pieces with
    | nil => rfl
    | cons first rest => rfl
  · rename_i last above hcons
    obtain ⟨-, still, rfl⟩ := pieces_of_dropWhile hcons
    rw [List.reverse_cons, List.head?_append, List.head?_append]
    rfl

theorem absolute_attach (pieces : List String) :
    absolute ⟨attach pieces temporaryMark⟩ = absolute ⟨pieces⟩ := by
  have hmark : temporaryMark ≠ "" := by decide
  unfold attach
  split
  · rename_i hlast
    obtain ⟨front, rfl⟩ := List.getLast?_eq_some_iff.mp hlast
    rw [List.dropLast_concat, absolute_append hmark]
    unfold absolute
    cases front with
    | nil => rfl
    | cons first rest => simp
  · rename_i hlast
    rw [absolute_append hmark]
    unfold absolute
    -- a path of one piece that is not empty does not go from the root
    rcases pieces with _ | ⟨first, _ | ⟨second, rest⟩⟩
    · rfl
    · have hfirst : first ≠ "" := by
        intro hempty
        exact hlast (congrArg some hempty)
      simp [hfirst]
    · simp

/-- The temporary path goes from the root exactly if the path of the data file does. -/
theorem absolute_temporary (path : DataPath) : path.temporary.absolute = path.absolute := by
  obtain ⟨pieces⟩ := path
  show absolute ⟨temporaryPieces pieces⟩ = absolute ⟨pieces⟩
  unfold temporaryPieces
  split
  · exact absolute_attach pieces
  rename_i name above hcons
  split
  · exact absolute_attach pieces
  obtain ⟨hname, still, rfl⟩ := pieces_of_dropWhile hcons
  have hne : name ≠ "" := by
    intro hempty
    rw [hempty] at hname
    cases hname
  have hmarked : name ++ temporaryMark ≠ "" := by
    intro hempty
    have hstill := isStill_append_mark name
    rw [hempty] at hstill
    cases hstill
  rw [absolute_append hmarked, head?_upToLastStep, absolute_append hne]

end DataPath

end DocStore
