import DocStore.Console
import DocStore.Invocation

/-!
# The program

A run of the program on arguments, an input and a directory tree.

## Contents
- `loadFailureText`, `loopFailureText`: what is reported when a run fails.
- `Finish`: what a run leaves; `Finish.ofConsole` and `runSession` make one from a console.
- `runProgram`: a whole run.
-/

namespace DocStore

open Text (Bytes)

/-! ## Failures -/

/-- The report of a data file that cannot be loaded. -/
def loadFailureText (path : String) (error : StorageError) : String :=
  "Error: failed to load snapshot from " ++ path ++ "\n\nCaused by:\n    0: " ++ error.message ++
    "\n    1: " ++ error.cause ++ "\n"

/-- The report of a line that is no text. -/
def loopFailureText (flaw : Text.Utf8.Flaw) : String :=
  "Error: command loop failed\n\nCaused by:\n    " ++ flaw.message ++ "\n"

/-! ## Runs -/

/-- What a run leaves: its exit code, its two outputs and the directory tree. -/
structure Finish where
  code : Nat
  out : String
  err : String
  tree : FileTree
  deriving DecidableEq

/-- The prompt of the program. -/
def promptText : String := "> "

/-- The exit code and the report of an ending. -/
def Ending.status : Option Ending → Nat × String
  | some (.failed flaw) => (1, loopFailureText flaw)
  | _ => (0, "")

/-- A run of the console on an input that arrives at once and then ends. -/
def runSession {β : Type} [Backend β] (clock : Nat → Millis) (session : Session β) (input : Bytes) :
    Console β :=
  ((Console.start (some promptText) session).read clock input).close clock

/-- What a run leaves whose console has ended. -/
def Finish.ofConsole {β : Type} (console : Console β) (tree : FileTree) : Finish :=
  let (code, err) := Ending.status console.ending
  ⟨code, console.output, err, tree⟩

/-- A run of the program, in which no redrawing falls before the end of the input. -/
def runProgram (clock : Nat → Millis) (args : List String) (input : Bytes) (tree : FileTree) :
    Finish :=
  match Invocation.parse args with
  | .stop code out err => ⟨code, out, err, tree⟩
  | .run config =>
    if config.memory then
      Finish.ofConsole (runSession clock (⟨Database.empty, Unsaved.mk⟩ : Session Unsaved) input) tree
    else
      match Session.start (Disk.mk (DataPath.parse config.data) tree) with
      | .error error => ⟨1, "", loadFailureText config.data error, tree⟩
      | .ok session =>
        let console := runSession clock session input
        Finish.ofConsole console console.session.backend.tree

end DocStore
