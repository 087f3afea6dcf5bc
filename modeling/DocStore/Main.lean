import DocStore.Program
import Std.Time.DateTime.Timestamp

/-!
# The command line

The program on a terminal. Everything it decides is in the console and the invocation; here bytes are
read, times are taken, texts are printed and the steps of saves are executed.

## Contents
- `now`: the time of the system.
- `performSteps`, `flush`: the effects of a console.
- `loop`: the console on standard input.
- `main`: the program.
-/

namespace DocStore.Terminal

open Text (Bytes)

/-- The time of the system. -/
def now : IO Millis := do
  let stamp ← Std.Time.Timestamp.now
  return Int64.ofIntClamp stamp.toMillisecondsSinceUnixEpoch.val

/-- The number of an error of the system, which some operations give negated. -/
def errorNumber (code : UInt32) : Nat :=
  if code.toNat < 0x80000000 then code.toNat else 0x100000000 - code.toNat

/-- The fault behind an error of the system. -/
def faultOf (error : IO.Error) : FileFault :=
  match error with
  | .noFileOrDirectory .. => .notFound
  | .inappropriateType _ code details | .invalidArgument _ code details
  | .permissionDenied _ code details =>
    match errorNumber code with
    | 20 => .notDirectory
    | 21 => .isDirectory
    | 36 => .nameTooLong
    | number => .other (details.capitalize ++ " (os error " ++ toString number ++ ")")
  | error => .other (toString error)

/-- Executes the steps of a save up to the first one that fails. -/
def performSteps : List FileTree.FileOp → IO Unit
  | [] => return
  | op :: rest => do
    let action : IO Unit := match op with
      | .write path content => IO.FS.writeBinFile path.text ⟨content.toArray⟩
      | .rename source target => IO.FS.rename source.text target.text
    match ← action.toBaseIO with
    | .ok () => performSteps rest
    | .error _ => return

/-- A backend whose saves leave steps to execute. -/
class Steps (β : Type) where
  take : β → List (List FileTree.FileOp) × β

instance : Steps Unsaved where
  take backend := ([], backend)

instance : Steps Outbox where
  take outbox := (outbox.steps, { outbox with steps := [] })

variable {β : Type} [Backend β] [Steps β]

/-- Executes the steps of the saves so far and prints what was written so far. -/
def flush (console : Console β) : IO (Console β) := do
  let (plans, backend) := Steps.take console.session.backend
  for plan in plans do
    performSteps plan
  let out ← IO.getStdout
  out.putStr console.output
  out.flush
  return { console with written := [], session := { console.session with backend := backend } }

/-- Reads the bytes up to the next line break or the end of the input. -/
partial def readLine (input : IO.FS.Stream) (seen : ByteArray) : IO ByteArray := do
  let piece ← input.read 1
  if piece.isEmpty then return seen
  let seen := seen ++ piece
  if piece[0]! == 0x0a then return seen else readLine input seen

/-- Waits for a line and redraws the view at the times that are due, `period` milliseconds apart. -/
partial def await (period : Nat) (due : Nat) (line : Task (Except IO.Error ByteArray))
    (console : Console β) : IO (Except IO.Error ByteArray × Nat × Console β) := do
  if ← IO.hasFinished line then return (line.get, due, console)
  let time ← IO.monoMsNow
  if due ≤ time then
    let console ← flush (console.tick (← now))
    await period (due + period * ((time - due) / period + 1)) line console
  else
    IO.sleep (min 10 (due - time)).toUInt32
    await period due line console

/-- The console on an input, up to its end. -/
partial def loop (period : Nat) (due : Nat) (input : IO.FS.Stream) (console : Console β) :
    IO (Console β) := do
  let (result, due, console) ←
    if period = 0 then do
      let bytes ← readLine input .empty
      pure (Except.ok bytes, due, console)
    else do
      let line ← IO.asTask (readLine input .empty) .dedicated
      await period due line console
  let bytes := match result with
    | .ok bytes => bytes.toList
    | .error _ => []
  let time ← now
  let console := console.read (fun _ => time) bytes
  let console := if bytes.isEmpty then console.close (fun _ => time) else console
  let console ← flush console
  if console.ending.isSome then return console else loop period due input console

/-- Runs a console on standard input: the exit code. -/
def talk (period : Nat) (session : Session β) : IO UInt32 := do
  let console ← flush (Console.start (some promptText) session)
  let console ← loop period ((← IO.monoMsNow) + period) (← IO.getStdin) console
  let (code, report) := Ending.status console.ending
  (← IO.getStderr).putStr report
  return code.toUInt32

/-- Reads the data file. -/
def readData (path : String) : IO (Except FileFault Bytes) := do
  match ← (IO.FS.readBinFile path).toBaseIO with
  | .ok bytes => return .ok bytes.toList
  | .error error => return .error (faultOf error)

end DocStore.Terminal

/-- The program. -/
def main (args : List String) : IO UInt32 := do
  match DocStore.Invocation.parse args with
  | .stop code out err =>
    (← IO.getStderr).putStr err
    (← IO.getStdout).putStr out
    return code.toUInt32
  | .run config =>
    if config.memory then
      DocStore.Terminal.talk config.refresh
        (⟨DocStore.Database.empty, DocStore.Unsaved.mk⟩ : DocStore.Session DocStore.Unsaved)
    else
      let content ← DocStore.Terminal.readData config.data
      let path := DocStore.DataPath.parse config.data
      match DocStore.Session.start (DocStore.Outbox.mk path content []) with
      | .error error =>
        (← IO.getStderr).putStr (DocStore.loadFailureText config.data error)
        return 1
      | .ok session => DocStore.Terminal.talk config.refresh session
