import DocStore.Session
import DocStore.View

/-!
# The console

A console reads lines and writes replies, each followed by the prompt. In between it may redraw the
view. Bytes arrive in pieces of any size, so the console keeps the bytes of an unfinished line.

## Contents
- `Meta`: the lines that are not commands.
- `Emission`, `Ending`, `Console`: what was written, how it ended, and the state.
- `Console.read`, `Console.tick`, `Console.close`: the three things that happen to a console.
- `cutLines`: the finished lines of some bytes.
- `ticksWithin`: how often the view is redrawn in a stretch of time.
-/

namespace DocStore

open Text (Bytes)

/-! ## Lines that are not commands -/

/-- The lines that the console answers itself. -/
inductive Meta
  | view
  | help
  | quit
  deriving DecidableEq

/-- The meaning of a line that is not a command. -/
def Meta.parse (line : String) : Option Meta :=
  if line = ".view" then some .view
  else if line = ".help" then some .help
  else if line = ".quit" ∨ line = ".exit" then some .quit
  else none

/-- The help: the forms of the commands and of the other lines. -/
def helpText : String :=
  String.intercalate "\n"
    (Command.all.map (fun command => "  " ++ command.usage) ++
      ["  .view   show documents and indices", "  .quit   exit"])

/-! ## The state -/

/-- A text that was written, and whether a redrawing wrote it. -/
structure Emission where
  redrawn : Bool
  text : String
  deriving DecidableEq

/-- How a console ends: at the end of its input, or at a line that is no text. -/
inductive Ending
  | finished
  | failed (flaw : Text.Utf8.Flaw)
  deriving DecidableEq

/-- A console: its session, the bytes of the unfinished line, the number of lines so far, what was
    written (last first) and how it ended. -/
structure Console (β : Type) where
  prompt : Option String
  session : Session β
  pending : Bytes
  handled : Nat
  written : List Emission
  ending : Option Ending

namespace Console

variable {β : Type}

/-- The console after it has written a text. -/
def emit (console : Console β) (redrawn : Bool) (text : String) : Console β :=
  { console with written := ⟨redrawn, text⟩ :: console.written }

/-- The console after it has written the prompt. -/
def emitPrompt (console : Console β) (redrawn : Bool) : Console β :=
  match console.prompt with
  | none => console
  | some prompt => console.emit redrawn prompt

/-- The console after it has written a text on lines of its own. -/
def emitBlock (console : Console β) (redrawn : Bool) (text : String) : Console β :=
  console.emit redrawn (text ++ "\n")

/-- A console that has written its first prompt. -/
def start (prompt : Option String) (session : Session β) : Console β :=
  Console.emitPrompt ⟨prompt, session, [], 0, [], none⟩ false

/-- All that was written. -/
def output (console : Console β) : String :=
  String.join (console.written.reverse.map (·.text))

/-! ## Lines -/

/-- The bytes of a line, last one first, without the carriage return that may end it. -/
def withoutReturn : Bytes → Bytes
  | [] => []
  | b :: before => if b = 0x0d then before else b :: before

/-- The finished lines of some bytes, without their line breaks, and the bytes of the unfinished one.
    The lines `done` (last first) came before, and `current` is what the next line has so far (last
    byte first). -/
def cutLines (done : List Bytes) (current : Bytes) : Bytes → List Bytes × Bytes
  | [] => (done.reverse, current.reverse)
  | b :: rest =>
    if b = 0x0a then cutLines ((withoutReturn current).reverse :: done) [] rest
    else cutLines done (b :: current) rest

variable [Backend β]

/-- Answers a line without blanks around it. -/
def answer (now : Millis) (console : Console β) (line : String) : Console β :=
  match Meta.parse line with
  | some .quit => { console with ending := some .finished }
  | some .view =>
    (console.emitBlock false (console.session.database.view now)).emitPrompt false
  | some .help => (console.emitBlock false helpText).emitPrompt false
  | none =>
    match console.session.execute now line with
    | (none, session) => { console with session := session }.emitPrompt false
    | (some reply, session) =>
      ({ console with session := session }.emitBlock false reply.text).emitPrompt false

/-- Takes the bytes of a line. The clock tells the time at which each line is executed, by the number
    of lines before it. Nothing happens to a console that has ended. -/
def takeLine (clock : Nat → Millis) (console : Console β) (line : Bytes) : Console β :=
  if console.ending.isSome then console
  else
    match Text.Utf8.decode line with
    | .error flaw => { console with ending := some (.failed flaw) }
    | .ok text =>
      let now := clock console.handled
      { console with handled := console.handled + 1 }.answer now (String.ofList (Text.trim text))

/-! ## Events -/

/-- Some bytes arrive. -/
def read (clock : Nat → Millis) (console : Console β) (bytes : Bytes) : Console β :=
  let (lines, pending) := cutLines [] console.pending.reverse bytes
  { lines.foldl (takeLine clock) console with pending := pending }

/-- The view is redrawn. -/
def tick (now : Millis) (console : Console β) : Console β :=
  if console.ending.isSome then console
  else (console.emitBlock true (console.session.database.view now)).emitPrompt true

/-- The input ends; an unfinished line counts as a line. -/
def close (clock : Nat → Millis) (console : Console β) : Console β :=
  let console := if console.pending.isEmpty then console else console.takeLine clock console.pending
  if console.ending.isSome then console else { console with ending := some .finished }

end Console

/-- How often the view is redrawn after one time up to another, if that happens at every multiple of
    a period from the start; a period of zero means never. -/
def ticksWithin (period before after : Nat) : Nat :=
  if period = 0 then 0 else after / period - before / period

end DocStore
