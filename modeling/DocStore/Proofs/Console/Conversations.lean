import DocStore.Proofs.Console.InputLines
import Mathlib.Data.List.ReduceOption
import Mathlib.Data.List.TakeWhile

/-!
# Conversations

What a console does in the end does not depend on how its input is cut into pieces, nor on when the view is
redrawn in between. It is the plain conversation: the prompt, and for each line of the input its answer and
the prompt again, until a line says that it is over, or is no text, or the input ends.

## Contents
- `Happening`, `Console.converse`: bytes that arrive and redrawings, up to the end of the input.
- `obeyed`: the lines of an input that a console obeys.
- `Talk`: the plain conversation.
- `Console.Heard`: what a console has made of some lines. `Console.Heard.takeLine`: a line carries it on;
  `Console.Heard.tick`: a redrawing leaves it alone; `Console.Heard.happenings`: **a whole run**.
- `Console.converse_eq`: **a console holds the plain conversation**.
-/

namespace DocStore

open Text (Bytes)

/-! ## The plain conversation -/

/-- Whether a line ends the conversation: it says so, or it is no text. -/
def endsTalk : Option String → Bool
  | none => true
  | some text => text == ".quit" || text == ".exit"

/-- The lines before the first one that ends the conversation. -/
def obeyed (texts : List (Option String)) : List String :=
  (texts.takeWhile fun text => !endsTalk text).reduceOption

/-- A conversation: its session, what was said to the user and how many lines there were. -/
structure Talk (β : Type) where
  session : Session β
  output : String
  lines : Nat

namespace Talk

variable {β : Type} [Backend β]

/-- The conversation that has said nothing but the prompt. -/
def start (prompt : Option String) (session : Session β) : Talk β :=
  ⟨session, prompt.getD "", 0⟩

/-- What is said to a line, and the session after it. The store has no part in `.view` and `.help`. -/
def reply (now : Millis) (session : Session β) (line : String) : Option String × Session β :=
  if line = ".view" then (some (session.database.view now), session)
  else if line = ".help" then (some helpText, session)
  else
    let (reply, session) := session.execute now line
    (reply.map Reply.text, session)

/-- The conversation after one more line: the reply on lines of its own, and the prompt. -/
def next (prompt : Option String) (clock : Nat → Millis) (talk : Talk β) (line : String) : Talk β :=
  let (said, session) := reply (clock talk.lines) talk.session line
  ⟨session, talk.output ++ (said.map (· ++ "\n")).getD "" ++ prompt.getD "", talk.lines + 1⟩

/-- A whole conversation. -/
def plain (clock : Nat → Millis) (prompt : Option String) (session : Session β)
    (texts : List (Option String)) : Talk β :=
  (obeyed texts).foldl (next prompt clock) (start prompt session)

end Talk

/-! ## What happens to a console -/

/-- Something that happens to a console: bytes arrive, or the view is redrawn. -/
inductive Happening
  | arrival (bytes : Bytes)
  | redrawing (now : Millis)

/-- The bytes that arrive. -/
def Happening.bytes : Happening → Bytes
  | .arrival bytes => bytes
  | .redrawing _ => []

namespace Console

variable {β : Type}

/-- The console without what redrawings have written. -/
def lasting (console : Console β) : Console β :=
  { console with written := console.written.filter fun emission => !emission.redrawn }

variable [Backend β]

/-- The console after something has happened. -/
def happen (clock : Nat → Millis) (console : Console β) : Happening → Console β
  | .arrival bytes => console.read clock bytes
  | .redrawing now => console.tick now

/-- A console from its first prompt to the end of its input. -/
def converse (clock : Nat → Millis) (prompt : Option String) (session : Session β)
    (happenings : List Happening) : Console β :=
  (happenings.foldl (happen clock) (start prompt session)).close clock

end Console

/-! ## One more line -/

/-- After a line that ended the conversation nothing is obeyed. -/
theorem obeyed_append_of_ended {texts : List (Option String)} {last : Option String}
    (h : texts.find? endsTalk = some last) (more : List (Option String)) :
    obeyed (texts ++ more) = obeyed texts := by
  have hshort : (texts.takeWhile fun text => !endsTalk text).length ≠ texts.length := by
    intro hall
    have hopen := List.takeWhile_eq_self_iff.mp ((List.takeWhile_prefix _).eq_of_length hall)
    have hlast := hopen last (List.mem_of_find?_eq_some h)
    rw [List.find?_some h] at hlast
    cases hlast
  rw [obeyed, List.takeWhile_append, if_neg hshort]
  rfl

/-- As long as no line has ended the conversation, the next one is obeyed if it does not end it. -/
theorem obeyed_concat {texts : List (Option String)} (h : texts.find? endsTalk = none)
    (text : Option String) :
    obeyed (texts ++ [text]) = obeyed texts ++ if endsTalk text then [] else text.toList := by
  have hopen : ∀ text ∈ texts, (!endsTalk text) = true := by
    intro text htext
    simpa using List.find?_eq_none.mp h text htext
  rw [obeyed, obeyed, List.takeWhile_append_of_pos hopen, List.takeWhile_eq_self_iff.mpr hopen,
    List.reduceOption_append]
  congr 1
  cases text with
  | none => rfl
  | some text =>
      cases hends : endsTalk (some text) with
      | true => simp [hends]
      | false => simp [hends]

namespace Talk

variable {β : Type} [Backend β] {clock : Nat → Millis} {prompt : Option String}
  {session : Session β} {texts : List (Option String)}

theorem plain_append_of_ended {last : Option String} (h : texts.find? endsTalk = some last)
    (more : List (Option String)) :
    plain clock prompt session (texts ++ more) = plain clock prompt session texts := by
  rw [plain, plain, obeyed_append_of_ended h]

/-- A line that ends the conversation says nothing. -/
theorem plain_concat_ends (h : texts.find? endsTalk = none) {text : Option String}
    (htext : endsTalk text = true) :
    plain clock prompt session (texts ++ [text]) = plain clock prompt session texts := by
  rw [plain, plain, obeyed_concat h, if_pos htext, List.append_nil]

/-- Any other line is one more. -/
theorem plain_concat (h : texts.find? endsTalk = none) {text : String}
    (htext : endsTalk (some text) = false) :
    plain clock prompt session (texts ++ [some text]) =
      next prompt clock (plain clock prompt session texts) text := by
  rw [plain, plain, obeyed_concat h, htext, List.foldl_append]
  rfl

end Talk

/-! ## What a console writes -/

namespace Console

/-- What is written for a reply and the prompt after it, last first. -/
def said (redrawn : Bool) (prompt : Option String) (reply : Option String) : List Emission :=
  prompt.toList.map (Emission.mk redrawn) ++
    reply.toList.map fun text => ⟨redrawn, text ++ "\n"⟩

variable {β : Type}

theorem emitPrompt_eq (console : Console β) (redrawn : Bool) :
    console.emitPrompt redrawn =
      { console with written := console.prompt.toList.map (Emission.mk redrawn) ++ console.written } := by
  obtain ⟨prompt, session, pending, handled, written, ending⟩ := console
  cases prompt with
  | none => rfl
  | some prompt => rfl

/-- A reply and the prompt lengthen the output. -/
theorem output_said (console : Console β) (prompt reply : Option String) :
    ({ console with written := said false prompt reply ++ console.written } : Console β).lasting.output =
      console.lasting.output ++ (reply.map (· ++ "\n")).getD "" ++ prompt.getD "" := by
  have hkept : (said false prompt reply).filter (fun emission => !emission.redrawn) =
      said false prompt reply := by
    cases prompt <;> cases reply <;> rfl
  show String.join (((said false prompt reply ++ console.written).filter
    fun emission => !emission.redrawn).reverse.map (·.text)) = _
  rw [List.filter_append, hkept, List.reverse_append, List.map_append, String.join_append,
    String.append_assoc]
  congr 1
  cases prompt <;> cases reply <;> simp [said]

/-- A redrawing is forgotten. -/
theorem lasting_said (console : Console β) (prompt reply : Option String) :
    ({ console with written := said true prompt reply ++ console.written } : Console β).lasting =
      console.lasting := by
  have hgone : (said true prompt reply).filter (fun emission => !emission.redrawn) = [] := by
    cases prompt <;> cases reply <;> rfl
  unfold lasting
  dsimp only
  rw [List.filter_append, hgone, List.nil_append]

/-- A redrawing writes the view and the prompt, and does nothing else. -/
theorem tick_eq (now : Millis) (console : Console β) :
    console.tick now =
      if console.ending.isSome then console
      else { console with
        written := said true console.prompt (some (console.session.database.view now)) ++
          console.written } := by
  unfold tick
  split
  · rfl
  · rw [emitPrompt_eq]
    simp [said, emitBlock, emit]

variable [Backend β]

/-- A line that does not end the conversation is replied to. -/
theorem answer_eq {line : String} (h : endsTalk (some line) = false) (now : Millis)
    (console : Console β) :
    console.answer now line =
      { console with
        session := (Talk.reply now console.session line).2
        written := said false console.prompt (Talk.reply now console.session line).1 ++
          console.written } := by
  have hgoes : ¬ (line = ".quit" ∨ line = ".exit") := by
    simpa [endsTalk] using h
  unfold answer Meta.parse Talk.reply
  by_cases hview : line = ".view"
  · simp only [if_pos hview]
    rw [emitPrompt_eq]
    simp [said, emitBlock, emit]
  by_cases hhelp : line = ".help"
  · simp only [if_neg hview, if_pos hhelp]
    rw [emitPrompt_eq]
    simp [said, emitBlock, emit]
  · simp only [if_neg hview, if_neg hhelp, if_neg hgoes]
    rcases console.session.execute now line with ⟨_ | reply, session⟩
    · dsimp only
      rw [emitPrompt_eq]
      simp [said]
    · dsimp only
      rw [emitPrompt_eq]
      simp [said, emitBlock, emit]

/-- A line that ends the conversation ends the console. -/
theorem answer_ends {line : String} (h : endsTalk (some line) = true) (now : Millis)
    (console : Console β) : console.answer now line = { console with ending := some .finished } := by
  have hends : line = ".quit" ∨ line = ".exit" := by
    simpa [endsTalk] using h
  rcases hends with rfl | rfl
  · rfl
  · rfl

/-! ## What a console has heard -/

/-- How a console has ended, by the first line that ended the conversation. -/
def EndsBy : Option (Option String) → Option Ending → Prop
  | none, ending => ending = none
  | some none, ending => ∃ flaw, ending = some (.failed flaw)
  | some (some _), ending => ending = some .finished

/-- A console that has heard some lines: redrawings apart, it holds the plain conversation. -/
structure Heard (clock : Nat → Millis) (prompt : Option String) (session : Session β)
    (texts : List (Option String)) (console : Console β) : Prop where
  prompt_eq : console.prompt = prompt
  session_eq : console.session = (Talk.plain clock prompt session texts).session
  output_eq : console.lasting.output = (Talk.plain clock prompt session texts).output
  handled_eq : console.ending = none →
    console.handled = (Talk.plain clock prompt session texts).lines
  ends : EndsBy (texts.find? endsTalk) console.ending

namespace Heard

variable {clock : Nat → Millis} {prompt : Option String} {session : Session β}
  {texts : List (Option String)} {console : Console β}

theorem start (clock : Nat → Millis) (prompt : Option String) (session : Session β) :
    Heard clock prompt session [] (Console.start prompt session) := by
  cases prompt with
  | none => exact ⟨rfl, rfl, rfl, fun _ => rfl, rfl⟩
  | some prompt => exact ⟨rfl, rfl, String.empty_append, fun _ => rfl, rfl⟩

/-- As long as a console has not ended, no line has ended the conversation. -/
theorem find?_eq_none (h : Heard clock prompt session texts console) (hopen : console.ending = none) :
    texts.find? endsTalk = none := by
  have hends := h.ends
  rw [hopen] at hends
  cases hfind : texts.find? endsTalk with
  | none => rfl
  | some last =>
      rw [hfind] at hends
      cases last with
      | none =>
          obtain ⟨flaw, hflaw⟩ := hends
          cases hflaw
      | some text => cases hends

/-- A console that has ended hears nothing. -/
theorem append_of_ended (h : Heard clock prompt session texts console)
    (hended : console.ending.isSome = true) (more : List (Option String)) :
    Heard clock prompt session (texts ++ more) console := by
  obtain ⟨hprompt, hsession, houtput, hhandled, hends⟩ := h
  cases hfind : texts.find? endsTalk with
  | none =>
      rw [hfind] at hends
      rw [show console.ending = none from hends] at hended
      cases hended
  | some last =>
      rw [← Talk.plain_append_of_ended hfind more] at hsession houtput hhandled
      refine ⟨hprompt, hsession, houtput, hhandled, ?_⟩
      rw [List.find?_append, hfind, Option.some_or, ← hfind]
      exact hends

/-- **A line carries the conversation on.** -/
theorem takeLine (h : Heard clock prompt session texts console) (line : Bytes) :
    Heard clock prompt session (texts ++ [lineText line]) (console.takeLine clock line) := by
  unfold Console.takeLine
  split
  · rename_i hended
    exact h.append_of_ended hended _
  rename_i hopen
  have hnone : console.ending = none := Option.not_isSome_iff_eq_none.mp hopen
  have hfind := h.find?_eq_none hnone
  obtain ⟨hprompt, hsession, houtput, hhandled, -⟩ := h
  unfold lineText
  cases hdecode : Text.Utf8.decode line with
  | error flaw =>
      -- a line that is no text ends the conversation without a word
      have htext : endsTalk none = true := rfl
      rw [← Talk.plain_concat_ends hfind htext] at hsession houtput
      refine ⟨hprompt, hsession, houtput, nofun, ?_⟩
      rw [List.find?_append, hfind]
      exact ⟨flaw, rfl⟩
  | ok text =>
      generalize hline : String.ofList (Text.trim text) = trimmed
      have hsome : (Except.toOption (.ok text : Except Text.Utf8.Flaw (List Char))).map
          (fun text => String.ofList (Text.trim text)) = some trimmed := congrArg some hline
      rw [hsome]
      dsimp only
      rw [hline]
      cases hends : endsTalk (some trimmed) with
      | true =>
          rw [← Talk.plain_concat_ends hfind hends] at hsession houtput
          rw [answer_ends hends]
          refine ⟨hprompt, hsession, houtput, nofun, ?_⟩
          rw [List.find?_append, hfind, Option.none_or, List.find?_singleton, if_pos hends]
          rfl
      | false =>
          rw [answer_eq hends]
          refine ⟨hprompt, ?_, ?_, ?_, ?_⟩
          · rw [Talk.plain_concat hfind hends, Talk.next, ← hhandled hnone, ← hsession]
          · rw [Talk.plain_concat hfind hends, Talk.next, ← hhandled hnone, ← hsession, ← houtput,
              ← hprompt]
            exact output_said _ _ _
          · intro _
            rw [Talk.plain_concat hfind hends, Talk.next, ← hhandled hnone]
          · rw [List.find?_append, hfind, Option.none_or, List.find?_singleton, hends]
            exact hnone

/-- **A redrawing leaves the conversation alone.** -/
theorem tick (h : Heard clock prompt session texts console) (now : Millis) :
    Heard clock prompt session texts (console.tick now) := by
  rw [tick_eq]
  split
  · exact h
  · obtain ⟨hprompt, hsession, houtput, hhandled, hends⟩ := h
    refine ⟨hprompt, hsession, ?_, hhandled, hends⟩
    rw [lasting_said]
    exact houtput

/-- Some lines carry it on one after the other. -/
theorem takeLines (lines : List Bytes) : ∀ {texts : List (Option String)} {console : Console β},
    Heard clock prompt session texts console →
      Heard clock prompt session (texts ++ lines.map lineText)
        (lines.foldl (Console.takeLine clock) console) := by
  induction lines with
  | nil =>
      intro texts console h
      rw [List.map_nil, List.append_nil]
      exact h
  | cons line rest ih =>
      intro texts console h
      rw [List.map_cons, ← List.singleton_append, ← List.append_assoc]
      exact ih (h.takeLine line)

/-- **What a run of a console has heard**: the finished lines of its input, wherever it was cut and
    whenever the view was redrawn. The bytes of the open line are kept. By induction on what happens, from
    any open line on. -/
theorem happenings (happenings : List Happening) :
    ∀ {texts : List (Option String)} {console : Console β},
      Heard clock prompt session texts console →
        Heard clock prompt session
          (texts ++ (cutLines [] console.pending.reverse
            (happenings.flatMap Happening.bytes)).1.map lineText)
          (happenings.foldl (happen clock) console) ∧
        (happenings.foldl (happen clock) console).pending =
          (cutLines [] console.pending.reverse (happenings.flatMap Happening.bytes)).2 := by
  induction happenings with
  | nil =>
      intro texts console h
      rw [List.flatMap_nil, cutLines, List.reverse_reverse, List.reverse_nil, List.map_nil,
        List.append_nil]
      exact ⟨h, rfl⟩
  | cons happening rest ih =>
      intro texts console h
      rw [List.flatMap_cons]
      cases happening with
      | redrawing now =>
          have hpending : (console.tick now).pending = console.pending := by
            rw [tick_eq]
            split
            · rfl
            · rfl
          rw [← hpending]
          exact ih (h.tick now)
      | arrival bytes =>
          have hread : Heard clock prompt session
              (texts ++ (cutLines [] console.pending.reverse bytes).1.map lineText)
              (console.read clock bytes) := by
            obtain ⟨hprompt, hsession, houtput, hhandled, hends⟩ := h.takeLines
              (cutLines [] console.pending.reverse bytes).1
            exact ⟨hprompt, hsession, houtput, hhandled, hends⟩
          obtain ⟨hheard, hpending⟩ := ih hread
          have hopen : (console.read clock bytes).pending =
              (cutLines [] console.pending.reverse bytes).2 := rfl
          rw [hopen] at hheard hpending
          show Heard clock prompt session (texts ++ (cutLines [] _ (bytes ++ _)).1.map lineText) _ ∧
            _ = (cutLines [] _ (bytes ++ _)).2
          rw [cutLines_append, cutLines_done, List.reverse_reverse, List.map_append,
            ← List.append_assoc]
          exact ⟨hheard, hpending⟩

/-- The open line is heard at the end of the input, if there is one. -/
theorem close (h : Heard clock prompt session texts console) :
    ∃ last, Heard clock prompt session
        (texts ++ if console.pending.isEmpty then [] else [lineText console.pending]) last ∧
      console.close clock =
        if last.ending.isSome then last else { last with ending := some .finished } := by
  refine ⟨if console.pending.isEmpty then console else console.takeLine clock console.pending, ?_, rfl⟩
  split
  · rw [List.append_nil]
    exact h
  · exact h.takeLine console.pending

end Heard

/-- **A console holds the plain conversation.** Let its input arrive in any pieces, and let the view be
    redrawn at any times in between, with any prompt and on any backend. At the end of the input
    - its session is that of the plain conversation on the lines of the input, so it has the same database
      and the same saves;
    - what was written, without the redrawings, is what the plain conversation says;
    - it has failed if the first line that ends the conversation is no text, and finished otherwise.

    A redrawing writes the view, a line break and the prompt. It changes nothing else, and nothing at all
    once the console has ended. -/
theorem converse_eq (clock : Nat → Millis) (prompt : Option String) (session : Session β)
    (happenings : List Happening) :
    let texts := inputTexts (happenings.flatMap Happening.bytes)
    let plain := Talk.plain clock prompt session texts
    let console := converse clock prompt session happenings
    console.session = plain.session ∧
    console.lasting.output = plain.output ∧
    (if texts.find? endsTalk = some none then ∃ flaw, console.ending = some (.failed flaw)
      else console.ending = some .finished) ∧
    ∀ (now : Millis) (console : Console β), console.tick now =
      if console.ending.isSome then console
      else { console with
        written := (console.prompt.toList.map fun prompt => ⟨true, prompt⟩) ++
          ⟨true, console.session.database.view now ++ "\n"⟩ :: console.written } := by
  intro texts plain console
  obtain ⟨hheard, hpending⟩ := (Heard.start clock prompt session).happenings happenings
  have hstart : (start prompt session).pending = [] := by
    cases prompt <;> rfl
  rw [hstart, List.nil_append] at hheard
  rw [hstart] at hpending
  obtain ⟨last, hlast, hclose⟩ := hheard.close
  rw [hpending, List.reverse_nil, ← inputTexts_eq] at hlast
  have hconsole : console =
      if last.ending.isSome then last else { last with ending := some .finished } := hclose
  have hends : EndsBy (texts.find? endsTalk) last.ending := hlast.ends
  refine ⟨?_, ?_, ?_, ?_⟩
  · rw [hconsole]
    split
    · exact hlast.session_eq
    · exact hlast.session_eq
  · rw [hconsole]
    split
    · exact hlast.output_eq
    · exact hlast.output_eq
  · rw [hconsole]
    cases hfind : texts.find? endsTalk with
    | none =>
        rw [hfind] at hends
        rw [show last.ending = none from hends]
        rfl
    | some text =>
        rw [hfind] at hends
        cases text with
        | none =>
            obtain ⟨flaw, hflaw⟩ := hends
            rw [if_pos rfl, hflaw]
            exact ⟨flaw, hflaw⟩
        | some text =>
            have hfinished : last.ending = some .finished := hends
            rw [if_neg (by simp), hfinished]
            exact hfinished
  · intro now console
    rw [tick_eq, said, List.append_assoc]
    rfl

/-- A line that arrives in three pieces, a redrawing inside it, and nothing after `.quit`. -/
example : (converse (fun _ => 0) (some "> ") (⟨Database.empty, Unsaved.mk⟩ : Session Unsaved)
    [.arrival (Text.Utf8.encode "GE".toList), .redrawing 0,
      .arrival (Text.Utf8.encode "T x\r\n.qu".toList),
      .arrival (Text.Utf8.encode "it\nGET y\n".toList)]).lasting.output =
    "> Error: Key not found: x\n> " := by decide +kernel

end Console

end DocStore
