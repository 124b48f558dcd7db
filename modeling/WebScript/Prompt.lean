import WebScript.Session

/-!
# The interactive prompt

The prompt collects keystrokes into an input. The enter key submits it once every bracket and quote
is closed. Submitted inputs go to a session.
-/

namespace WebScript

/-! ## Inputs -/

/-- The brackets that are open and the quote that the text is inside of. -/
structure OpenState where
  depth : Int := 0
  quote : Option Char := none
  escaped : Bool := false
  deriving DecidableEq, Repr

/-- Reads one character. -/
def OpenState.step (state : OpenState) (c : Char) : OpenState :=
  match state.quote with
  | some quote =>
    if state.escaped then { state with escaped := false }
    else if c = '\\' then { state with escaped := true }
    else if c = quote then { state with quote := none }
    else state
  | none =>
    if c = '\'' || c = '"' then { state with quote := some c }
    else if c = '(' || c = '[' || c = '{' then { state with depth := state.depth + 1 }
    else if c = ')' || c = ']' || c = '}' then { state with depth := state.depth - 1 }
    else state

/-- Whether a bracket or a quote is still open. -/
def isUnclosed (text : String) : Bool :=
  let state := text.toList.foldl OpenState.step {}
  decide (0 < state.depth) || state.quote.isSome

/-- Characters that cannot be seen and are dropped from inputs. -/
def isInvisible (c : Char) : Bool :=
  [0x200b, 0x200c, 0x200d, 0xfeff, 0xa0, 0x0d].contains c.toNat

/-- An input without invisible characters. -/
def dropInvisible (text : String) : String :=
  String.ofList (text.toList.filter (!isInvisible ·))

/-- The commands that an input can be completed to: name, how far back the completion starts, and
    what the command does. -/
def completions (text : String) : List (String × Int × String) :=
  let chars := text.toList
  if chars.head? == some '/' then
    (slashCommands.filter fun command => chars.isPrefixOf command.1.toList).map fun command =>
      (command.1, -(chars.length : Int), command.2)
  else []

/-! ## Keystrokes -/

/-- Keystrokes. -/
inductive Keystroke where
  | text (typed : String)
  | enter
  | backspace
  | interrupt
  | endOfInput
  deriving DecidableEq, Repr

/-- What a keystroke can bring about. -/
inductive PromptEvent where
  | submitted (text : String)
  | interrupted
  | ended
  deriving DecidableEq, Repr

/-- The input after a keystroke, and what the keystroke brought about. -/
def pressKey (buffer : String) : Keystroke → String × Option PromptEvent
  | .text typed => (buffer ++ typed, none)
  | .enter => if isUnclosed buffer then (buffer ++ "\n", none) else ("", some (.submitted buffer))
  | .backspace => (String.ofList buffer.toList.dropLast, none)
  | .interrupt => ("", some .interrupted)
  | .endOfInput => if buffer = "" then ("", some .ended) else (buffer, none)

/-! ## The loop -/

/-- A message with the line it is about. -/
def withLine (message : String) : Option Int → String
  | some line => message ++ " (line " ++ toString line ++ ")"
  | none => message

/-- The text of a failure that is reported; other failures end the whole program. -/
def Fault.text? : Fault → Option String
  | .error cause line => some (withLine cause.message line)
  | .source (.parse found) => some (withLine found.cause.message found.line)
  | .source (.limit _) | .limit _ => none

/-- What is written about a failure. -/
def errorReport (text : String) (traceback : Bool) : String :=
  "Error: " ++ text ++ "\n" ++ (if traceback then "\nPython traceback:\n" else "")

/-- How events are shown. -/
structure Reporting where
  /-- The text of the top directory. -/
  root : String
  /-- Whether events other than warnings are shown. -/
  verbose : Bool
  deriving DecidableEq, Repr

/-- The lines that report events: warnings, and everything if it is asked for. -/
def Reporting.lines (reporting : Reporting) (events : List Event) : String :=
  String.join
    ((events.filter fun event => reporting.verbose || event.level == .warning).map
      (Event.line reporting.root))

/-- The loop between two keystrokes: a session, and the input typed so far. -/
structure Prompt where
  session : Session
  buffer : String := ""

/-- How the loop goes on. -/
inductive Next where
  | waiting (prompt : Prompt)
  | ended
  /-- A failure that is not reported ends the loop. -/
  | failed (fault : Fault)

/-- What a keystroke does. -/
structure Turn where
  streams : Streams := {}
  /-- The paths that a program asked for and that lead to no file. -/
  missing : List String := []
  next : Next

/-- Hands an input to a session. -/
def Session.submit (session : Session) (reporting : Reporting) (input : String) : Turn :=
  let text := dropInvisible input
  if (trimBlanks text.toList).isEmpty then { next := .waiting { session := session } }
  else
    match session.slash? text with
    | some (streams, after) => { streams := streams, next := .waiting { session := after } }
    | none =>
      let (outcome, evaluated) := session.eval text
      let (output, events, after) := evaluated.flush
      let written : Streams := ⟨output, reporting.lines events⟩
      let turn : Turn :=
        { streams := written
          missing := missingPaths events outcome
          next := .waiting { session := after } }
      match outcome with
      | .failed fault =>
        match fault.text? with
        | some message =>
          { turn with streams := written ++ { stderr := errorReport message after.traceback } }
        | none => { turn with next := .failed fault }
      | _ => { turn with streams := written ++ { stdout := "\n" } }

/-- Presses a key. -/
def Prompt.press (prompt : Prompt) (reporting : Reporting) (key : Keystroke) : Turn :=
  match pressKey prompt.buffer key with
  | (buffer, none) => { next := .waiting { prompt with buffer := buffer } }
  | (buffer, some .interrupted) =>
    { streams := { stdout := "KeyboardInterrupt\n" }
      next := .waiting { prompt with buffer := buffer } }
  | (_, some .ended) => { streams := { stdout := "\n" }, next := .ended }
  | (_, some (.submitted input)) => prompt.session.submit reporting input

/-- The text at the start of the loop. -/
def greeting : String := "strictphp repl (Ctrl-D to exit, / for commands)\n"

/-- What the loop writes for a row of keystrokes, and the failure that ended it if there is one. -/
def Prompt.converse (prompt : Prompt) (reporting : Reporting) :
    List Keystroke → Streams × Option Fault
  | [] => ({}, none)
  | key :: keys =>
    let turn := prompt.press reporting key
    match turn.next with
    | .waiting after =>
      let (streams, fault) := after.converse reporting keys
      (turn.streams ++ streams, fault)
    | .ended => (turn.streams, none)
    | .failed fault => (turn.streams, some fault)

end WebScript
