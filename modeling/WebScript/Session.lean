import WebScript.Run

/-!
# Sessions

A session evaluates one input after another on the same machine. Inputs that start with a slash are
commands to the session itself.
-/

namespace WebScript

/-- A text that a step wrote to each stream. -/
structure Streams where
  stdout : String := ""
  stderr : String := ""
  deriving DecidableEq, Repr

/-- One text after another, on each stream. -/
def Streams.append (first second : Streams) : Streams :=
  ⟨first.stdout ++ second.stdout, first.stderr ++ second.stderr⟩

instance : Append Streams := ⟨Streams.append⟩

/-- An interactive session. -/
structure Session where
  /-- The configuration that new machines get. -/
  config : Config
  /-- The live machine and its configuration. -/
  context : Context
  /-- The files that programs can include, none of them loaded. -/
  library : Library
  /-- Whether errors are followed by a traceback. -/
  traceback : Bool

namespace Session

/-- A fresh session. -/
def start (config : Config) (library : Library) (traceback : Bool) : Session :=
  ⟨config, .start config library, library, traceback⟩

/-- Turns listings on or off. -/
def setDebug (session : Session) (debug : Bool) : Session :=
  let config := { session.config with debug := debug }
  { session with config := config, context := { session.context with config := config } }

/-- Gives a session other files. Those loaded so far still count as loaded. -/
def withFiles (session : Session) (files : Dict Path String) : Session :=
  let machine := session.context.machine
  let change (library : Library) : Library := { library with files := files }
  { session with
    library := change session.library
    context :=
      { session.context with
        machine := { machine with library := machine.library.map change } } }

/-- Forgets variables, functions and loaded files. -/
def reset (session : Session) : Session :=
  { session with context := .start session.config session.library }

/-- Evaluates an input. An input that is no program changes nothing. -/
def eval (session : Session) (text : String) : Outcome × Session :=
  match parse text with
  | .error error => (.failed (.source error), session)
  | .ok nodes =>
    let (outcome, context) := session.context.execute nodes
    (outcome, { session with context := context })

/-- Takes what has been printed and reported, the earliest first, off the machine. -/
def flush (session : Session) : String × List Event × Session :=
  let machine := session.context.machine
  let emptied := { machine with output := "", log := [] }
  (machine.output, machine.log.reverse,
    { session with context := { session.context with machine := emptied } })

end Session

/-! ## Commands -/

/-- The commands of a session and what they do. -/
def slashCommands : List (String × String) :=
  [("/clear", "Clear the terminal screen"),
   ("/debug", "Toggle the node dump before each input"),
   ("/py-traceback", "Toggle Python traceback on errors"),
   ("/reset", "Reset variables and functions")]

/-- The new state of a switch: as the argument says, or the other one if there is no argument. An
    argument that says nothing gives no answer. -/
def toggle? (arg : String) (current : Bool) : Option Bool :=
  let word := lowerCase arg
  if ["on", "1", "true", "yes"].contains word then some true
  else if ["off", "0", "false", "no"].contains word then some false
  else if arg = "" then some (!current)
  else none

/-- The command and its argument in a line that starts with a slash after blanks. -/
def splitCommand? (line : String) : Option (String × String) :=
  let stripped := trimBlanks line.toList
  if stripped.head? == some '/' then
    let command := stripped.takeWhile (!isBlank ·)
    let arg := (stripped.dropWhile (!isBlank ·)).dropWhile isBlank
    some (String.ofList command, String.ofList arg)
  else none

/-- The word for a state of a switch. -/
def onOff (state : Bool) : String := if state then "on" else "off"

/-- What a command writes, and the session after it. -/
def Session.command (session : Session) (name arg : String) : Streams × Session :=
  match name with
  | "/clear" => ({}, session)
  | "/debug" =>
    match toggle? arg session.config.debug with
    | some state => ({ stdout := "Node dump: " ++ onOff state ++ "\n" }, session.setDebug state)
    | none => ({ stderr := "Usage: /debug [on|off]\n" }, session)
  | "/py-traceback" =>
    match toggle? arg session.traceback with
    | some state =>
      ({ stdout := "Python traceback: " ++ onOff state ++ "\n" },
        { session with traceback := state })
    | none => ({ stderr := "Usage: /py-traceback [on|off]\n" }, session)
  | "/reset" => ({ stdout := "Environment reset.\n" }, session.reset)
  | _ => ({ stderr := "Unknown command: " ++ name ++ "\n" }, session)

/-- What a line does if it is a command. -/
def Session.slash? (session : Session) (line : String) : Option (Streams × Session) :=
  (splitCommand? line).map fun (name, arg) => session.command name arg

end WebScript
