import WebScript.CommandLine

/-!
# The program

Reads the arguments, the environment, the standard input and files, hands them to the definitions of
the library and writes what they answer.

A run says which files it missed. Those that can be read are added to the library and the run starts
anew, until it misses none that can be read; only then is anything written. Runs have no effects of
their own, so that the discarded ones cannot be noticed.
-/

namespace WebScript

/-- Writes texts to the standard streams. -/
def Streams.print (streams : Streams) : IO Unit := do
  let stdout ← IO.getStdout
  stdout.putStr streams.stdout
  stdout.flush
  (← IO.getStderr).putStr streams.stderr

/-- What is written when the program stops early. -/
def Ending.message? : Ending → Option String
  | .exit _ => none
  | .badConfig error => some error.message
  | .refused error => some error.message
  | .failed (.limit limit) | .failed (.source (.limit limit)) => some limit.message
  | .failed fault => fault.text?

/-- The exit code of the program. -/
def Ending.code : Ending → UInt32
  | .exit code => UInt32.ofNat code
  | _ => 1

/-- Ends the program. -/
def Ending.finish (ending : Ending) : IO UInt32 := do
  if let some message := ending.message? then IO.eprintln message
  return ending.code

/-- The contents of a file, if it can be read. -/
def readFile? (path : String) : IO (Option String) := do
  try
    return some (← IO.FS.readFile path)
  catch _ =>
    return none

/-- The library with the missing files that can be read, if there are any. -/
def fetch? (library : Library) (missing : List String) : IO (Option Library) := do
  let mut files := library.files
  for path in missing do
    if let .ok resolved := library.resolve path then
      if !Dict.contains resolved files then
        if let some contents ← readFile? (resolved.below "") then
          files := Dict.insert resolved contents files
  return if files.length = library.files.length then none
    else some { library with files := files }

/-- Runs again and again, until no file is missing that can be read. -/
partial def settle {α : Type} [Nonempty α] (library : Library) (missing : α → List String)
    (run : Library → α) : IO α := do
  let result := run library
  match ← fetch? library (missing result) with
  | some grown => settle grown missing run
  | none => return result

/-- The lines of the standard input, up to its end. -/
partial def readAll (stream : IO.FS.Stream) (before : String) : IO String := do
  let line ← stream.getLine
  if line.isEmpty then return before else readAll stream (before ++ line)

instance : Nonempty Turn := ⟨{ next := .ended }⟩

instance : Nonempty Report := ⟨{ ending := .exit 0 }⟩

/-- Runs a source and writes its report. -/
def runAndPrint (surroundings : Surroundings) (options : Options) (source : String)
    (path : Option String) : IO UInt32 := do
  let report ← settle surroundings.library Report.missing fun library =>
    runReported { surroundings with library := library } options source path
  report.streams.print
  report.ending.finish

/-- The keystrokes that stand for a line of input. No line at all is the end of the input, which
    also drops what has been typed. -/
def lineKeys (buffer line : String) : List Keystroke :=
  if line.isEmpty then (if buffer.isEmpty then [] else [.interrupt]) ++ [.endOfInput]
  else [.text (String.ofList (line.toList.filter (· ≠ '\n'))), .enter]

/-- Presses keys one after another and writes what they do. -/
def pressAll (reporting : Reporting) (prompt : Prompt) : List Keystroke → IO Next
  | [] => return .waiting prompt
  | key :: keys => do
    let library := { prompt.session.library with files := [] }
    let turn ← settle library Turn.missing fun grown =>
      { prompt with session := prompt.session.withFiles grown.files }.press reporting key
    turn.streams.print
    match turn.next with
    | .waiting after => pressAll reporting after keys
    | other => return other

/-- The interactive loop. -/
partial def converseLoop (reporting : Reporting) (prompt : Prompt) : IO UInt32 := do
  let stdout ← IO.getStdout
  stdout.putStr (if prompt.buffer.isEmpty then "php> " else "... ")
  stdout.flush
  let line ← (← IO.getStdin).getLine
  match ← pressAll reporting prompt (lineKeys prompt.buffer line) with
  | .waiting after => converseLoop reporting after
  | .ended => return 0
  | .failed fault => (Ending.failed fault).finish

/-- The variables of the environment that have a meaning. -/
def readEnvironment : IO Environment := do
  let mut environment : Environment := []
  for name in [compatVariable, debugVariable, tracebackVariable] do
    if let some value ← IO.getEnv name then environment := Dict.insert name value environment
  return environment

end WebScript

open WebScript

/-- Runs the file or the input that the arguments name, or starts the prompt. -/
def main (arguments : List String) : IO UInt32 := do
  let stdin ← IO.getStdin
  let directory := resolvePath [] ((← IO.getEnv "PWD").getD "")
  let surroundings : Surroundings := ⟨← readEnvironment, .ofFiles directory [], ""⟩
  match Task.choose surroundings.environment (← stdin.isTty) arguments with
  | .help => IO.println usage; return 0
  | .stop ending => ending.finish
  | .converse options =>
    IO.print greeting
    converseLoop (surroundings.reporting options) (openPrompt surroundings options)
  | .runInput options => runAndPrint surroundings options (← readAll stdin "") none
  | .runFile options path =>
    match ← readFile? path with
    | some contents => runAndPrint surroundings options contents (some path)
    | none => (Ending.refused (.noSuchFile path)).finish
