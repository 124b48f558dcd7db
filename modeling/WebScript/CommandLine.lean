import WebScript.Prompt

/-!
# The command line

What the program does with its arguments: run a file or the standard input, or start the interactive
prompt.
-/

namespace WebScript

/-- How the program is used. -/
def usage : String := "usage: strictphp [--debug] [--reference] [--verbose] [FILE | -]"

/-- Why arguments are refused. -/
inductive ArgumentError where
  | unknownOption (option : String)
  | unexpectedArgument (argument : String)
  | noSuchFile (path : String)
  deriving DecidableEq, Repr

/-- The message of an argument error. -/
def ArgumentError.message : ArgumentError → String
  | .unknownOption option => "Unknown option: " ++ option ++ "\n" ++ usage
  | .unexpectedArgument argument => "Unexpected argument: " ++ argument ++ "\n" ++ usage
  | .noSuchFile path => "Could not open input file: " ++ path

/-- What the arguments ask for. -/
structure Options where
  config : Config
  verbose : Bool := false
  /-- The file to run. -/
  file : Option String := none
  deriving DecidableEq, Repr

/-- What reading the arguments gives. -/
inductive Request where
  | help
  | run (options : Options)
  | refused (error : ArgumentError)
  deriving DecidableEq, Repr

/-- Reads the arguments from left to right; the first that asks for help or is wrong decides. -/
def readArguments (options : Options) : List String → Request
  | [] => .run options
  | argument :: rest =>
    if argument = "--debug" then
      readArguments { options with config := { options.config with debug := true } } rest
    else if argument = "--reference" then
      readArguments { options with config := .reference options.config.debug } rest
    else if argument = "-v" || argument = "--verbose" then
      readArguments { options with verbose := true } rest
    else if argument = "-h" || argument = "--help" then .help
    else if ['-', '-'].isPrefixOf argument.toList then .refused (.unknownOption argument)
    else
      match options.file with
      | none => readArguments { options with file := some argument } rest
      | some _ => .refused (.unexpectedArgument argument)

/-- How the program ended. -/
inductive Ending where
  | exit (code : Nat)
  | badConfig (error : ConfigError)
  | refused (error : ArgumentError)
  | failed (fault : Fault)

/-- What the program has to do. -/
inductive Task where
  | help
  /-- To refuse the arguments, or the environment. -/
  | stop (ending : Ending)
  /-- To start the interactive prompt. -/
  | converse (options : Options)
  | runInput (options : Options)
  | runFile (options : Options) (path : String)

/-- The task of the program; `terminal` says whether its standard input is a terminal. -/
def Task.choose (environment : Environment) (terminal : Bool) (arguments : List String) : Task :=
  match Config.ofEnvironment environment with
  | .error error => .stop (.badConfig error)
  | .ok config =>
    match readArguments { config := config } arguments with
    | .help => .help
    | .refused error => .stop (.refused error)
    | .run options =>
      match options.file with
      | none => if terminal then .converse options else .runInput options
      | some path => if path = "" || path = "-" then .runInput options else .runFile options path

/-- What a run of the program wrote and how it ended. -/
structure Report where
  streams : Streams := {}
  ending : Ending
  /-- The paths that the program asked for and that lead to no file. -/
  missing : List String := []

/-- What the program runs in. -/
structure Surroundings where
  environment : Environment
  library : Library
  /-- The text of the top directory. -/
  root : String

/-- How events are shown. -/
def Surroundings.reporting (surroundings : Surroundings) (options : Options) : Reporting :=
  ⟨surroundings.root, options.verbose⟩

/-- Runs a source, from the file at `path` if it is given, and reports its failure. -/
def runReported (surroundings : Surroundings) (options : Options) (source : String)
    (path : Option String) : Report :=
  let (outcome, machine) :=
    runSource options.config surroundings.library (readText source) path
  let events := machine.log.reverse
  let written : Streams := ⟨machine.output, (surroundings.reporting options).lines events⟩
  let report : Report :=
    { streams := written, ending := .exit 0, missing := missingPaths events outcome }
  match outcome with
  | .failed fault =>
    match fault.text? with
    | some message =>
      let reported := errorReport message surroundings.environment.traceback
      { report with streams := written ++ { stderr := reported }, ending := .exit 1 }
    | none => { report with ending := .failed fault }
  | _ => report

/-- The prompt at the start of the interactive loop. -/
def openPrompt (surroundings : Surroundings) (options : Options) : Prompt :=
  { session :=
      .start options.config surroundings.library surroundings.environment.traceback }

/-- Answers a row of keystrokes. -/
def converseReported (surroundings : Surroundings) (options : Options) (keys : List Keystroke) :
    Report :=
  let (streams, fault) :=
    (openPrompt surroundings options).converse (surroundings.reporting options) keys
  { streams := { stdout := greeting } ++ streams
    ending :=
      match fault with
      | some fault => .failed fault
      | none => .exit 0 }

/-- The standard input. -/
inductive Input where
  | text (contents : String)
  | terminal (keys : List Keystroke)

/-- The text that can be read from the standard input; on a terminal nothing is typed for it. -/
def Input.contents : Input → String
  | .text contents => contents
  | .terminal _ => ""

/-- The keystrokes of the standard input. -/
def Input.keys : Input → List Keystroke
  | .text _ => []
  | .terminal keys => keys

/-- Whether the standard input is a terminal. -/
def Input.isTerminal : Input → Bool
  | .text _ => false
  | .terminal _ => true

/-- What the program writes and how it ends. -/
def runCommand (surroundings : Surroundings) (input : Input) (arguments : List String) : Report :=
  match Task.choose surroundings.environment input.isTerminal arguments with
  | .help => { streams := { stdout := usage ++ "\n" }, ending := .exit 0 }
  | .stop ending => { ending := ending }
  | .converse options => converseReported surroundings options input.keys
  | .runInput options => runReported surroundings options input.contents none
  | .runFile options path =>
    match surroundings.library.openFile path with
    | .ok (some contents) => runReported surroundings options contents (some path)
    | .ok none => { ending := .refused (.noSuchFile path) }
    | .error limit => { ending := .failed (.limit limit) }

end WebScript
