import WebScript.Fault
import WebScript.Library

/-!
# Events

What a running program reports besides its output: warnings, and details for whoever follows the
run.
-/

namespace WebScript

/-- How important an event is. -/
inductive EventLevel where
  | debug
  | warning
  deriving DecidableEq, Repr

/-- Events of a run. -/
inductive Event where
  | warning (conversion : Warning)
  /-- A file to include does not exist. -/
  | openFailed (keyword path : String)
  | functionRedeclared (name : String)
  | callIgnored (name : String)
  | called (name : String) (args depth : Nat)
  | fileLoaded (path : Path)
  | includeSkipped (keyword path : String)
  | included (keyword path : String) (statements : Nat)
  deriving DecidableEq, Repr

/-- How important an event is. -/
def Event.level : Event → EventLevel
  | .warning _ | .openFailed .. => .warning
  | _ => .debug

/-- The part of the interpreter that reports an event. -/
def Event.reporter : Event → String
  | .warning _ => "strictphp.eval.common"
  | .openFailed .. | .includeSkipped .. | .included .. => "strictphp.eval.include"
  | .functionRedeclared _ | .callIgnored _ => "strictphp.eval.fn"
  | .called .. => "strictphp.runtime"
  | .fileLoaded _ => "strictphp.loader"

/-- The message of a warning. -/
def Warning.message : Warning → String
  | .nonNumeric text => "A non-numeric value encountered: " ++ quoted text
  | .arrayToString => "Array to string conversion"

/-- The message of an event; the top directory of files has the text `root`. -/
def Event.message (root : String) : Event → String
  | .warning conversion => conversion.message
  | .openFailed keyword path =>
    keyword ++ "(" ++ path ++ "): Failed to open stream: No such file or directory"
  | .functionRedeclared name => "function " ++ name ++ " redeclared; replacing earlier definition"
  | .callIgnored name => "call to undeclared function " ++ name ++ "() ignored"
  | .called name args depth =>
    "call " ++ name ++ "(" ++ toString args ++ " args) depth=" ++ toString depth
  | .fileLoaded path => "loaded " ++ path.below root
  | .includeSkipped keyword path => keyword ++ " " ++ path ++ " skipped, already included"
  | .included keyword path statements =>
    keyword ++ " " ++ path ++ " (" ++ toString statements ++ " statements)"

/-- The name of a level. -/
def EventLevel.name : EventLevel → String
  | .debug => "DEBUG"
  | .warning => "WARNING"

/-- The line that reports an event. -/
def Event.line (root : String) (event : Event) : String :=
  event.level.name ++ " " ++ event.reporter ++ ": " ++ event.message root ++ "\n"

/-- The path of the file that an event reports as missing. -/
def Event.missing? : Event → Option String
  | .openFailed _ path => some path
  | _ => none

end WebScript
