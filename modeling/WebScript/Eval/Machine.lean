import WebScript.Config
import WebScript.Event
import WebScript.Value.Element

/-!
# The state of a running program

A program runs on a machine: the variables in sight, the functions declared so far, the files, the
output and the log. Evaluation ends with a value or with an `Exit`; either way the machine is what
it has become by then.
-/

namespace WebScript

/-! ## Variables -/

/-- The name that no variable can have. -/
def reservedName : String := "this"

/-- The variables in sight. A call starts with a scope of its own, and a `return` in it may leave
    that scope in sight afterwards, in place of the caller's. -/
structure Scope where
  /-- The variables, the oldest first. -/
  bindings : Dict String Value
  /-- How often another scope has been left in place of the one in sight, in the call that is going
      on. It tells the scopes that come into sight during one call apart. -/
  generation : Nat

namespace Scope

/-- No variables, where nothing has been left in sight yet. -/
def empty : Scope := ⟨[], 0⟩

/-- The value of a variable. -/
def get? (scope : Scope) (name : String) : Option Value := Dict.get? name scope.bindings

/-- The value of a variable that must be there. -/
def get (scope : Scope) (name : String) : Except Cause Value :=
  match scope.get? name with
  | some value => .ok value
  | none => .error (.unboundVariable name)

/-- Whether there is a variable of a name. -/
def contains (scope : Scope) (name : String) : Bool := Dict.contains name scope.bindings

/-- Gives a variable a value. -/
def set (scope : Scope) (name : String) (value : Value) : Except Cause Scope :=
  if name = reservedName then .error (.reservedName name)
  else .ok { scope with bindings := Dict.insert name value scope.bindings }

end Scope

/-! ## Functions -/

/-- A declared function. -/
structure Function where
  name : String
  params : List (Param Node)
  body : List Node

/-- The number of parameters up to the last one without a default. -/
def requiredCount {ν : Type} : List (Param ν) → Nat
  | [] => 0
  | param :: rest =>
    match requiredCount rest with
    | 0 => if param.default.isNone then 1 else 0
    | count => count + 1

/-- The number of arguments that a function needs. -/
def Function.required (function : Function) : Nat := requiredCount function.params

/-- The declared functions by name in lower case. -/
structure FunctionTable where
  definitions : Dict String Function

namespace FunctionTable

/-- No functions. -/
def empty : FunctionTable := ⟨[]⟩

/-- The function of a name, in any case. -/
def lookup? (table : FunctionTable) (name : String) : Option Function :=
  Dict.get? (lowerCase name) table.definitions

/-- Whether there is a function of a name, in any case. -/
def contains (table : FunctionTable) (name : String) : Bool :=
  Dict.contains (lowerCase name) table.definitions

/-- Declares a function; an earlier one of the same name is replaced. -/
def define (table : FunctionTable) (function : Function) : FunctionTable :=
  ⟨Dict.insert (lowerCase function.name) function table.definitions⟩

/-- The number of functions. -/
def size (table : FunctionTable) : Nat := table.definitions.length

end FunctionTable

/-! ## Ends of evaluation -/

/-- Why a run failed. -/
inductive Fault where
  /-- The program cannot go on, at the given line if it is known. -/
  | error (cause : Cause) (line : Option Int)
  | limit (limit : Limit)
  /-- A file that the program includes is no program. -/
  | source (error : SourceError)
  deriving DecidableEq, Repr

/-- Ways in which evaluation ends without a value of its own. -/
inductive Exit where
  /-- A `return` is looking for its function. -/
  | returned (value : Value)
  | fault (fault : Fault)

/-- Gives an error the line of the node it passes through, unless it has one. -/
def Exit.locate (line : Option Int) : Exit → Exit
  | .fault (.error cause none) => .fault (.error cause line)
  | other => other

/-! ## Machines -/

/-- The state of a running program. -/
structure Machine where
  scope : Scope
  functions : FunctionTable
  /-- The files, unless the program has to do without. -/
  library : Option Library
  /-- What has been printed. -/
  output : String
  /-- What has been reported, the latest first. -/
  log : List Event
  /-- The number of calls that are going on. -/
  callDepth : Nat

/-- The machine at the start of a run. -/
def Machine.start (library : Option Library) : Machine := ⟨.empty, .empty, library, "", [], 0⟩

/-- Evaluation: it changes the machine and ends with a value or an exit. -/
abbrev Eval := EStateM Exit Machine

namespace Eval

variable {α : Type}

/-- Fails with an error. -/
def raise (cause : Cause) : Eval α := throw (.fault (.error cause none))

/-- The result of an operation that may fail with an error. -/
def ofCause : Except Cause α → Eval α
  | .ok value => pure value
  | .error cause => raise cause

/-- The result of an operation that may refuse. -/
def ofRefusal : Except Refusal α → Eval α
  | .ok value => pure value
  | .error (.cause cause) => raise cause
  | .error (.limit limit) => throw (.fault (.limit limit))

/-- Reports an event. -/
def report (event : Event) : Eval Unit :=
  modify fun machine => { machine with log := event :: machine.log }

/-- The result of an operation, after reporting its warnings. -/
def ofNoted (noted : Noted α) : Eval α := do
  modify fun machine =>
    { machine with log := (noted.warnings.map Event.warning).reverse ++ machine.log }
  ofRefusal noted.result

/-- Prints a text. -/
def write (text : String) : Eval Unit :=
  modify fun machine => { machine with output := machine.output ++ text }

/-- Gives errors that pass through a node the node's line. -/
def located (line : Option Int) (action : Eval α) : Eval α := fun machine =>
  match action machine with
  | .ok value after => .ok value after
  | .error exit after => .error (exit.locate line) after

/-- Reads a variable. -/
def readVariable (name : String) : Eval Value := do
  ofCause ((← get).scope.get name)

/-- Gives a variable a value. -/
def setVariable (name : String) (value : Value) : Eval Unit := do
  let machine ← get
  let scope ← ofCause (machine.scope.set name value)
  set { machine with scope := scope }

/-- Gives a variable of an earlier scope a value. Nothing comes of it if another scope has been left
    in sight since then, for the earlier one is never in sight again. -/
def setVariableIn (generation : Nat) (name : String) (value : Value) : Eval Unit := do
  let machine ← get
  let scope ← ofCause (machine.scope.set name value)
  if machine.scope.generation = generation then set { machine with scope := scope }

/-- The value of an action, or that of the `return` that ended it. -/
def orReturned (action : Eval Value) : Eval Value := fun machine =>
  match action machine with
  | .error (.returned value) after => .ok value after
  | other => other

end Eval

end WebScript
