import WebScript.Eval.Machine

/-!
# Calls and inclusions

Running the statements of a function or of another file. How a single node is evaluated is a
parameter here, so that these definitions do not depend on the evaluator.
-/

namespace WebScript

variable (run : Node → Eval Value)

/-- Runs statements in order. -/
def runStatements : List Node → Eval Unit
  | [] => pure ()
  | node :: rest => do
    let _ ← run node
    runStatements rest

/-- Gives a parameter the value of its default. The scope that it is bound in is the one in sight
    when the default begins, which a `return` inside the default may put out of sight. -/
def bindDefault (name : String) (default : Node) : Eval Unit := do
  let scope := (← get).scope
  let value ← run default
  Eval.setVariableIn scope.generation name value

/-- Gives the parameters their values: the arguments in order, then defaults, which see the
    parameters before them. Further arguments are dropped. -/
def bindParams (function : Function) (passed : Nat) : List (Param Node) → List Value → Eval Unit
  | [], _ => pure ()
  | param :: params, arg :: args => do
    Eval.setVariable param.name arg
    bindParams function passed params args
  | param :: params, [] =>
    match param.default with
    | some default => do
      bindDefault run param.name default
      bindParams function passed params []
    | none =>
      let required := function.required
      Eval.raise (.argumentCount function.name param.name passed required
        (required == function.params.length))

/-- Whether a node is a `return` statement. -/
def Node.isReturn (node : Node) : Bool :=
  match node.form with
  | .ret _ => true
  | _ => false

/-- Runs the statements of a function up to the first that is a `return`, whose value it gives. -/
def runUntilReturn : List Node → Eval (Option Value)
  | [] => pure none
  | node :: rest => do
    let value ← run node
    if node.isReturn then pure (some value) else runUntilReturn rest

/-- Runs the statements of a function up to a `return` anywhere in them, whose value it gives. -/
def runToReturn (body : List Node) : Eval (Option Value) := fun machine =>
  match runStatements run body machine with
  | .ok _ after => .ok none after
  | .error (.returned value) after => .ok (some value) after
  | .error exit after => .error exit after

/-- Runs the statements of a function; the result is the value of a `return`, if one ended it. -/
def runBody (config : Config) (body : List Node) : Eval (Option Value) :=
  if config.propagateReturn then runToReturn run body else runUntilReturn run body

/-- The scope of a called function when a `return` leaves it in place of the caller's. -/
def Scope.inPlaceOf (scope caller : Scope) : Scope :=
  { scope with generation := caller.generation + 1 }

/-- Calls a function. It sees only its parameters. The caller's variables are in sight again
    afterwards, except that a `return` may leave those of the function, as configured. -/
def callFunction (config : Config) (function : Function) (args : List Value) : Eval Value :=
  fun machine =>
    let caller :=
      { machine with log := .called function.name args.length machine.callDepth :: machine.log }
    let callee := { caller with scope := .empty, callDepth := caller.callDepth + 1 }
    let leave (restore : Bool) (after : Machine) : Machine :=
      { after with
        callDepth := caller.callDepth
        scope := if restore then caller.scope else after.scope.inPlaceOf caller.scope }
    let body : Eval (Option Value) := do
      bindParams run function args.length function.params args
      runBody run config function.body
    match body callee with
    | .ok (some value) after => .ok value (leave config.restoreScopeOnReturn after)
    | .ok none after => .ok .null (leave true after)
    | .error exit after => .error exit (leave true after)

/-- Runs the statements of another file with the variables in sight. -/
def includeFile (path : String) (once fatal : Bool) : Eval Value := do
  let keyword := requireKeyword once fatal
  let machine ← get
  let (loaded, library) := Library.loadFrom machine.library path once
  set { machine with library := library }
  match loaded with
  | .refused limit => throw (.fault (.limit limit))
  | .missing =>
    if fatal then Eval.raise (.requireFailed path keyword)
    else do
      Eval.report (.openFailed keyword path)
      pure (.bool false)
  | .skipped => do
    Eval.report (.includeSkipped keyword path)
    pure (.bool true)
  | .program resolved parsed => do
    Eval.report (.fileLoaded resolved)
    match parsed with
    | .error error => throw (.fault (.source error))
    | .ok nodes => do
      Eval.report (.included keyword path nodes.length)
      Eval.orReturned do
        runStatements run nodes
        pure (.int 1)

end WebScript
