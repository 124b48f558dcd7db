import WebScript.Eval.Node
import WebScript.Node.Listing

/-!
# Running programs

A run parses a source and evaluates its statements in order on a fresh machine.
-/

namespace WebScript

/-- How deep calls and inclusions may nest. The number stands for the limit that the host sets to
    its own recursion, 50000 frames, of which one call in a program takes about fifteen. It is
    approximate: a call takes more or fewer frames with the statements and expressions around it, so
    where exactly a program that nests this deep is stopped is not part of its meaning. -/
def maxNesting : Nat := 3333

/-- How a run ended. -/
inductive Outcome where
  | finished
  /-- A `return` outside of functions ended the run. -/
  | returned (value : Value)
  | failed (fault : Fault)

/-- A configuration and the machine that runs under it. -/
structure Context where
  config : Config
  machine : Machine

/-- A context in which nothing has run. -/
def Context.start (config : Config) (library : Library) : Context :=
  ⟨config, .start (some library)⟩

/-- Evaluates one node. -/
def evalNode (config : Config) (node : Node) : Eval Value := evalWithin config maxNesting node

/-- Evaluates statements in order. -/
def evalProgram (config : Config) (nodes : List Node) (machine : Machine) : Outcome × Machine :=
  match runStatements (evalNode config) nodes machine with
  | .ok _ after => (.finished, after)
  | .error (.returned value) after => (.returned value, after)
  | .error (.fault fault) after => (.failed fault, after)

/-- Prints the listing of a program if the configuration asks for it. -/
def Machine.writeListing (machine : Machine) (config : Config) (nodes : List Node) : Machine :=
  if config.debug then { machine with output := machine.output ++ listProgram nodes ++ "\n" }
  else machine

/-- Runs statements, after their listing if the configuration asks for it. -/
def Context.execute (context : Context) (nodes : List Node) : Outcome × Context :=
  let (outcome, machine) :=
    evalProgram context.config nodes (context.machine.writeListing context.config nodes)
  (outcome, { context with machine := machine })

/-- The library of a run, in which the file at `path`, if given, counts as loaded. -/
def Library.forRun (library : Library) : (path : Option String) → Except Limit Library
  | some path => library.mark path
  | none => .ok library

/-- Runs a source on a fresh machine. The file at `path`, if given, counts as loaded. -/
def runSource (config : Config) (library : Library) (source : String) (path : Option String) :
    Outcome × Machine :=
  match parse source with
  | .error error => (.failed (.source error), .start (some library))
  | .ok nodes =>
    match library.forRun path with
    | .error limit => (.failed (.limit limit), .start (some library))
    | .ok marked =>
      let (outcome, context) := (Context.start config marked).execute nodes
      (outcome, context.machine)

/-- The path of the file without which a run could not go on. -/
def Outcome.missing? : Outcome → Option String
  | .failed (.error (.requireFailed path _) _) => some path
  | _ => none

/-- The paths that a run asked for and that lead to no file. -/
def missingPaths (events : List Event) (outcome : Outcome) : List String :=
  events.filterMap Event.missing? ++ outcome.missing?.toList

end WebScript
