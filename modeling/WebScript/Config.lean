import WebScript.Dict
import WebScript.Text.LowerCase
import WebScript.Text.Quoted

/-!
# Behaviour switches

The default configuration gives the intended meaning of programs. The reference configuration turns
every switch off, which gives the meaning that programs had in the past.
-/

namespace WebScript

/-- Switches of the evaluator. -/
structure Config where
  /-- A `return` gives the caller its variables back. -/
  restoreScopeOnReturn : Bool := true
  /-- A `return` inside an `if` or a loop ends the function. -/
  propagateReturn : Bool := true
  /-- The right operand of `&&`, `||`, `and`, `or` and `??` is evaluated only if it matters. -/
  shortCircuit : Bool := true
  /-- No condition is evaluated after the one that holds. -/
  shortCircuitElseIf : Bool := true
  /-- Programs are listed before they run. -/
  debug : Bool := false
  deriving DecidableEq, Repr

/-- Every switch off. -/
def Config.reference (debug : Bool) : Config := ⟨false, false, false, false, debug⟩

/-- The variables of the environment in which a program is started. -/
abbrev Environment := Dict String String

/-- The variable that selects the configuration. -/
def compatVariable : String := "STRICTPHP_COMPAT"

/-- The variable that turns listings on. -/
def debugVariable : String := "STRICTPHP_DEBUG"

/-- The variable that turns tracebacks on. -/
def tracebackVariable : String := "STRICTPHP_DEBUG_PY_TRACE"

/-- The value of a variable; one that is not set is empty. -/
def Environment.value (env : Environment) (name : String) : String := (Dict.get? name env).getD ""

/-- The value of a variable without blanks around it and in lower case. -/
def Environment.word (env : Environment) (name : String) : String :=
  lowerCase (String.ofList (trimBlanks (env.value name).toList))

/-- A selection that names no configuration. -/
structure ConfigError where
  value : String
  deriving DecidableEq, Repr

/-- The message of a configuration error. -/
def ConfigError.message (error : ConfigError) : String :=
  compatVariable ++ " must be 'reference' or 'default', got " ++ quoted error.value

/-- The configuration that an environment selects. -/
def Config.ofEnvironment (env : Environment) : Except ConfigError Config :=
  let debug := ["1", "true", "yes", "on"].contains (env.word debugVariable)
  match env.word compatVariable with
  | "reference" => .ok (.reference debug)
  | "" | "default" => .ok { debug := debug }
  | other => .error ⟨other⟩

/-- Whether an environment turns tracebacks on. -/
def Environment.traceback (env : Environment) : Bool :=
  let value := env.value tracebackVariable
  value != "" && value != "0"

end WebScript
