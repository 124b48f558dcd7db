import WebScript.Limit
import WebScript.Operator
import WebScript.Value

/-!
# Errors of running programs

`Cause` says why a running program cannot go on. `Refusal` adds the limits of representation, and is
what operations on values answer when they have no result. Operations may also leave warnings
behind, which `Noted` collects.
-/

namespace WebScript

/-- Uses of a value, or of an expression, that its type does not admit. -/
inductive Misuse where
  /-- Reading the element that `[]` would append. -/
  | appendRead
  /-- Assigning to an expression of the named kind. -/
  | badTarget (kind : String)
  /-- Assigning to an element of something that is no variable. -/
  | temporaryTarget
  /-- Writing an element of a scalar. -/
  | scalarAsArray (type : ValueType)
  /-- Updating a character of a string. -/
  | stringOffsetUpdate
  /-- A value that cannot be a key. -/
  | illegalOffset (type : ValueType)
  /-- A value that cannot select a character. -/
  | offsetOnString (type : ValueType)
  /-- Reading an element of a value that has none. -/
  | offsetOnScalar (type : ValueType)
  /-- Iterating over a value that is no array. -/
  | notIterable (type : ValueType)
  deriving DecidableEq, Repr

/-- Why a running program cannot go on. -/
inductive Cause where
  | reservedName (name : String)
  | unknownConstant (name : String)
  | indexNotFound (key : Key)
  | unboundVariable (name : String)
  /-- A call without an argument for the parameter `name`, which has no default. -/
  | argumentCount (function name : String) (passed expected : Nat) (exact : Bool)
  | negativeShift (operator : BinaryOperator)
  | divisionByZero (operator : BinaryOperator)
  | unsupportedOperands (operator : BinaryOperator) (left right : ValueType)
  | unsupportedOperand (operator : UnaryOperator) (operand : ValueType)
  | misuse (problem : Misuse)
  | requireFailed (path keyword : String)
  | stackOverflow (depth : Nat)
  | unknownNode (kind : String)
  deriving DecidableEq, Repr

/-- The message of a misuse. -/
def Misuse.message : Misuse → String
  | .appendRead => "Cannot use [] for reading"
  | .badTarget kind => "Cannot assign to " ++ kind
  | .temporaryTarget => "Cannot use a temporary expression in write context"
  | .scalarAsArray type => "Cannot use a scalar value of type " ++ type.name ++ " as an array"
  | .stringOffsetUpdate => "Cannot use assign-op operators with string offsets"
  | .illegalOffset type => "Illegal offset type " ++ type.name
  | .offsetOnString type => "Cannot access offset of type " ++ type.name ++ " on string"
  | .offsetOnScalar type => "Trying to access array offset on value of type " ++ type.name
  | .notIterable type => "foreach() argument must be of type array, " ++ type.name ++ " given"

/-- The message of an error. -/
def Cause.message : Cause → String
  | .reservedName name => "Cannot re-assign $" ++ name
  | .unknownConstant name => "Undefined constant \"" ++ name ++ "\""
  | .indexNotFound (.int n) => "Undefined array key " ++ toString n
  | .indexNotFound (.str s) => "Undefined array key \"" ++ s ++ "\""
  | .unboundVariable name => "Undefined variable $" ++ name
  | .argumentCount function _ passed expected exact =>
    "Too few arguments to function " ++ function ++ "(), " ++ toString passed ++ " passed and " ++
      (if exact then "exactly " else "at least ") ++ toString expected ++ " expected"
  | .negativeShift _ => "Bit shift by negative number"
  | .divisionByZero .mod => "Modulo by zero"
  | .divisionByZero _ => "Division by zero"
  | .unsupportedOperands operator left right =>
    "Unsupported operand types: " ++ left.name ++ " " ++ operator.symbol ++ " " ++ right.name
  | .unsupportedOperand operator operand =>
    "Unsupported operand types: " ++ operator.symbol ++ operand.name
  | .misuse problem => problem.message
  | .requireFailed path _ => "Failed opening required '" ++ path ++ "'"
  | .stackOverflow depth =>
    "Maximum function nesting level of '" ++ toString depth ++ "' reached. Infinite recursion?"
  | .unknownNode kind => "Unknown node: " ++ kind

/-- Why an operation on values has no result. -/
inductive Refusal where
  | cause (cause : Cause)
  | limit (limit : Limit)
  deriving DecidableEq, Repr

/-- Doubtful conversions, which are reported while the program goes on. -/
inductive Warning where
  /-- A string that only starts with a number was used as a number. -/
  | nonNumeric (text : String)
  /-- An array was used as a string. -/
  | arrayToString
  deriving DecidableEq, Repr

/-- The result of an operation, with the warnings that it gave on the way, oldest first. -/
structure Noted (α : Type) where
  warnings : List Warning
  result : Except Refusal α

namespace Noted

variable {α β : Type}

/-- A result of a conversion that can only meet a limit. -/
def ofLimit (result : Except Limit α) : Noted α := ⟨[], result.mapError .limit⟩

/-- Reports a warning. -/
def warn (warning : Warning) : Noted Unit := ⟨[warning], .ok ()⟩

/-- Refuses because of an error. -/
def refuse (cause : Cause) : Noted α := ⟨[], .error (.cause cause)⟩

/-- Performs one operation after another; the second is not performed if the first has no result. -/
def bind (first : Noted α) (next : α → Noted β) : Noted β :=
  match first.result with
  | .ok value =>
    let second := next value
    ⟨first.warnings ++ second.warnings, second.result⟩
  | .error refusal => ⟨first.warnings, .error refusal⟩

instance : Monad Noted where
  pure value := ⟨[], .ok value⟩
  bind := Noted.bind

end Noted

end WebScript
