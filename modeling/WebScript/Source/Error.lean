import WebScript.Limit

/-!
# Errors of program texts

Why a text is no program, and where. A literal may also meet a limit of representation.
-/

namespace WebScript

/-- Why a text is no program. -/
inductive ParseCause where
  | unexpectedToken (text : String)
  | unexpectedCharacter (c : Char)
  | unexpectedEnd
  /-- An assignment to something that is neither a variable nor an element of one. -/
  | badTarget
  /-- An octal number with a digit eight or nine. -/
  | badNumber
  /-- Reading the element that `[]` would append. -/
  | appendRead
  deriving DecidableEq, Repr

/-- The message of a parse error. -/
def ParseCause.message : ParseCause → String
  | .unexpectedToken text => "syntax error, unexpected token \"" ++ text ++ "\""
  | .unexpectedCharacter c => "syntax error, unexpected character '" ++ c.toString ++ "'"
  | .unexpectedEnd => "syntax error, unexpected end of file"
  | .badTarget => "Cannot assign to this expression"
  | .badNumber => "Invalid numeric literal"
  | .appendRead => "Cannot use [] for reading"

/-- A parse error and its place. -/
structure ParseError where
  cause : ParseCause
  line : Option Int
  column : Option Nat
  deriving DecidableEq, Repr

/-- Why a text could not be turned into a program. -/
inductive SourceError where
  | parse (error : ParseError)
  | limit (limit : Limit)
  deriving DecidableEq, Repr

end WebScript
