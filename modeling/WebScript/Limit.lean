/-!
# Limits of the number and text representations

A few results do not fit the representation that should hold them. Such a failure is neither an
error of the running program nor of its text: it ends the whole run, or the whole session.
-/

namespace WebScript

/-- The ways in which a result can fail to be represented. -/
inductive Limit where
  /-- An integer whose nearest float would be infinite. -/
  | magnitude
  /-- Decimal text with more digits than are read. -/
  | digits
  /-- A number that is no code point. -/
  | codePoint
  /-- A number for a code point that does not even fit in a signed word of 32 bits. -/
  | codePointSize
  /-- A text that is no integer in its base. -/
  | integerText
  /-- A path with a null character. -/
  | pathCharacter
  /-- A path, or a name in it, that is longer than paths can be. -/
  | pathLength
  deriving DecidableEq, Repr

/-- The message of a limit. -/
def Limit.message : Limit → String
  | .magnitude => "integer too large to convert to a float"
  | .digits => "too many decimal digits"
  | .codePoint => "code point out of range"
  | .codePointSize => "code point too large"
  | .integerText => "invalid integer"
  | .pathCharacter => "null character in a path"
  | .pathLength => "path too long"

/-- The number of decimal digits that can be read as one integer. -/
def maxDecimalDigits : Nat := 4300

end WebScript
