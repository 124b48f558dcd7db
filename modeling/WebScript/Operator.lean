/-!
# Operators

The operators of expressions, how they are written, and their names in listings.
-/

namespace WebScript

/-- Operators between two operands. -/
inductive BinaryOperator where
  | concat
  | smaller | smallerOrEqual | greater | greaterOrEqual | spaceship
  | equal | notEqual | identical | notIdentical
  | plus | minus | mul | div | mod | pow
  | booleanAnd | booleanOr | logicalAnd | logicalOr | logicalXor
  | bitwiseAnd | bitwiseOr | bitwiseXor
  | coalesce
  | shiftLeft | shiftRight
  deriving DecidableEq, Repr

/-- Operators before one operand. -/
inductive UnaryOperator where
  | not | minus | plus | bitwiseNot
  deriving DecidableEq, Repr

/-- How a binary operator is written. -/
def BinaryOperator.symbol : BinaryOperator → String
  | .concat => "."
  | .smaller => "<"
  | .smallerOrEqual => "<="
  | .greater => ">"
  | .greaterOrEqual => ">="
  | .spaceship => "<=>"
  | .equal => "=="
  | .notEqual => "!="
  | .identical => "==="
  | .notIdentical => "!=="
  | .plus => "+"
  | .minus => "-"
  | .mul => "*"
  | .div => "/"
  | .mod => "%"
  | .pow => "**"
  | .booleanAnd => "&&"
  | .booleanOr => "||"
  | .logicalAnd => "and"
  | .logicalOr => "or"
  | .logicalXor => "xor"
  | .bitwiseAnd => "&"
  | .bitwiseOr => "|"
  | .bitwiseXor => "^"
  | .coalesce => "??"
  | .shiftLeft => "<<"
  | .shiftRight => ">>"

/-- The name of a binary operator in listings. -/
def BinaryOperator.name : BinaryOperator → String
  | .concat => "Concat"
  | .smaller => "Smaller"
  | .smallerOrEqual => "SmallerOrEqual"
  | .greater => "Greater"
  | .greaterOrEqual => "GreaterOrEqual"
  | .spaceship => "Spaceship"
  | .equal => "Equal"
  | .notEqual => "NotEqual"
  | .identical => "Identical"
  | .notIdentical => "NotIdentical"
  | .plus => "Plus"
  | .minus => "Minus"
  | .mul => "Mul"
  | .div => "Div"
  | .mod => "Mod"
  | .pow => "Pow"
  | .booleanAnd => "BooleanAnd"
  | .booleanOr => "BooleanOr"
  | .logicalAnd => "LogicalAnd"
  | .logicalOr => "LogicalOr"
  | .logicalXor => "LogicalXor"
  | .bitwiseAnd => "BitwiseAnd"
  | .bitwiseOr => "BitwiseOr"
  | .bitwiseXor => "BitwiseXor"
  | .coalesce => "Coalesce"
  | .shiftLeft => "ShiftLeft"
  | .shiftRight => "ShiftRight"

/-- All binary operators. -/
def BinaryOperator.all : List BinaryOperator :=
  [.concat, .smaller, .smallerOrEqual, .greater, .greaterOrEqual, .spaceship, .equal, .notEqual,
   .identical, .notIdentical, .plus, .minus, .mul, .div, .mod, .pow, .booleanAnd, .booleanOr,
   .logicalAnd, .logicalOr, .logicalXor, .bitwiseAnd, .bitwiseOr, .bitwiseXor, .coalesce,
   .shiftLeft, .shiftRight]

/-- The binary operator that is written as given. -/
def BinaryOperator.ofSymbol? (symbol : String) : Option BinaryOperator :=
  BinaryOperator.all.find? fun op => op.symbol == symbol

/-- How a unary operator is written. -/
def UnaryOperator.symbol : UnaryOperator → String
  | .not => "!"
  | .minus => "-"
  | .plus => "+"
  | .bitwiseNot => "~"

/-- The name of a unary operator in listings. -/
def UnaryOperator.name : UnaryOperator → String
  | .not => "BooleanNot"
  | .minus => "UnaryMinus"
  | .plus => "UnaryPlus"
  | .bitwiseNot => "BitwiseNot"

/-- The unary operator that is written as given. -/
def UnaryOperator.ofSymbol? (symbol : String) : Option UnaryOperator :=
  [UnaryOperator.not, .minus, .plus, .bitwiseNot].find? fun op => op.symbol == symbol

end WebScript
