import WebScript.Value.Compare

/-!
# The meaning of operators

What each operator makes of its operands. Operands are converted from left to right, and both are
converted before either is found unusable.
-/

namespace WebScript

/-- Both operands as numbers. -/
def numericPair (op : BinaryOperator) (left right : Value) : Noted (Number × Number) := do
  let leftNumber ← left.toNumber
  let rightNumber ← right.toNumber
  match leftNumber, rightNumber with
  | some x, some y => pure (x, y)
  | _, _ => Noted.refuse (.unsupportedOperands op left.type right.type)

/-- Both operands as integers. -/
def intPair (op : BinaryOperator) (left right : Value) : Noted (Int × Int) := do
  let leftInt ← left.toInt
  let rightInt ← right.toInt
  match leftInt, rightInt with
  | some x, some y => pure (x, y)
  | _, _ => Noted.refuse (.unsupportedOperands op left.type right.type)

/-- Arithmetic on two numbers: on integers if both are, else on floats. -/
def arithmetic (onInts : Int → Int → Int) (onFloats : Float → Float → Float) :
    Number → Number → Except Limit Number
  | .int a, .int b => Number.ofInt (onInts a b)
  | x, y => do
    let f ← x.toFloat
    let g ← y.toFloat
    pure (.float (onFloats f g))

/-- The arithmetic of an operator applied to two values. -/
def applyArithmetic (op : BinaryOperator) (onInts : Int → Int → Int)
    (onFloats : Float → Float → Float) (left right : Value) : Noted Value := do
  let (x, y) ← numericPair op left right
  let result ← Noted.ofLimit (arithmetic onInts onFloats x y)
  pure result.toValue

/-- The float nearest to the quotient of two integers. -/
def divideInts (a b : Int) : Except Limit Float :=
  match nearestFloat? (decide (a < 0) != decide (b < 0)) a.natAbs b.natAbs with
  | some f => .ok f
  | none => .error .magnitude

/-- The quotient of two numbers, the second not zero: an integer if both are and it is whole. -/
def divideNumbers : Number → Number → Except Limit Number
  | .int a, .int b => if a % b = 0 then Number.ofInt (a / b) else .float <$> divideInts a b
  | x, y => do
    let f ← x.toFloat
    let g ← y.toFloat
    pure (.float (f / g))

/-- Division. -/
def applyDiv (left right : Value) : Noted Value := do
  let (x, y) ← numericPair .div left right
  if y.isZero then Noted.refuse (.divisionByZero .div)
  else
    let result ← Noted.ofLimit (divideNumbers x y)
    pure result.toValue

/-- The remainder of integer division, with the sign of the dividend. -/
def applyMod (left right : Value) : Noted Value := do
  let (a, b) ← intPair .mod left right
  if b = 0 then Noted.refuse (.divisionByZero .mod) else pure (.int (a.tmod b))

/-- The power of two floats. Zero to a negative power is positive infinity. -/
def powerFloats (base exponent : Float) : Float :=
  if (Number.float base).isZero && (Number.float exponent).order (.int 0) == .lt then infinity
  else base.pow exponent

/-- The power of two numbers. Integer powers are exact where they are computed at all: for exponents
    below 64, and for bases that only repeat, whose powers depend on the parity of the exponent. -/
def powerNumbers : Number → Number → Except Limit Number
  | .int a, .int b =>
    if 0 ≤ b ∧ b < 64 then Number.ofInt (Int.pow a b.toNat)
    else if 0 ≤ b ∧ a.natAbs ≤ 1 then Number.ofInt (Int.pow a (62 + b.toNat % 2))
    else do
      let f ← (Number.int a).toFloat
      let g ← (Number.int b).toFloat
      pure (.float (powerFloats f g))
  | x, y => do
    let f ← x.toFloat
    let g ← y.toFloat
    pure (.float (powerFloats f g))

/-- Exponentiation. -/
def applyPow (left right : Value) : Noted Value := do
  let (x, y) ← numericPair .pow left right
  let result ← Noted.ofLimit (powerNumbers x y)
  pure result.toValue

/-- Addition; the union of two arrays. -/
def applyPlus : Value → Value → Noted Value
  | .array left, .array right => pure (.array (left.union right))
  | left, right => applyArithmetic .plus (· + ·) (· + ·) left right

/-- The character of a code point. Texts hold Unicode scalar values only: the surrogates, from
    `0xD800` to `0xDFFF`, are code points but no characters, and the null character stands in for
    each of them. -/
def charOfNat (n : Nat) : Except Limit Char :=
  if n ≤ 0x10FFFF then .ok (Char.ofNat n)
  else if n ≤ 0x7FFFFFFF then .error .codePoint
  else .error .codePointSize

/-- Combines two strings character by character. Two characters may combine to a surrogate, which
    `charOfNat` replaces by the null character. -/
def combineChars (combine : Nat → Nat → Nat) :
    List Char → List Char → Except Limit (List Char)
  | x :: left, y :: right => do
    let c ← charOfNat (combine x.toNat y.toNat)
    let rest ← combineChars combine left right
    pure (c :: rest)
  | _, _ => .ok []

/-- Fills a text with null characters up to a length. -/
def padNull (width : Nat) (text : List Char) : List Char :=
  text ++ List.replicate (width - text.length) (Char.ofNat 0)

/-- A bitwise operator: on the characters of two strings, else on 64-bit words. The shorter string
    decides the length unless `pad` is set. -/
def applyBitwise (op : BinaryOperator) (onChars : Nat → Nat → Nat)
    (onWords : BitVec 64 → BitVec 64 → BitVec 64) (pad : Bool) :
    Value → Value → Noted Value
  | .str s, .str t =>
    let width := if pad then max s.length t.length else 0
    .ofLimit do
      let chars ← combineChars onChars (padNull width s.toList) (padNull width t.toList)
      pure (.str (String.ofList chars))
  | left, right => do
    let (a, b) ← intPair op left right
    pure (.int (onWords (BitVec.ofInt 64 a) (BitVec.ofInt 64 b)).toInt)

/-- The left shift of a 64-bit word. -/
def shiftWordLeft (a : Int) (count : Nat) : Int :=
  if 64 ≤ count then 0 else (a * Int.pow 2 count).bmod (Nat.pow 2 64)

/-- The arithmetic right shift of a 64-bit word. -/
def shiftWordRight (a : Int) (count : Nat) : Int :=
  if 64 ≤ count then (if 0 ≤ a then 0 else -1) else a / Int.pow 2 count

/-- A shift operator. -/
def applyShift (op : BinaryOperator) (shift : Int → Nat → Int) (left right : Value) :
    Noted Value := do
  let (a, b) ← intPair op left right
  if b < 0 then Noted.refuse (.negativeShift op) else pure (.int (shift a b.toNat))

/-- The truth value of a comparison. -/
def applyComparison (result : Except Limit Bool) : Noted Value :=
  .ofLimit (.bool <$> result)

/-- The value of a binary operator. -/
def BinaryOperator.apply (op : BinaryOperator) (left right : Value) : Noted Value :=
  match op with
  | .concat => do
    let leftText ← left.text
    let rightText ← right.text
    pure (.str (leftText ++ rightText))
  | .smaller => applyComparison (left.isSmaller right)
  | .smallerOrEqual => applyComparison (left.isSmallerOrEqual right)
  | .greater => applyComparison (right.isSmaller left)
  | .greaterOrEqual => applyComparison (right.isSmallerOrEqual left)
  | .spaceship => .ofLimit ((.int ∘ orderToInt) <$> left.spaceship right)
  | .equal => applyComparison (left.looseEq right)
  | .notEqual => applyComparison (not <$> left.looseEq right)
  | .identical => pure (.bool (left.strictEq right))
  | .notIdentical => pure (.bool (!left.strictEq right))
  | .plus => applyPlus left right
  | .minus => applyArithmetic .minus (· - ·) (· - ·) left right
  | .mul => applyArithmetic .mul (· * ·) (· * ·) left right
  | .div => applyDiv left right
  | .mod => applyMod left right
  | .pow => applyPow left right
  | .booleanAnd | .logicalAnd => pure (.bool (left.isTruthy && right.isTruthy))
  | .booleanOr | .logicalOr => pure (.bool (left.isTruthy || right.isTruthy))
  | .logicalXor => pure (.bool (left.isTruthy != right.isTruthy))
  | .bitwiseAnd => applyBitwise .bitwiseAnd (· &&& ·) (· &&& ·) false left right
  | .bitwiseOr => applyBitwise .bitwiseOr (· ||| ·) (· ||| ·) true left right
  | .bitwiseXor => applyBitwise .bitwiseXor (· ^^^ ·) (· ^^^ ·) false left right
  | .coalesce =>
    match left with
    | .null => pure right
    | _ => pure left
  | .shiftLeft => applyShift .shiftLeft shiftWordLeft left right
  | .shiftRight => applyShift .shiftRight shiftWordRight left right

/-- The number that a unary operator is applied to. -/
def numericOperand (op : UnaryOperator) (operand : Value) : Noted Number := do
  match ← operand.toNumber with
  | some number => pure number
  | none => Noted.refuse (.unsupportedOperand op operand.type)

/-- The negative of a number. -/
def negateNumber : Number → Except Limit Number
  | .int n => Number.ofInt (-n)
  | .float f => .ok (.float (-f))

/-- The value of a unary operator. -/
def UnaryOperator.apply (op : UnaryOperator) (operand : Value) : Noted Value :=
  match op with
  | .not => pure (.bool (!operand.isTruthy))
  | .minus => do
    let number ← numericOperand .minus operand
    let result ← Noted.ofLimit (negateNumber number)
    pure result.toValue
  | .plus => do
    let number ← numericOperand .plus operand
    pure number.toValue
  | .bitwiseNot =>
    match operand with
    | .int n => pure (.int (-n - 1))
    | .float f => pure (.int (-(Number.truncateFloat f) - 1))
    | .str s => pure (.str (s.map fun c => Char.ofNat (255 - c.toNat % 256)))
    | _ => Noted.refuse (.unsupportedOperand .bitwiseNot operand.type)

end WebScript
