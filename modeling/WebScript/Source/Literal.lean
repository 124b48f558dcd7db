import WebScript.Node
import WebScript.Number
import WebScript.Operator.Apply
import WebScript.Source.Error

/-!
# Literals

What number and string literals stand for. In double quotes a backslash starts an escape, and
`$name` or a braced `$name` stands for the value of a variable; such a string becomes a
concatenation.
-/

namespace WebScript

/-! ## Integers -/

/-- Why an integer literal has no value. -/
inductive LiteralError where
  /-- An octal number with a digit eight or nine. -/
  | badNumber
  | limit (limit : Limit)
  deriving DecidableEq, Repr

/-- The bases of integer literals. -/
inductive Base where
  | binary
  | octal
  | decimal
  | hexadecimal
  deriving DecidableEq, Repr

/-- The number of digits of a base. -/
def Base.size : Base → Nat
  | .binary => 2
  | .octal => 8
  | .decimal => 10
  | .hexadecimal => 16

/-- Whether a letter after a zero marks numbers of a base. -/
def Base.isMark (base : Base) (letter : Char) : Bool :=
  match base with
  | .binary => letter = 'b' || letter = 'B'
  | .octal => letter = 'o' || letter = 'O'
  | .decimal => false
  | .hexadecimal => letter = 'x' || letter = 'X'

/-- The value of a digit of any script, or of a hexadecimal digit. -/
def anyDigitValue? (c : Char) : Option Nat := (digitValue? c).or (hexValue? c)

/-- The number that digits denote in a base. There must be a digit, and decimal digits must not be
    too many. -/
def readDigits (base : Base) (digits : List Char) : Except Limit Nat := do
  let values ← digits.mapM fun c =>
    match anyDigitValue? c with
    | some value => if value < base.size then .ok value else .error .integerText
    | none => .error .integerText
  if values.isEmpty then .error .integerText
  else if base = .decimal && maxDecimalDigits < values.length then .error .digits
  else pure (ofDigits base.size values)

/-- Removes the mark of a base: a zero and a letter. -/
def dropMark (base : Base) : List Char → List Char
  | zero :: letter :: digits =>
    if digitValue? zero == some 0 && base.isMark letter then digits else zero :: letter :: digits
  | digits => digits

/-- The integer that a text denotes in a base: blanks around it, a sign, the mark of the base, and
    digits. All but the digits may be missing. -/
def readInteger (base : Base) (text : List Char) : Except Limit Int :=
  match trimWhile isIntegerBlank text with
  | '-' :: digits => (readDigits base (dropMark base digits)).map (withSign true)
  | '+' :: digits => (readDigits base (dropMark base digits)).map (withSign false)
  | digits => (readDigits base (dropMark base digits)).map (withSign false)

/-- The integer that an integer literal denotes. A zero before further digits makes it octal. -/
def intLiteralValue (text : List Char) : Except LiteralError Int :=
  match text.filter (· ≠ '_') with
  | '0' :: letter :: digits =>
    if Base.hexadecimal.isMark letter then (readInteger .hexadecimal digits).mapError .limit
    else if Base.binary.isMark letter then (readInteger .binary digits).mapError .limit
    else if Base.octal.isMark letter then (readInteger .octal digits).mapError .limit
    else if (letter :: digits).any fun c => c = '8' || c = '9' then .error .badNumber
    else (readInteger .octal ('0' :: letter :: digits)).mapError .limit
  | digits => (readInteger .decimal digits).mapError .limit

/-- An integer literal: an integer unless it is too large, the nearest float then. -/
def intLiteral (text : List Char) : Except LiteralError (Form Node) := do
  let n ← intLiteralValue text
  if n ≤ intMax then pure (.int n)
  else
    match floatOfInt? n with
    | some f => pure (.float f)
    | none => .error (.limit .magnitude)

/-- A float literal. -/
def floatLiteral (text : List Char) : Form Node :=
  match NumberText.take? (text.filter (· ≠ '_')) with
  | some (number, _) =>
    let fraction := number.fraction.getD []
    .float (floatOfDecimal false (ofDigits 10 (number.whole ++ fraction))
      (number.exponent.getD 0 - fraction.length))
  | none => .float (floatOfBits false 0)

/-! ## Single quotes -/

/-- The text between single quotes: a backslash hides a quote or another backslash. -/
def unescapeSingle : List Char → List Char
  | '\\' :: c :: rest =>
    if c = '\\' || c = '\'' then c :: unescapeSingle rest else '\\' :: unescapeSingle (c :: rest)
  | c :: rest => c :: unescapeSingle rest
  | [] => []

/-! ## Double quotes -/

/-- What one place of a double-quoted string stands for. -/
inductive Piece where
  | char (c : Char)
  | variable (name : String)
  deriving DecidableEq, Repr

/-- The characters that a backslash and one letter stand for. -/
def simpleEscape? (c : Char) : Option Char :=
  if c = 'n' then some '\n'
  else if c = 't' then some '\t'
  else if c = 'r' then some '\r'
  else if c = 'v' then some '\x0b'
  else if c = 'e' then some '\x1b'
  else if c = 'f' then some '\x0c'
  else if c = '\\' || c = '$' || c = '"' then some c
  else none

/-- The value of an octal digit. -/
def octalValue? (c : Char) : Option Nat :=
  if '0' ≤ c && c ≤ '7' then some (c.toNat - '0'.toNat) else none

/-- The longest row of digits at the start of a text, at most `most` of them. -/
def takeValues (digitValue : Char → Option Nat) (most : Nat) (text : List Char) : List Nat :=
  ((text.take most).takeWhile fun c => (digitValue c).isSome).filterMap digitValue

/-- The piece that a backslash starts, given what follows it, and the number of characters used. An
    escape that names a surrogate gives the null character, as in `charOfNat`. -/
def escapePiece (rest : List Char) : Except Limit (Piece × Nat) :=
  match rest.head?.bind simpleEscape? with
  | some c => .ok (.char c, 1)
  | none =>
    match takeValues octalValue? 3 rest with
    | digit :: digits =>
      .ok (.char (Char.ofNat (ofDigits 8 (digit :: digits) % 256)), (digit :: digits).length)
    | [] =>
      match rest with
      | 'x' :: hex =>
        match takeValues hexValue? 2 hex with
        | [] => .ok (.char '\\', 0)
        | digits => .ok (.char (Char.ofNat (ofDigits 16 digits)), 1 + digits.length)
      | 'u' :: '{' :: hex =>
        let digits := takeValues hexValue? hex.length hex
        if !digits.isEmpty && (hex.drop digits.length).head? == some '}' then
          (charOfNat (ofDigits 16 digits)).map fun c => (.char c, 3 + digits.length)
        else .ok (.char '\\', 0)
      | _ => .ok (.char '\\', 0)

/-- The name at the start of a text. -/
def leadingName (text : List Char) : List Char :=
  if text.head?.any isNameStart then text.takeWhile isNamePart else []

/-- The piece at a character, and the number of characters used after it. -/
def piece (c : Char) (rest : List Char) : Except Limit (Piece × Nat) :=
  if c = '\\' then escapePiece rest
  else if c = '$' then
    match leadingName rest with
    | [] => .ok (.char c, 0)
    | name => .ok (.variable (String.ofList name), name.length)
  else if c = '{' then
    match rest with
    | '$' :: inner =>
      let name := leadingName inner
      if !name.isEmpty && (inner.drop name.length).head? == some '}' then
        .ok (.variable (String.ofList name), name.length + 2)
      else .ok (.char c, 0)
    | _ => .ok (.char c, 0)
  else .ok (.char c, 0)

/-- The pieces of a double-quoted string; its first `skip` characters belong to an earlier piece. -/
def piecesFrom (skip : Nat) : List Char → Except Limit (List Piece)
  | [] => .ok []
  | c :: rest =>
    match skip with
    | skip + 1 => piecesFrom skip rest
    | 0 => do
      let (first, more) ← piece c rest
      let others ← piecesFrom more rest
      pure (first :: others)

/-- The parts of a double-quoted string: stretches of text and variables. -/
inductive StringPart where
  | text (chars : List Char)
  | variable (name : String)
  deriving DecidableEq, Repr

/-- Joins neighbouring characters. -/
def joinPieces : List Piece → List StringPart
  | [] => []
  | .variable name :: rest => .variable name :: joinPieces rest
  | .char c :: rest =>
    match joinPieces rest with
    | .text chars :: others => .text (c :: chars) :: others
    | others => .text [c] :: others

/-- The operand that a part becomes. -/
def StringPart.toNode (line : Option Int) : StringPart → Node
  | .text chars => ⟨line, .str (String.ofList chars)⟩
  | .variable name => ⟨line, .variable name⟩

/-- Concatenates operands to the right of a node. -/
def concatAll (line : Option Int) (first : Node) (rest : List Node) : Node :=
  rest.foldl (fun left right => ⟨line, .binary .concat left right⟩) first

/-- A double-quoted string: one string, or a concatenation that starts with a string. -/
def doubleLiteral (raw : List Char) (line : Option Int) : Except Limit Node := do
  let pieces ← piecesFrom 0 raw
  match joinPieces pieces with
  | .text chars :: rest =>
    pure (concatAll line ⟨line, .str (String.ofList chars)⟩ (rest.map (StringPart.toNode line)))
  | parts => pure (concatAll line ⟨line, .str ""⟩ (parts.map (StringPart.toNode line)))

end WebScript
