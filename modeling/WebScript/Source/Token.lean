import WebScript.Operator
import WebScript.Text.LowerCase

/-!
# Tokens

A program text is a row of tokens with blanks and comments between them. At each place the first
kind of token that fits is taken, in the order: numbers, variables, words, strings, comments,
blanks, symbols. A character that starts no token becomes a `stray` token.

`scan` says what stands at the start of a text and how many characters it has beyond the first.
-/

namespace WebScript

/-- The words that introduce a construct. -/
inductive Keyword where
  | echo | conditional | elseIf | otherwise | foreach | as | function | ret | array
  deriving DecidableEq, Repr

/-- What a token is. -/
inductive Lexeme where
  | variable (name : String)
  | identifier (name : String)
  | int (text : List Char)
  | float (text : List Char)
  /-- A single-quoted string: what stands between the quotes. -/
  | single (raw : List Char)
  /-- A double-quoted string: what stands between the quotes. -/
  | double (raw : List Char)
  | keyword (word : Keyword)
  | require (once fatal : Bool)
  /-- An operator that only stands between operands. -/
  | binary (op : BinaryOperator)
  /-- An operator that only stands before an operand. -/
  | unary (op : UnaryOperator)
  /-- A plus or minus sign, which stands before an operand or between two. -/
  | sign (minus : Bool)
  /-- An operator joined with an equals sign. -/
  | compound (op : BinaryOperator)
  | equals | arrow | comma | semicolon
  | openParen | closeParen | openBracket | closeBracket | openBrace | closeBrace
  /-- A character that starts no token. -/
  | stray (c : Char)
  deriving DecidableEq, Repr

/-- A token with its text and the place where it starts; lines and columns count from one. -/
structure Token where
  lexeme : Lexeme
  text : String
  line : Nat
  column : Nat
  deriving DecidableEq, Repr

/-! ## Numbers -/

/-- The length of the further digits of a number, single underscores allowed before each. -/
def digitTail (isDigit : Char → Bool) : List Char → Nat
  | [] => 0
  | c :: rest =>
    if isDigit c then 1 + digitTail isDigit rest
    else if c = '_' then
      match rest with
      | d :: after => if isDigit d then 2 + digitTail isDigit after else 0
      | [] => 0
    else 0

/-- The length of the digits at the start of a text. -/
def digitRun (isDigit : Char → Bool) : List Char → Nat
  | [] => 0
  | c :: rest => if isDigit c then 1 + digitTail isDigit rest else 0

/-- The length of the exponent at the start of a text. -/
def exponentLength : List Char → Nat
  | mark :: rest =>
    if mark = 'e' || mark = 'E' then
      let signLength :=
        match rest with
        | c :: _ => if c = '+' || c = '-' then 1 else 0
        | [] => 0
      match digitRun isDecimalDigit (rest.drop signLength) with
      | 0 => 0
      | digits => 1 + signLength + digits
    else 0
  | [] => 0

/-- The length of the float at the start of a text: digits with an exponent, or digits around a
    point with an optional exponent. -/
def floatLength (text : List Char) : Nat :=
  let whole := digitRun isDecimalDigit text
  let exponent := if whole = 0 then 0 else exponentLength (text.drop whole)
  if exponent ≠ 0 then whole + exponent
  else
    match text.drop whole with
    | '.' :: afterPoint =>
      let fraction := digitRun isDecimalDigit afterPoint
      if whole = 0 && fraction = 0 then 0
      else whole + 1 + fraction + exponentLength (afterPoint.drop fraction)
    | _ => 0

/-- The digits of a notation that a letter after a zero announces. -/
def announcedDigits (letter : Char) : Option (Char → Bool) :=
  if letter = 'x' || letter = 'X' then some fun c => (hexValue? c).isSome
  else if letter = 'b' || letter = 'B' then some fun c => c = '0' || c = '1'
  else if letter = 'o' || letter = 'O' then some fun c => '0' ≤ c && c ≤ '7'
  else none

/-- The length of the integer at the start of a text. -/
def intLength (text : List Char) : Nat :=
  let announced :=
    match text with
    | '0' :: letter :: digits =>
      match announcedDigits letter with
      | some isDigit => digitRun isDigit digits
      | none => 0
    | _ => 0
  if announced ≠ 0 then 2 + announced else digitRun isDecimalDigit text

/-! ## Strings and comments -/

/-- The length of a text up to and with the closing quote; a backslash keeps the next character from
    closing. -/
def closingQuote? (quote : Char) : List Char → Option Nat
  | [] => none
  | c :: rest =>
    if c = quote then some 1
    else if c = '\\' then
      match rest with
      | [] => none
      | _ :: after => (closingQuote? quote after).map (· + 2)
    else (closingQuote? quote rest).map (· + 1)

/-- The length of a text up to and with the end of a block comment. -/
def commentEnd? : List Char → Option Nat
  | '*' :: '/' :: _ => some 2
  | _ :: rest => (commentEnd? rest).map (· + 1)
  | [] => none

/-- The length of the block comment whose slash stands before a text. -/
def blockComment? : List Char → Option Nat
  | '*' :: rest => (commentEnd? rest).map (· + 1)
  | _ => none

/-! ## Words and symbols -/

/-- The words that are no names, in lower case. -/
def reservedWords : List (List Char × Lexeme) :=
  [(['e', 'c', 'h', 'o'], .keyword .echo),
   (['i', 'f'], .keyword .conditional),
   (['e', 'l', 's', 'e', 'i', 'f'], .keyword .elseIf),
   (['e', 'l', 's', 'e'], .keyword .otherwise),
   (['f', 'o', 'r', 'e', 'a', 'c', 'h'], .keyword .foreach),
   (['a', 's'], .keyword .as),
   (['f', 'u', 'n', 'c', 't', 'i', 'o', 'n'], .keyword .function),
   (['r', 'e', 't', 'u', 'r', 'n'], .keyword .ret),
   (['a', 'r', 'r', 'a', 'y'], .keyword .array),
   (['r', 'e', 'q', 'u', 'i', 'r', 'e'], .require false true),
   (['r', 'e', 'q', 'u', 'i', 'r', 'e', '_', 'o', 'n', 'c', 'e'], .require true true),
   (['i', 'n', 'c', 'l', 'u', 'd', 'e'], .require false false),
   (['i', 'n', 'c', 'l', 'u', 'd', 'e', '_', 'o', 'n', 'c', 'e'], .require true false),
   (['a', 'n', 'd'], .binary .logicalAnd),
   (['o', 'r'], .binary .logicalOr),
   (['x', 'o', 'r'], .binary .logicalXor)]

/-- What a word is. Reserved words may be written in any case. -/
def wordLexeme (word : List Char) : Lexeme :=
  match reservedWords.find? fun entry => entry.1 == lowerFrom [] word with
  | some entry => entry.2
  | none => .identifier (String.ofList word)

/-- The symbols, in the order in which they are tried. -/
def symbols : List (List Char × Lexeme) :=
  [(['*', '*', '='], .compound .pow), (['?', '?', '='], .compound .coalesce),
   (['<', '<', '='], .compound .shiftLeft), (['>', '>', '='], .compound .shiftRight),
   (['-', '='], .compound .minus), (['+', '='], .compound .plus), (['*', '='], .compound .mul),
   (['/', '='], .compound .div), (['.', '='], .compound .concat), (['%', '='], .compound .mod),
   (['&', '='], .compound .bitwiseAnd), (['|', '='], .compound .bitwiseOr),
   (['^', '='], .compound .bitwiseXor), (['=', '=', '='], .binary .identical),
   (['!', '=', '='], .binary .notIdentical), (['<', '=', '>'], .binary .spaceship),
   (['=', '='], .binary .equal), (['!', '='], .binary .notEqual), (['<', '>'], .binary .notEqual),
   (['&', '&'], .binary .booleanAnd), (['?', '?'], .binary .coalesce),
   (['>', '='], .binary .greaterOrEqual), (['<', '='], .binary .smallerOrEqual),
   (['|', '|'], .binary .booleanOr), (['*', '*'], .binary .pow), (['<', '<'], .binary .shiftLeft),
   (['>', '>'], .binary .shiftRight), (['=', '>'], .arrow), (['*'], .binary .mul),
   (['/'], .binary .div), (['%'], .binary .mod), (['+'], .sign false), (['-'], .sign true),
   (['!'], .unary .not), (['~'], .unary .bitwiseNot), (['&'], .binary .bitwiseAnd),
   (['^'], .binary .bitwiseXor), ([','], .comma), (['.'], .binary .concat), (['='], .equals),
   (['>'], .binary .greater), (['['], .openBracket), (['{'], .openBrace),
   (['<'], .binary .smaller), (['('], .openParen), (['|'], .binary .bitwiseOr),
   (['}'], .closeBrace), ([']'], .closeBracket), ([')'], .closeParen), ([';'], .semicolon)]

/-- The symbol at the start of a text, with its length. -/
def symbol? (text : List Char) : Option (Lexeme × Nat) :=
  (symbols.find? fun entry => entry.1.isPrefixOf text).map fun entry => (entry.2, entry.1.length)

/-! ## Scanning -/

/-- What stands at a character: a token, or nothing for blanks and comments. The number counts the
    characters after the first. -/
def scan (c : Char) (rest : List Char) : Option Lexeme × Nat :=
  let text := c :: rest
  let floatSize := floatLength text
  let intSize := intLength text
  if floatSize ≠ 0 then (some (.float (text.take floatSize)), floatSize - 1)
  else if intSize ≠ 0 then (some (.int (text.take intSize)), intSize - 1)
  else if c = '$' && rest.head?.any isNameStart then
    let name := rest.takeWhile isNamePart
    (some (.variable (String.ofList name)), name.length)
  else if isNameStart c then
    let tail := rest.takeWhile isNamePart
    (some (wordLexeme (c :: tail)), tail.length)
  else
    match if c = '"' || c = '\'' then closingQuote? c rest else none with
    | some size =>
      let raw := rest.take (size - 1)
      (some (if c = '"' then .double raw else .single raw), size)
    | none =>
      match if c = '/' then blockComment? rest else none with
      | some size => (none, size)
      | none =>
        if c = '#' || (c = '/' && rest.head? == some '/') then
          (none, (rest.takeWhile (· ≠ '\n')).length)
        else if isTokenBlank c then (none, 0)
        else
          match symbol? text with
          | some (lexeme, size) => (some lexeme, size - 1)
          | none => (some (.stray c), 0)

/-- A place in a text. -/
structure Position where
  line : Nat
  column : Nat
  deriving DecidableEq, Repr

/-- The place after a character. -/
def Position.advance (position : Position) (c : Char) : Position :=
  if c = '\n' then ⟨position.line + 1, 1⟩ else ⟨position.line, position.column + 1⟩

/-- The tokens of a text that starts at a place, its first `skip` characters belonging to what was
    scanned before. -/
def tokensFrom (skip : Nat) (position : Position) : List Char → List Token
  | [] => []
  | c :: rest =>
    match skip with
    | skip + 1 => tokensFrom skip (position.advance c) rest
    | 0 =>
      match scan c rest with
      | (none, more) => tokensFrom more (position.advance c) rest
      | (some lexeme, more) =>
        ⟨lexeme, String.ofList (c :: rest.take more), position.line, position.column⟩ ::
          tokensFrom more (position.advance c) rest

attribute [local irreducible] scan in
theorem tokensFrom_cons (position : Position) (c : Char) (rest : List Char) :
    tokensFrom 0 position (c :: rest) =
      match scan c rest with
      | (none, more) => tokensFrom more (position.advance c) rest
      | (some lexeme, more) =>
        ⟨lexeme, String.ofList (c :: rest.take more), position.line, position.column⟩ ::
          tokensFrom more (position.advance c) rest := rfl

/-- The tokens of a text. -/
def tokens (text : List Char) : List Token := tokensFrom 0 ⟨1, 1⟩ text

end WebScript
