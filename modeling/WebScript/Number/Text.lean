import WebScript.Number
import WebScript.Text.CharClass

/-!
# Numbers inside strings

A number text is an optional sign, digits with an optional point (digits on at least one side of
it), and an optional exponent. A string is numeric when it is a number text between blanks; a string
that merely starts with a number text has a leading number.
-/

namespace WebScript

/-- A number text: sign, the digits before the point, those after it if there is a point, and the
    exponent if there is one. -/
structure NumberText where
  negative : Bool
  whole : List Nat
  fraction : Option (List Nat)
  exponent : Option Int
  deriving DecidableEq, Repr

/-- Splits off the decimal digits at the start of a text. -/
def takeDigits : List Char → List Nat × List Char
  | [] => ([], [])
  | c :: rest =>
    match digitValue? c with
    | some digit =>
      let (digits, others) := takeDigits rest
      (digit :: digits, others)
    | none => ([], c :: rest)

/-- Splits off a sign; `true` stands for minus. -/
def takeSign : List Char → Bool × List Char
  | '-' :: rest => (true, rest)
  | '+' :: rest => (false, rest)
  | text => (false, text)

/-- Splits off an exponent, if a complete one is there. -/
def takeExponent (text : List Char) : Option Int × List Char :=
  match text with
  | [] => (none, text)
  | mark :: afterMark =>
    if mark = 'e' || mark = 'E' then
      let (negative, unsigned) := takeSign afterMark
      match takeDigits unsigned with
      | ([], _) => (none, text)
      | (digits, rest) => (some (withSign negative (ofDigits 10 digits)), rest)
    else (none, text)

/-- Splits off the longest number text at the start of a text. -/
def NumberText.take? (text : List Char) : Option (NumberText × List Char) :=
  let (negative, unsigned) := takeSign text
  let (whole, afterWhole) := takeDigits unsigned
  let (fraction, afterFraction) : Option (List Nat) × List Char :=
    match afterWhole with
    | '.' :: afterPoint =>
      match takeDigits afterPoint with
      | ([], rest) => if whole.isEmpty then (none, afterWhole) else (some [], rest)
      | (digits, rest) => (some digits, rest)
    | _ => (none, afterWhole)
  if whole.isEmpty && fraction.isNone then none
  else
    let (exponent, rest) := takeExponent afterFraction
    some (⟨negative, whole, fraction, exponent⟩, rest)

/-- The number that a number text denotes: an integer if it has neither point nor exponent, and a
    float otherwise. -/
def NumberText.value (text : NumberText) : Except Limit Number :=
  match text.fraction, text.exponent with
  | none, none =>
    if maxDecimalDigits < text.whole.length then .error .digits
    else Number.ofInt (withSign text.negative (ofDigits 10 text.whole))
  | fraction, exponent =>
    let digits := fraction.getD []
    .ok (.float (floatOfDecimal text.negative (ofDigits 10 (text.whole ++ digits))
      (exponent.getD 0 - digits.length)))

/-- The number text that fills a string but for blanks around it. -/
def NumberText.ofString? (text : String) : Option NumberText :=
  match NumberText.take? (text.toList.dropWhile isNumericBlank) with
  | some (number, rest) => if rest.all isNumericBlank then some number else none
  | none => none

/-- The number text at the start of a string, after blanks. -/
def NumberText.leading? (text : String) : Option NumberText :=
  (NumberText.take? (text.toList.dropWhile isNumericBlank)).map Prod.fst

/-- Whether a string is numeric. -/
def isNumericString (text : String) : Bool := (NumberText.ofString? text).isSome

/-- The number that a numeric string denotes, and `none` for other strings. -/
def parseNumeric (text : String) : Except Limit (Option Number) :=
  match NumberText.ofString? text with
  | some number => some <$> number.value
  | none => .ok none

end WebScript
