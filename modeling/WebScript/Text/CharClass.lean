/-!
# Classes of characters

Characters are classified by code point. Names are ASCII; digits and blanks are those of Unicode.
-/

namespace WebScript

/-- A set of characters: ranges of code points, both ends included. -/
abbrev CharRanges := List (Nat × Nat)

/-- Membership of a character in a set of ranges. -/
def CharRanges.contains (ranges : CharRanges) (c : Char) : Bool :=
  ranges.any fun range => range.1 ≤ c.toNat && c.toNat ≤ range.2

/-- The code points of the zeros of all scripts; each is followed by the digits one to nine. -/
def decimalZeros : List Nat :=
   [48, 1632, 1776, 1984, 2406, 2534, 2662, 2790, 2918, 3046, 3174, 3302, 3430, 3558, 3664, 3792,
    3872, 4160, 4240, 6112, 6160, 6470, 6608, 6784, 6800, 6992, 7088, 7232, 7248, 42528, 43216,
    43264, 43472, 43504, 43600, 44016, 65296, 66720, 68912, 69734, 69872, 69942, 70096, 70384,
    70736, 70864, 71248, 71360, 71472, 71904, 72016, 72784, 73040, 73120, 92768, 92864, 93008,
    120782, 120792, 120802, 120812, 120822, 123200, 123632, 125264, 130032]

/-- The value of a decimal digit of any script. -/
def digitValue? (c : Char) : Option Nat :=
  decimalZeros.findSome? fun first =>
    if first ≤ c.toNat && c.toNat < first + 10 then some (c.toNat - first) else none

/-- Decimal digits of any script. -/
def isDecimalDigit (c : Char) : Bool := (digitValue? c).isSome

/-- Blank characters: ASCII blanks, the four information separators, and the Unicode spaces. -/
def blankRanges : CharRanges :=
   [(9, 13), (28, 32), (133, 133), (160, 160), (5760, 5760), (8192, 8202), (8232, 8233),
    (8239, 8239), (8287, 8287), (12288, 12288)]

/-- Blank characters, as tags, option values and commands see them. -/
def isBlank (c : Char) : Bool := blankRanges.contains c

/-- The blanks that may surround the text of an integer: all but the information separators. -/
def isIntegerBlank (c : Char) : Bool := isBlank c && !(28 ≤ c.toNat && c.toNat ≤ 31)

/-- The blanks that may surround a number inside a string. -/
def isNumericBlank (c : Char) : Bool :=
  c = ' ' || c = '\t' || c = '\n' || c = '\r' || c = '\x0b' || c = '\x0c'

/-- The blanks that separate tokens. -/
def isTokenBlank (c : Char) : Bool :=
  c = ' ' || c = '\t' || c = '\x0c' || c = '\r' || c = '\n'

/-- Characters that begin a name. -/
def isNameStart (c : Char) : Bool := c.isAlpha || c = '_'

/-- Characters that continue a name. -/
def isNamePart (c : Char) : Bool := c.isAlphanum || c = '_'

/-- The value of a hexadecimal digit. -/
def hexValue? (c : Char) : Option Nat :=
  if '0' ≤ c && c ≤ '9' then some (c.toNat - '0'.toNat)
  else if 'a' ≤ c && c ≤ 'f' then some (c.toNat - 'a'.toNat + 10)
  else if 'A' ≤ c && c ≤ 'F' then some (c.toNat - 'A'.toNat + 10)
  else none

/-- Removes the characters of a class from both ends. -/
def trimWhile (p : Char → Bool) (text : List Char) : List Char :=
  ((text.dropWhile p).reverse.dropWhile p).reverse

/-- Removes blanks from both ends. -/
def trimBlanks (text : List Char) : List Char := trimWhile isBlank text

end WebScript
