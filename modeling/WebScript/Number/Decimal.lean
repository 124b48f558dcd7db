import WebScript.Number.Binary

/-!
# Floats in decimal notation

Reading takes the float nearest to a decimal number. Writing has two steps: choosing the significant
digits (a fixed count, or the fewest that read back), and laying them out as a `FloatStyle` says.
-/

namespace WebScript

/-- The number that a row of digit values denotes in a base. -/
def ofDigits (base : Nat) (digits : List Nat) : Nat :=
  digits.foldl (fun value digit => value * base + digit) 0

/-- The number of decimal digits of a number; zero has one. -/
def decimalLength (n : Nat) : Nat := (Nat.toDigits 10 n).length

/-- The word of the float nearest to `digits · 10^exponent`. Magnitudes far outside the range of
    floats are answered without computing the power. -/
def nearestDecimalBits (digits : Nat) (exponent : Int) : Nat :=
  if digits = 0 then 0
  else
    let magnitude := decimalLength digits + exponent
    if magnitude < -330 then 0
    else if 330 < magnitude then infinityBits
    else if exponent < 0 then min infinityBits (nearestBits digits (Nat.pow 10 exponent.natAbs))
    else min infinityBits (nearestBits (digits * Nat.pow 10 exponent.natAbs) 1)

/-- The float nearest to `± digits · 10^exponent`. -/
def floatOfDecimal (negative : Bool) (digits : Nat) (exponent : Int) : Float :=
  floatOfBits negative (nearestDecimalBits digits exponent)

/-- The exponent of the leading decimal digit of the positive number `num / den`. -/
def leadingExponent (num den : Nat) : Int :=
  if den ≤ num then (decimalLength (num / den) : Int) - 1
  else -(decimalLength ((den + num - 1) / num - 1) : Int)

/-- A quotient scaled by a power of ten, as numerator and denominator. -/
def scaleTen (num den : Nat) (power : Int) : Nat × Nat :=
  if power < 0 then (num, den * Nat.pow 10 power.natAbs) else (num * Nat.pow 10 power.natAbs, den)

/-- Significant decimal digits of a nonnegative number: `coefficient` has `count` digits, and its
    first digit stands for a multiple of `10^leading`. -/
structure Significand where
  coefficient : Nat
  leading : Int
  deriving DecidableEq, Repr

/-- The positive number `num / den` rounded to `count` significant digits, halves to even. -/
def roundSignificant (count num den : Nat) : Significand :=
  let leading := leadingExponent num den
  let (scaled, unit) := scaleTen num den (count - 1 - leading)
  let rounded := roundDiv scaled unit
  if rounded = Nat.pow 10 count then ⟨Nat.pow 10 (count - 1), leading + 1⟩ else ⟨rounded, leading⟩

/-- Of the two neighbours of `num / den` with `count` digits, the one that reads back as the float
    word `bits`; the nearer one if both do, and the even one if they are equally near. -/
def neighbourReadingBack? (bits count num den : Nat) : Option Significand :=
  let leading := leadingExponent num den
  let last : Int := leading - (count - 1)
  let (scaled, unit) := scaleTen num den (-last)
  let lower := scaled / unit
  let readsBack (coefficient : Nat) : Bool := nearestDecimalBits coefficient last == bits
  let chosen :=
    match readsBack lower, readsBack (lower + 1) with
    | true, true => some (roundDiv scaled unit)
    | true, false => some lower
    | false, true => some (lower + 1)
    | false, false => none
  chosen.map fun coefficient =>
    if coefficient = Nat.pow 10 count then ⟨Nat.pow 10 (count - 1), leading + 1⟩
    else ⟨coefficient, leading⟩

/-- The fewest digits that read back as the positive float with word `bits` and value `num / den`.
    Seventeen digits always do. -/
def shortestSignificand (bits num den : Nat) : Significand :=
  match (List.range 16).findSome? fun i => neighbourReadingBack? bits (i + 1) num den with
  | some significand => significand
  | none => (neighbourReadingBack? bits 17 num den).getD (roundSignificant 17 num den)

/-- How the digits of a float are laid out. -/
structure FloatStyle where
  /-- Numbers below `10^positionalBelow`, and from `10⁻⁴` on, are written without an exponent. -/
  positionalBelow : Int
  /-- Whether whole numbers written without an exponent end in `.0`. -/
  wholePoint : Bool
  /-- Whether single digits before an exponent end in `.0`. -/
  exponentPoint : Bool
  /-- The mark before the exponent. -/
  mark : Char
  /-- The least number of digits of an exponent. -/
  exponentWidth : Nat
  nan : String
  infinity : String

/-- Removes zeros at the end. -/
def dropTrailingZeros (digits : List Char) : List Char :=
  (digits.reverse.dropWhile (· == '0')).reverse

/-- The text of a nonnegative number with the given significant digits. -/
def FloatStyle.layout (style : FloatStyle) (digits : List Char) (leading : Int) : List Char :=
  if -4 ≤ leading && leading < style.positionalBelow then
    if leading < 0 then
      '0' :: '.' :: List.replicate (leading.natAbs - 1) '0' ++ digits
    else
      let wholeLength := leading.natAbs + 1
      let whole := digits.take wholeLength ++ List.replicate (wholeLength - digits.length) '0'
      match digits.drop wholeLength with
      | [] => if style.wholePoint then whole ++ ['.', '0'] else whole
      | fraction => whole ++ '.' :: fraction
  else
    let mantissa :=
      match digits with
      | [digit] => if style.exponentPoint then [digit, '.', '0'] else [digit]
      | digit :: rest => digit :: '.' :: rest
      | [] => []
    let power := Nat.toDigits 10 leading.natAbs
    let sign := if leading < 0 then '-' else '+'
    let zeros := List.replicate (style.exponentWidth - power.length) '0'
    mantissa ++ style.mark :: sign :: zeros ++ power

/-- The text of a float whose significant digits are chosen by `significand`, from its word and its
    value in units. -/
def FloatStyle.render (style : FloatStyle) (significand : (bits units : Nat) → Significand)
    (f : Float) : String :=
  let signed (negative : Bool) (text : List Char) : String :=
    String.ofList (if negative then '-' :: text else text)
  match FloatForm.ofFloat f with
  | .nan => style.nan
  | .infinite negative => signed negative style.infinity.toList
  | .finite negative 0 _ => signed negative (style.layout ['0'] 0)
  | .finite negative mantissa exponent =>
    let chosen := significand (exponent * fractionCount + mantissa) (mantissa * Nat.pow 2 exponent)
    let digits := dropTrailingZeros (Nat.toDigits 10 chosen.coefficient)
    signed negative (style.layout digits chosen.leading)

/-- Floats as programs print them: no exponent below `10¹⁴`, and a capital mark. -/
def FloatStyle.printed : FloatStyle where
  positionalBelow := 14
  wholePoint := false
  exponentPoint := true
  mark := 'E'
  exponentWidth := 1
  nan := "NAN"
  infinity := "INF"

/-- Floats as listings of a program show them: no exponent below `10¹⁶`, always with a point or an
    exponent. -/
def FloatStyle.listed : FloatStyle where
  positionalBelow := 16
  wholePoint := true
  exponentPoint := false
  mark := 'e'
  exponentWidth := 2
  nan := "nan"
  infinity := "inf"

/-- The text of a float as programs print it, with fourteen significant digits. -/
def printedFloat (f : Float) : String :=
  FloatStyle.printed.render (fun _ units => roundSignificant 14 units unitsPerOne) f

/-- The text of a float with the fewest digits that read back. -/
def listedFloat (f : Float) : String :=
  FloatStyle.listed.render (fun bits units => shortestSignificand bits units unitsPerOne) f

end WebScript
