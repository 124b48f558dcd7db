/-!
# Floats as exact numbers

A float is read off its bits as an exact multiple of `2⁻¹⁰⁷⁴`, the distance between the smallest
floats. Comparison, rounding and printing all work on these exact numbers, so none of them depends
on how the machine computes.

Rounding uses that the bits of a nonnegative float are `k · 2⁵² + m` for the float `m · 2ᵏ ·
2⁻¹⁰⁷⁴`: when rounding carries `m` up to `2⁵³`, the sum is already the next float.
-/

namespace WebScript

/-- The parts of a float. A finite one is `± mantissa · 2^exponent` units of `2⁻¹⁰⁷⁴`. -/
inductive FloatForm where
  | nan
  | infinite (negative : Bool)
  | finite (negative : Bool) (mantissa exponent : Nat)
  deriving DecidableEq, Repr

/-- The logarithm of the number of units in one. -/
def unitBits : Nat := 1074

/-- The number of units in one. -/
def unitsPerOne : Nat := Nat.pow 2 unitBits

/-- The number of fractions of a float word. -/
def fractionCount : Nat := Nat.pow 2 52

/-- The sign bit of a float word. -/
def signBit : Nat := Nat.pow 2 63

/-- The parts of a 64-bit float word. -/
def FloatForm.ofBits (bits : Nat) : FloatForm :=
  let negative := bits / signBit % 2 == 1
  let field := bits / fractionCount % 2048
  let fraction := bits % fractionCount
  if field = 2047 then
    if fraction = 0 then .infinite negative else .nan
  else if field = 0 then .finite negative fraction 0
  else .finite negative (fractionCount + fraction) (field - 1)

/-- The parts of a float. -/
def FloatForm.ofFloat (f : Float) : FloatForm := .ofBits f.toBits.toNat

/-- An integer number of units, or one of the two infinities. -/
inductive Extended where
  | below
  | finite (units : Int)
  | above
  deriving DecidableEq, Repr

/-- The order of extended numbers. -/
def Extended.order : Extended → Extended → Ordering
  | .finite x, .finite y => compare x y
  | .below, .below => .eq
  | .above, .above => .eq
  | .below, _ => .lt
  | _, .below => .gt
  | .above, _ => .gt
  | _, .above => .lt

/-- Negates when the flag says so. -/
def withSign (negative : Bool) (n : Nat) : Int := if negative then -(n : Int) else n

/-- The exact value of a float, counted in units; a NaN has none. -/
def FloatForm.extent : FloatForm → Option Extended
  | .nan => none
  | .infinite negative => some (if negative then .below else .above)
  | .finite negative mantissa exponent =>
    some (.finite (withSign negative (mantissa * Nat.pow 2 exponent)))

/-- The integer part of a finite float; other floats have none. -/
def FloatForm.truncate? : FloatForm → Option Int
  | .finite negative mantissa exponent =>
    some (withSign negative (mantissa * Nat.pow 2 exponent / unitsPerOne))
  | _ => none

/-- The integer nearest to `num / den`; a half goes to the even neighbour. -/
def roundDiv (num den : Nat) : Nat :=
  let q := num / den
  let r := num % den
  if 2 * r < den then q
  else if den < 2 * r then q + 1
  else if q % 2 = 0 then q else q + 1

/-- The first word after the finite floats. -/
def infinityBits : Nat := 2047 * fractionCount

/-- The word of the float nearest to `num / den`, a half going to the even word. Quotients too large
    for a float give a word from `infinityBits` on. -/
def nearestBits (num den : Nat) : Nat :=
  let units := num * unitsPerOne
  let k := Nat.log2 (units / den) - 52
  k * fractionCount + roundDiv units (den * Nat.pow 2 k)

/-- The float with the given sign and the given magnitude word. -/
def floatOfBits (negative : Bool) (bits : Nat) : Float :=
  Float.ofBits (UInt64.ofNat (if negative then signBit + bits else bits))

/-- The float nearest to `± num / den`, unless that is infinite. -/
def nearestFloat? (negative : Bool) (num den : Nat) : Option Float :=
  let bits := nearestBits num den
  if bits < infinityBits then some (floatOfBits negative bits) else none

/-- The float nearest to an integer, unless that is infinite. -/
def floatOfInt? (n : Int) : Option Float := nearestFloat? (decide (n < 0)) n.natAbs 1

/-- Positive infinity. -/
def infinity : Float := floatOfBits false infinityBits

end WebScript
