import WebScript.Limit
import WebScript.Number.Decimal
import WebScript.Value

/-!
# Numbers

Arithmetic works on integers of 64 bits and on floats. An integer result that does not fit becomes
the nearest float. Integers and floats are compared by their exact values.
-/

namespace WebScript

/-- The least integer of programs. -/
def intMin : Int := -9223372036854775808

/-- The greatest integer of programs. -/
def intMax : Int := 9223372036854775807

/-- Integers that fit in 64 bits. -/
def FitsInt (n : Int) : Prop := intMin ≤ n ∧ n ≤ intMax

instance (n : Int) : Decidable (FitsInt n) := inferInstanceAs (Decidable (_ ∧ _))

/-- Operands of arithmetic. -/
inductive Number where
  | int (n : Int)
  | float (f : Float)

namespace Number

/-- The value that a number is. -/
def toValue : Number → Value
  | .int n => .int n
  | .float f => .float f

/-- The exact value of a number in units of `2⁻¹⁰⁷⁴`; a NaN has none. -/
def extent : Number → Option Extended
  | .int n => some (.finite (n * (unitsPerOne : Int)))
  | .float f => (FloatForm.ofFloat f).extent

/-- The order of two numbers by exact value. A NaN equals nothing and is below nothing. -/
def order (left right : Number) : Ordering :=
  match left.extent, right.extent with
  | some x, some y => x.order y
  | _, _ => .gt

/-- Whether a number is zero. -/
def isZero (number : Number) : Bool := number.extent == some (.finite 0)

/-- The float nearest to a number. -/
def toFloat : Number → Except Limit Float
  | .int n =>
    match floatOfInt? n with
    | some f => .ok f
    | none => .error .magnitude
  | .float f => .ok f

/-- An integer result: the integer if it fits, the nearest float otherwise. -/
def ofInt (n : Int) : Except Limit Number :=
  if FitsInt n then .ok (.int n) else .float <$> (Number.int n).toFloat

/-- The integer part of a float if it fits, and zero otherwise. -/
def truncateFloat (f : Float) : Int :=
  match (FloatForm.ofFloat f).truncate? with
  | some n => if FitsInt n then n else 0
  | none => 0

/-- The integer part of a number. -/
def truncate : Number → Int
  | .int n => n
  | .float f => truncateFloat f

end Number

end WebScript
