import WebScript.Value.Convert

/-!
# Comparison of values

Loose comparison orders values of different types after conversion; two arrays of equal length may
be incomparable. Strict equality never converts.
-/

namespace WebScript

/-- The order of truth values: false is below true. -/
def orderBool : Bool → Bool → Ordering
  | false, true => .lt
  | true, false => .gt
  | _, _ => .eq

/-- The order of strings by code points. -/
def orderText (left right : String) : Ordering :=
  if left = right then .eq else if left < right then .lt else .gt

/-- The order of strings: as numbers if both are numeric, by code points otherwise. -/
def orderStrings (left right : String) : Except Limit Ordering := do
  let leftNumber ← parseNumeric left
  let rightNumber ← parseNumeric right
  match leftNumber, rightNumber with
  | some x, some y => pure (x.order y)
  | _, _ => pure (orderText left right)

/-- The order of a number and a string: as numbers if the string is numeric, else as strings. -/
def orderNumberString (number : Number) (text : String) : Except Limit Ordering := do
  match ← parseNumeric text with
  | some parsed => pure (number.order parsed)
  | none => pure (orderText number.toValue.scalarText text)

/-- The order of a string and a number. -/
def orderStringNumber (text : String) (number : Number) : Except Limit Ordering := do
  match ← parseNumeric text with
  | some parsed => pure (parsed.order number)
  | none => pure (orderText text number.toValue.scalarText)

/-- The order of two values of which not both are arrays. -/
def orderScalars : Value → Value → Except Limit Ordering
  | .null, .null => .ok .eq
  | .null, .str s => .ok (if s = "" then .eq else .lt)
  | .str s, .null => .ok (if s = "" then .eq else .gt)
  | .bool b, right => .ok (orderBool b right.isTruthy)
  | left, .bool b => .ok (orderBool left.isTruthy b)
  | .null, right => .ok (orderBool false right.isTruthy)
  | left, .null => .ok (orderBool left.isTruthy false)
  | .int m, .int n => .ok ((Number.int m).order (.int n))
  | .int m, .float g => .ok ((Number.int m).order (.float g))
  | .float f, .int n => .ok ((Number.float f).order (.int n))
  | .float f, .float g => .ok ((Number.float f).order (.float g))
  | .str s, .str t => orderStrings s t
  | .int m, .str t => orderNumberString (.int m) t
  | .float f, .str t => orderNumberString (.float f) t
  | .str s, .int n => orderStringNumber s (.int n)
  | .str s, .float g => orderStringNumber s (.float g)
  | .array _, _ => .ok .gt
  | _, .array _ => .ok .lt

mutual

/-- Loose comparison; `none` marks arrays that are not comparable. -/
def Value.order : Value → Value → Except Limit (Option Ordering)
  | .array ⟨entries, _⟩, .array right =>
    if entries.length = right.size then orderEntries entries right
    else .ok (some (compare entries.length right.size))
  | left, right => some <$> orderScalars left right

/-- Compares entries one by one with those of an array of the same length. The first difference
    decides; a key that the other array lacks makes the arrays incomparable. -/
def orderEntries : List (Key × Value) → Table Value → Except Limit (Option Ordering)
  | [], _ => .ok (some .eq)
  | (key, left) :: rest, table =>
    match table.get? key with
    | none => .ok none
    | some right => do
      match ← left.order right with
      | some .eq => orderEntries rest table
      | different => pure different

end

mutual

/-- Loose equality. -/
def Value.looseEq : Value → Value → Except Limit Bool
  | .array ⟨entries, _⟩, .array right =>
    if entries.length = right.size then looseEqEntries entries right else .ok false
  | left, right => (· == .eq) <$> orderScalars left right

/-- Whether every entry has a loosely equal counterpart. -/
def looseEqEntries : List (Key × Value) → Table Value → Except Limit Bool
  | [], _ => .ok true
  | (key, left) :: rest, table =>
    match table.get? key with
    | none => .ok false
    | some right => do
      if ← left.looseEq right then looseEqEntries rest table else pure false

end

mutual

/-- Strict equality: equal types and equal contents, arrays with their keys in the same order. -/
def Value.strictEq : Value → Value → Bool
  | .null, .null => true
  | .bool a, .bool b => a == b
  | .int m, .int n => m == n
  | .float f, .float g =>
    match (FloatForm.ofFloat f).extent, (FloatForm.ofFloat g).extent with
    | some x, some y => x == y
    | _, _ => false
  | .str s, .str t => s == t
  | .array ⟨left, _⟩, .array ⟨right, _⟩ => strictEqEntries left right
  | _, _ => false

/-- Strict equality of entry lists. -/
def strictEqEntries : List (Key × Value) → List (Key × Value) → Bool
  | [], [] => true
  | (k, v) :: left, (l, w) :: right => k == l && v.strictEq w && strictEqEntries left right
  | _, _ => false

end

/-- The three-way comparison operator; incomparable arrays count as greater. -/
def Value.spaceship (left right : Value) : Except Limit Ordering :=
  (Option.getD · .gt) <$> left.order right

/-- Whether the left value is smaller. -/
def Value.isSmaller (left right : Value) : Except Limit Bool :=
  (· == some .lt) <$> left.order right

/-- Whether the left value is smaller or equal. -/
def Value.isSmallerOrEqual (left right : Value) : Except Limit Bool :=
  (fun order => order == some .lt || order == some .eq) <$> left.order right

/-- An order as an integer. -/
def orderToInt : Ordering → Int
  | .lt => -1
  | .eq => 0
  | .gt => 1

end WebScript
