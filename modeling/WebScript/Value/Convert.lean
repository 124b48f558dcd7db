import WebScript.Fault
import WebScript.Number.Text
import WebScript.Text.Quoted

/-!
# Conversions between values

How a value becomes a truth value, a number, a string and an array key.
-/

namespace WebScript

/-- Whether a value counts as true. -/
def Value.isTruthy : Value → Bool
  | .null => false
  | .bool b => b
  | .int n => n != 0
  | .float f => (FloatForm.ofFloat f).extent != some (.finite 0)
  | .str s => s != "" && s != "0"
  | .array table => !table.entries.isEmpty

/-- The number that a value is used as; `none` if it cannot be used as one. A string that only
    starts with a number gives that number and a warning. -/
def Value.toNumber : Value → Noted (Option Number)
  | .int n => pure (some (.int n))
  | .float f => pure (some (.float f))
  | .null => pure (some (.int 0))
  | .bool b => pure (some (.int (if b then 1 else 0)))
  | .str s =>
    match NumberText.ofString? s with
    | some number => .ofLimit (some <$> number.value)
    | none =>
      match NumberText.leading? s with
      | some number => do
        Noted.warn (.nonNumeric s)
        .ofLimit (some <$> number.value)
      | none => pure none
  | .array _ => pure none

/-- The integer that a value is used as; `none` if it cannot be used as one. -/
def Value.toInt (value : Value) : Noted (Option Int) := do
  let number ← value.toNumber
  pure (number.map Number.truncate)

/-- The text of a value that is not an array. -/
def Value.scalarText : Value → String
  | .null => ""
  | .bool b => if b then "1" else ""
  | .int n => toString n
  | .float f => printedFloat f
  | .str s => s
  | .array _ => "Array"

/-- The text of a value as printed; an array gives a warning. -/
def Value.text (value : Value) : Noted String := do
  match value with
  | .array _ => Noted.warn .arrayToString
  | _ => pure ()
  pure value.scalarText

/-- The digits of a text that is an integer in canonical decimal form, perhaps with one line end
    after it: no leading zeros, no plus sign, and no negative zero. -/
def canonicalDigits? (text : List Char) : Option (Bool × List Char) :=
  let body :=
    match text.reverse with
    | '\n' :: rest => rest.reverse
    | _ => text
  match body with
  | ['0'] => some (false, ['0'])
  | '-' :: first :: rest =>
    if first ≠ '0' && (first :: rest).all Char.isDigit then some (true, first :: rest) else none
  | first :: rest =>
    if first ≠ '0' && (first :: rest).all Char.isDigit then some (false, first :: rest) else none
  | [] => none

/-- The key that a string stands for: an integer if it is the canonical form of one that fits. -/
def Key.ofString (s : String) : Except Limit Key :=
  match canonicalDigits? s.toList with
  | some (negative, digits) =>
    if maxDecimalDigits < digits.length then .error .digits
    else
      let n := withSign negative (ofDigits 10 (digits.map fun c => c.toNat - '0'.toNat))
      .ok (if FitsInt n then .int n else .str s)
  | none => .ok (.str s)

/-- The array key that a value stands for. -/
def Value.toKey : Value → Except Refusal Key
  | .int n => .ok (.int n)
  | .str s => (Key.ofString s).mapError .limit
  | .bool b => .ok (.int (if b then 1 else 0))
  | .float f => .ok (.int (Number.truncateFloat f))
  | .null => .ok (.str "")
  | .array _ => .error (.cause (.misuse (.illegalOffset .array)))

/-- A key as listings show it. -/
def Key.listed : Key → String
  | .int n => toString n
  | .str s => quoted s

mutual

/-- A value as listings show it. -/
def Value.listed : Value → String
  | .null => "NULL"
  | .bool b => if b then "true" else "false"
  | .int n => toString n
  | .float f => listedFloat f
  | .str s => "\"" ++ s ++ "\""
  | .array ⟨entries, _⟩ => "[" ++ ", ".intercalate (listedEntries entries) ++ "]"

/-- Array entries as listings show them. -/
def listedEntries : List (Key × Value) → List String
  | [] => []
  | (key, value) :: rest => (key.listed ++ " => " ++ value.listed) :: listedEntries rest

end

end WebScript
