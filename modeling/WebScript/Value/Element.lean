import WebScript.Value.Convert

/-!
# Elements of values

Reading and writing elements of arrays, and reading characters of strings. A path is a row of keys;
in a written path `none` stands for the element that is appended.
-/

namespace WebScript

/-- The character of a string that a value selects; negative numbers count from the end. -/
def characterAt (text : String) (dim : Value) : Except Refusal Value := do
  let offset ←
    match dim with
    | .int n => pure n
    | .str s =>
      match ← (parseNumeric s).mapError .limit with
      | some (.int n) => pure n
      | _ => .error (.cause (.misuse (.offsetOnString .string)))
    | _ => .error (.cause (.misuse (.offsetOnString dim.type)))
  let chars := text.toList
  let position := if offset < 0 then offset + chars.length else offset
  if position < 0 then .error (.cause (.indexNotFound (.int offset)))
  else
    match chars[position.toNat]? with
    | some c => pure (.str (String.singleton c))
    | none => .error (.cause (.indexNotFound (.int offset)))

/-- The element of a value that another value selects. -/
def Value.element (base dim : Value) : Except Refusal Value :=
  match base with
  | .array table => do
    let key ← dim.toKey
    match table.get? key with
    | some value => pure value
    | none => .error (.cause (.indexNotFound key))
  | .str text => characterAt text dim
  | _ => .error (.cause (.misuse (.offsetOnScalar base.type)))

/-- Refusals that mean that an element is not there. -/
def Refusal.isAbsence : Refusal → Bool
  | .cause (.indexNotFound _) => true
  | .cause (.misuse _) => true
  | _ => false

/-- The element of a value, or null if there is none. Keys of arrays must still be usable ones. -/
def Value.elementOrNull (base dim : Value) : Except Refusal Value :=
  match base with
  | .array table => do
    let key ← dim.toKey
    pure ((table.get? key).getD .null)
  | .str text =>
    match characterAt text dim with
    | .ok value => .ok value
    | .error refusal => if refusal.isAbsence then .ok .null else .error refusal
  | _ => .ok .null

/-- The array that an element is written to; a missing value and null are empty arrays. -/
def tableToWrite : Option Value → Except Cause (Table Value)
  | none | some .null => .ok .empty
  | some (.array table) => .ok table
  | some other => .error (.misuse (.scalarAsArray other.type))

/-- The container in which the element at a path has been replaced. -/
def writePath (container : Option Value) (value : Value) : List (Option Key) → Except Cause Value
  | [] => .ok value
  | key :: rest => do
    let table ← tableToWrite container
    match key with
    | some key =>
      let inner ← writePath (table.get? key) value rest
      pure (.array (table.set key inner))
    | none =>
      let inner ← writePath none value rest
      pure (.array (table.append inner))

/-- The element at a path of a container, for updating it. With `absentOk`, an element that is not
    there reads as null. -/
def readPath (absentOk : Bool) (container : Value) : List Key → Except Cause Value
  | [] => .ok container
  | key :: rest =>
    match container with
    | .str _ => .error (.misuse .stringOffsetUpdate)
    | .array table =>
      match table.get? key with
      | some inner => readPath absentOk inner rest
      | none => if absentOk then .ok .null else .error (.indexNotFound key)
    | .null => if absentOk then .ok .null else .error (.indexNotFound key)
    | _ => .error (.misuse (.scalarAsArray container.type))

end WebScript
