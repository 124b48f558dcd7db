import WebScript.Eval.Call

/-!
# Evaluation of nodes

`Node.evalAs` evaluates a node by recursion on the node. What lies outside the node, the bodies of
functions and the statements of files, is evaluated by the parameter `deeper`. `evalWithin` ties the
knot for a bounded nesting of calls.
-/

namespace WebScript

/-- How a node is read: strictly, or leniently, so that a missing variable or element is null. -/
inductive Reading where
  | strict
  | lenient
  deriving DecidableEq, Repr

/-- The value of a constant, whose name may be written in any case. -/
def constant? (name : String) : Option Value :=
  match lowerFrom [] name.toList with
  | ['t', 'r', 'u', 'e'] => some (.bool true)
  | ['f', 'a', 'l', 's', 'e'] => some (.bool false)
  | ['n', 'u', 'l', 'l'] => some .null
  | _ => none

/-- Whether an operator's value is known from its left operand alone. -/
def BinaryOperator.decided? (op : BinaryOperator) (left : Value) : Option Value :=
  match op with
  | .booleanAnd | .logicalAnd => if left.isTruthy then none else some (.bool false)
  | .booleanOr | .logicalOr => if left.isTruthy then some (.bool true) else none
  | _ => none

/-- Whether a value is null. -/
def Value.isNull : Value → Bool
  | .null => true
  | _ => false

/-- The variable at the root of a variable or element. -/
def Node.root? : Node → Option String
  | ⟨_, .variable name⟩ => some name
  | ⟨_, .index base _⟩ => base.root?
  | _ => none

/-- Whether an element appended by `[]` occurs on the way to an element. -/
def Node.hasAppend : Node → Bool
  | ⟨_, .index _ none⟩ => true
  | ⟨_, .index base (some _)⟩ => base.hasAppend
  | _ => false

/-- The variable that an assignment changes. -/
def Node.targetRoot (target : Node) : Except Cause String := do
  let name ←
    match target.form with
    | .variable name => pure name
    | .index .. =>
      match target.root? with
      | some name => pure name
      | none => .error (.misuse .temporaryTarget)
    | form => .error (.misuse (.badTarget form.kind))
  if name = reservedName then .error (.reservedName name) else pure name

/-- Writes an element of a variable. -/
def Eval.writeElement (name : String) (keys : List (Option Key)) (value : Value) : Eval Unit := do
  let scope := (← get).scope
  let written ← Eval.ofCause (writePath (scope.get? name) value keys)
  Eval.setVariable name written

/-- Reads an element of a variable for updating it. -/
def Eval.readElement (absentOk : Bool) (name : String) (keys : List Key) : Eval Value := do
  match (← get).scope.get? name with
  | some value => Eval.ofCause (readPath absentOk value keys)
  | none => if absentOk then pure .null else Eval.raise (.unboundVariable name)

/-- The texts of values one after another. -/
def joinTexts : List Value → Noted String
  | [] => pure ""
  | value :: rest => do
    let text ← value.text
    let others ← joinTexts rest
    pure (text ++ others)

/-- Runs a loop body for each entry. -/
def Eval.forEntries (valueVar : String) (keyVar : Option String) (body : Eval Unit) :
    List (Key × Value) → Eval Unit
  | [] => pure ()
  | (key, value) :: rest => do
    Eval.setVariable valueVar value
    match keyVar with
    | some name => Eval.setVariable name key.toValue
    | none => pure ()
    body
    Eval.forEntries valueVar keyVar body rest

section

variable (config : Config) (deeper : Node → Eval Value)

mutual

/-- Evaluates a node. -/
def Node.evalAs (reading : Reading) : Node → Eval Value
  | ⟨line, .echo exprs⟩ => Eval.located line do
    let values ← evalList exprs
    Eval.write (← Eval.ofNoted (joinTexts values))
    pure .null
  | ⟨_, .nop⟩ => pure .null
  | ⟨line, .ret none⟩ => Eval.located line do
    if config.propagateReturn then throw (.returned .null) else pure .null
  | ⟨line, .ret (some expr)⟩ => Eval.located line do
    let value ← expr.evalAs .strict
    if config.propagateReturn then throw (.returned value) else pure value
  | ⟨line, .elseIf _ body⟩ => Eval.located line do
    evalBlock body
    pure .null
  | ⟨line, .otherwise body⟩ => Eval.located line do
    evalBlock body
    pure .null
  | ⟨line, .conditional cond body elseIfs otherwise⟩ => Eval.located line do
    let value ← cond.evalAs .strict
    if value.isTruthy then evalBlock body
    else
      let found ← evalElseIfs false elseIfs
      match otherwise with
      | some ⟨_, last⟩ => if found then pure () else evalBlock last
      | none => pure ()
    pure .null
  | ⟨line, .foreach expr valueVar body keyVar⟩ => Eval.located line do
    match ← expr.evalAs .strict with
    | .array table => Eval.forEntries valueVar keyVar (evalBlock body) table.entries
    | other => Eval.raise (.misuse (.notIterable other.type))
    pure .null
  | ⟨line, .functionDecl name params body⟩ => Eval.located line do
    let machine ← get
    if machine.functions.contains name then Eval.report (.functionRedeclared name)
    modify fun machine =>
      { machine with functions := machine.functions.define ⟨name, params, body⟩ }
    pure .null
  | ⟨line, .require path once fatal⟩ => Eval.located line do
    let value ← path.evalAs .strict
    includeFile deeper (← Eval.ofNoted value.text) once fatal
  | ⟨_, .str value⟩ => pure (.str value)
  | ⟨_, .int value⟩ => pure (.int value)
  | ⟨_, .float value⟩ => pure (.float value)
  | ⟨line, .arrayLiteral items⟩ => Eval.located line do
    pure (.array (← evalItems .empty items))
  | ⟨line, .binary .coalesce left right⟩ => Eval.located line do
    let leftValue ← left.evalAs .lenient
    if config.shortCircuit && !leftValue.isNull then pure leftValue
    else
      let rightValue ← right.evalAs .strict
      Eval.ofNoted (BinaryOperator.coalesce.apply leftValue rightValue)
  | ⟨line, .binary op left right⟩ => Eval.located line do
    let leftValue ← left.evalAs .strict
    match if config.shortCircuit then op.decided? leftValue else none with
    | some value => pure value
    | none =>
      let rightValue ← right.evalAs .strict
      Eval.ofNoted (op.apply leftValue rightValue)
  | ⟨line, .unary op operand⟩ => Eval.located line do
    let value ← operand.evalAs .strict
    Eval.ofNoted (op.apply value)
  | ⟨line, .variable name⟩ =>
    match reading with
    | .strict => Eval.located line (Eval.readVariable name)
    | .lenient => do
      pure (((← get).scope.get? name).getD .null)
  | ⟨line, .constant name⟩ => Eval.located line do
    match constant? name with
    | some value => pure value
    | none => Eval.raise (.unknownConstant name)
  | ⟨line, .index base none⟩ => Eval.located line do
    let _ ← base.evalAs .strict
    Eval.raise (.misuse .appendRead)
  | ⟨line, .index base (some dim)⟩ =>
    match reading with
    | .strict => Eval.located line do
      let baseValue ← base.evalAs .strict
      let dimValue ← dim.evalAs .strict
      Eval.ofRefusal (baseValue.element dimValue)
    | .lenient => do
      let baseValue ← base.evalAs .lenient
      let dimValue ← dim.evalAs .strict
      Eval.ofRefusal (baseValue.elementOrNull dimValue)
  | ⟨line, .assign target expr⟩ => Eval.located line do
    let name ← Eval.ofCause target.targetRoot
    let keys ← target.evalKeys
    let value ← expr.evalAs .strict
    Eval.writeElement name keys value
    pure value
  | ⟨line, .compoundAssign op target expr⟩ => Eval.located line do
    let name ← Eval.ofCause target.targetRoot
    if target.hasAppend then Eval.raise (.misuse .appendRead)
    let path ← target.evalKeys
    let keys := path.filterMap id
    if op = .coalesce then
      let current ← Eval.readElement true name keys
      if config.shortCircuit && !current.isNull then pure current
      else
        let right ← expr.evalAs .strict
        let value ← Eval.ofNoted (op.apply current right)
        Eval.writeElement name path value
        pure value
    else
      let right ← expr.evalAs .strict
      let current ← Eval.readElement false name keys
      let value ← Eval.ofNoted (op.apply current right)
      Eval.writeElement name path value
      pure value
  | ⟨line, .arg value⟩ => Eval.located line (value.evalAs .strict)
  | ⟨line, .call name args⟩ => Eval.located line do
    match (← get).functions.lookup? name with
    | none => do
      Eval.report (.callIgnored name)
      pure .null
    | some function =>
      let values ← evalList args
      callFunction deeper config function values
  | ⟨line, .param ..⟩ => Eval.located line (Eval.raise (.unknownNode "Param"))
  | ⟨line, .arrayItem ..⟩ => Eval.located line (Eval.raise (.unknownNode "ArrayItem"))
  | ⟨line, .bare⟩ => Eval.located line (Eval.raise (.unknownNode "Node"))

/-- The values of a row of nodes. -/
def evalList : List Node → Eval (List Value)
  | [] => pure []
  | node :: rest => do
    let value ← node.evalAs .strict
    let values ← evalList rest
    pure (value :: values)

/-- Evaluates statements in order. -/
def evalBlock : List Node → Eval Unit
  | [] => pure ()
  | node :: rest => do
    let _ ← node.evalAs .strict
    evalBlock rest

/-- Tries the further conditions of an `if` and evaluates the statements of the first that holds.
    The answer says whether one does; `found` says whether one did before. -/
def evalElseIfs (found : Bool) : List (ElseIf Node) → Eval Bool
  | [] => pure found
  | ⟨_, cond, body⟩ :: rest =>
    if found && config.shortCircuitElseIf then pure true
    else do
      let value ← cond.evalAs .strict
      if value.isTruthy && !found then
        evalBlock body
        evalElseIfs true rest
      else evalElseIfs found rest

/-- Adds the elements of an array literal to a table. -/
def evalItems (table : Table Value) : List (ArrayItem Node) → Eval (Table Value)
  | [] => pure table
  | ⟨_, value, none⟩ :: rest => do
    let element ← value.evalAs .strict
    evalItems (table.append element) rest
  | ⟨_, value, some key⟩ :: rest => do
    let element ← value.evalAs .strict
    let keyValue ← key.evalAs .strict
    evalItems (table.set (← Eval.ofRefusal keyValue.toKey) element) rest

/-- The keys on the way from the variable of a target to the element, in order. -/
def Node.evalKeys : Node → Eval (List (Option Key))
  | ⟨_, .index base none⟩ => do
    let keys ← base.evalKeys
    pure (keys ++ [none])
  | ⟨_, .index base (some dim)⟩ => do
    let keys ← base.evalKeys
    let value ← dim.evalAs .strict
    let key ← Eval.ofRefusal value.toKey
    pure (keys ++ [some key])
  | _ => pure []

end

end

/-- Evaluates a node; calls and inclusions may nest as deep as `depth`. -/
def evalWithin (config : Config) : (depth : Nat) → Node → Eval Value
  | 0, _ => do Eval.raise (.stackOverflow (← get).callDepth)
  | depth + 1, node => node.evalAs config (evalWithin config depth) .strict

end WebScript
