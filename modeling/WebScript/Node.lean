import WebScript.Operator

/-!
# The tree of a program

A node is a statement, an expression or a part of one, with the line where it starts. `Form` lists
the kinds of nodes over the type of their parts; `Node` ties the knot.
-/

namespace WebScript

/-- A condition of an `if` after the first, with its statements. -/
structure ElseIf (ν : Type) where
  line : Option Int
  cond : ν
  body : List ν

/-- The statements of an `if` for when no condition holds. -/
structure Else (ν : Type) where
  line : Option Int
  body : List ν

/-- A parameter of a function, perhaps with a default. -/
structure Param (ν : Type) where
  line : Option Int
  name : String
  default : Option ν

/-- An element of an array literal, perhaps with a key. -/
structure ArrayItem (ν : Type) where
  line : Option Int
  value : ν
  key : Option ν

/-- The kinds of nodes, over the type `ν` of the nodes inside them. -/
inductive Form (ν : Type) where
  | echo (exprs : List ν)
  | nop
  | ret (expr : Option ν)
  | elseIf (cond : ν) (body : List ν)
  | otherwise (body : List ν)
  | conditional (cond : ν) (body : List ν) (elseIfs : List (ElseIf ν)) (otherwise : Option (Else ν))
  | foreach (expr : ν) (valueVar : String) (body : List ν) (keyVar : Option String)
  | param (name : String) (default : Option ν)
  | functionDecl (name : String) (params : List (Param ν)) (body : List ν)
  /-- Running another file: `once` skips a file that has been loaded, `fatal` makes a missing file
      an error. -/
  | require (path : ν) (once fatal : Bool)
  | str (value : String)
  | int (value : Int)
  | float (value : Float)
  | arrayItem (value : ν) (key : Option ν)
  | arrayLiteral (items : List (ArrayItem ν))
  | binary (op : BinaryOperator) (left right : ν)
  | unary (op : UnaryOperator) (operand : ν)
  | variable (name : String)
  | constant (name : String)
  /-- An element; without `dim` the element that an assignment appends. -/
  | index (base : ν) (dim : Option ν)
  | assign (target expr : ν)
  | compoundAssign (op : BinaryOperator) (target expr : ν)
  | arg (value : ν)
  | call (name : String) (args : List ν)
  /-- A node of no particular kind. -/
  | bare

/-- A node of a program. -/
structure Node where
  line : Option Int
  form : Form Node

instance : Inhabited Node := ⟨⟨none, .bare⟩⟩

/-- The name of a kind of node. -/
def Form.kind {ν : Type} : Form ν → String
  | .echo .. => "Echo"
  | .nop => "Nop"
  | .ret .. => "Return"
  | .elseIf .. => "ElseIf"
  | .otherwise .. => "Else"
  | .conditional .. => "If"
  | .foreach .. => "Foreach"
  | .param .. => "Param"
  | .functionDecl .. => "FunctionDecl"
  | .require .. => "Require"
  | .str .. => "String"
  | .int .. => "Int"
  | .float .. => "Float"
  | .arrayItem .. => "ArrayItem"
  | .arrayLiteral .. => "ArrayLiteral"
  | .binary .. => "BinaryOp"
  | .unary .. => "UnaryOp"
  | .variable .. => "Variable"
  | .constant .. => "ConstFetch"
  | .index .. => "Index"
  | .assign .. => "Assign"
  | .compoundAssign .. => "CompoundAssign"
  | .arg .. => "Arg"
  | .call .. => "Call"
  | .bare => "Node"

/-- The keyword that runs another file. -/
def requireKeyword (once fatal : Bool) : String :=
  (if fatal then "require" else "include") ++ (if once then "_once" else "")

end WebScript
