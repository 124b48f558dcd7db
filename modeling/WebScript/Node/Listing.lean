import WebScript.Node
import WebScript.Number.Decimal

/-!
# Listings of programs

A listing shows the tree of a program: one line per node or scalar, indented by depth. `Listing` is
the tree as it is shown, with the name of each node and of its parts; lines of the source are left
out.
-/

namespace WebScript

/-- A tree as it is shown. -/
inductive Listing where
  | scalar (text : String)
  | list (items : List Listing)
  | node (name : String) (parts : List (String × Listing))

namespace Listing

/-- The indentation of a depth. -/
def indent (depth : Nat) : String := String.ofList (List.replicate (4 * depth) ' ')

mutual

/-- The lines of a tree, the first of which starts with `head`. -/
def lines (depth : Nat) (head : String) : Listing → List String
  | .scalar text => [indent depth ++ head ++ text]
  | .list items =>
    (indent depth ++ head ++ "array(") :: itemLines (depth + 1) 0 items ++ [indent depth ++ ")"]
  | .node name parts =>
    (indent depth ++ head ++ name ++ "(") :: partLines (depth + 1) parts ++ [indent depth ++ ")"]

/-- The lines of a row of trees, numbered from `start`. -/
def itemLines (depth start : Nat) : List Listing → List String
  | [] => []
  | item :: rest => item.lines depth (toString start ++ ": ") ++ itemLines depth (start + 1) rest

/-- The lines of named parts. -/
def partLines (depth : Nat) : List (String × Listing) → List String
  | [] => []
  | (name, part) :: rest => part.lines depth (name ++ ": ") ++ partLines depth rest

end

/-- The text of a tree. -/
def render (listing : Listing) : String := "\n".intercalate (listing.lines 0 "")

/-- A truth value. -/
def ofBool (b : Bool) : Listing := .scalar (if b then "true" else "false")

/-- A part that may be missing. -/
def ofOption : Option Listing → Listing
  | some listing => listing
  | none => .scalar "null"

end Listing

mutual

/-- The tree of a node as it is shown. -/
def Node.listing : Node → Listing
  | ⟨_, .echo exprs⟩ => .node "Stmt_Echo" [("exprs", .list (listNodes exprs))]
  | ⟨_, .nop⟩ => .node "Stmt_Nop" []
  | ⟨_, .ret expr⟩ => .node "Stmt_Return" [("expr", listOption expr)]
  | ⟨_, .elseIf cond body⟩ =>
    .node "Stmt_ElseIf" [("cond", cond.listing), ("body", .list (listNodes body))]
  | ⟨_, .otherwise body⟩ => .node "Stmt_Else" [("body", .list (listNodes body))]
  | ⟨_, .conditional cond body elseIfs otherwise⟩ =>
    .node "Stmt_If"
      [("cond", cond.listing), ("body", .list (listNodes body)),
       ("elseifs", .list (listElseIfs elseIfs)), ("else_", listElse otherwise)]
  | ⟨_, .foreach expr valueVar body keyVar⟩ =>
    .node "Stmt_Foreach"
      [("expr", expr.listing), ("value_var", .scalar valueVar), ("body", .list (listNodes body)),
       ("key_var", .ofOption (keyVar.map .scalar))]
  | ⟨_, .param name default⟩ =>
    .node "Param" [("name", .scalar name), ("default", listOption default)]
  | ⟨_, .functionDecl name params body⟩ =>
    .node "Stmt_Function"
      [("name", .scalar name), ("params", .list (listParams params)),
       ("body", .list (listNodes body))]
  | ⟨_, .require path once fatal⟩ =>
    .node "Expr_Include"
      [("path", path.listing), ("once", .ofBool once), ("fatal", .ofBool fatal)]
  | ⟨_, .str value⟩ => .node "Scalar_String" [("value", .scalar value)]
  | ⟨_, .int value⟩ => .node "Scalar_Int" [("value", .scalar (toString value))]
  | ⟨_, .float value⟩ => .node "Scalar_Float" [("value", .scalar (listedFloat value))]
  | ⟨_, .arrayItem value key⟩ =>
    .node "ArrayItem" [("value", value.listing), ("key", listOption key)]
  | ⟨_, .arrayLiteral items⟩ => .node "Expr_Array" [("items", .list (listItems items))]
  | ⟨_, .binary op left right⟩ =>
    .node ("Expr_BinaryOp_" ++ op.name) [("left", left.listing), ("right", right.listing)]
  | ⟨_, .unary op operand⟩ => .node ("Expr_" ++ op.name) [("operand", operand.listing)]
  | ⟨_, .variable name⟩ => .node "Expr_Variable" [("name", .scalar name)]
  | ⟨_, .constant name⟩ => .node "Expr_ConstFetch" [("name", .scalar name)]
  | ⟨_, .index base dim⟩ =>
    .node "Expr_ArrayDimFetch" [("base", base.listing), ("dim", listOption dim)]
  | ⟨_, .assign target expr⟩ =>
    .node "Expr_Assign" [("target", target.listing), ("expr", expr.listing)]
  | ⟨_, .compoundAssign op target expr⟩ =>
    .node ("Expr_AssignOp_" ++ op.name) [("target", target.listing), ("expr", expr.listing)]
  | ⟨_, .arg value⟩ => .node "Arg" [("value", value.listing)]
  | ⟨_, .call name args⟩ =>
    .node "Expr_FuncCall" [("name", .scalar name), ("args", .list (listNodes args))]
  | ⟨_, .bare⟩ => .node "Expr_Node" []

/-- The trees of a row of nodes. -/
def listNodes : List Node → List Listing
  | [] => []
  | node :: rest => node.listing :: listNodes rest

/-- The tree of a node that may be missing. -/
def listOption : Option Node → Listing
  | some node => node.listing
  | none => .scalar "null"

/-- The trees of the further conditions of an `if`. -/
def listElseIfs : List (ElseIf Node) → List Listing
  | [] => []
  | ⟨_, cond, body⟩ :: rest =>
    .node "Stmt_ElseIf" [("cond", cond.listing), ("body", .list (listNodes body))] ::
      listElseIfs rest

/-- The tree of the last part of an `if`. -/
def listElse : Option (Else Node) → Listing
  | some ⟨_, body⟩ => .node "Stmt_Else" [("body", .list (listNodes body))]
  | none => .scalar "null"

/-- The trees of parameters. -/
def listParams : List (Param Node) → List Listing
  | [] => []
  | ⟨_, name, default⟩ :: rest =>
    .node "Param" [("name", .scalar name), ("default", listOption default)] :: listParams rest

/-- The trees of array elements. -/
def listItems : List (ArrayItem Node) → List Listing
  | [] => []
  | ⟨_, value, key⟩ :: rest =>
    .node "ArrayItem" [("value", value.listing), ("key", listOption key)] :: listItems rest

end

/-- The listing of a program. -/
def listProgram (nodes : List Node) : String := (Listing.list (listNodes nodes)).render

end WebScript
