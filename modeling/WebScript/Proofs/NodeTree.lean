import Mathlib
import WebScript.Node

/-!
# Nodes inside nodes

`Node.children` lists the nodes directly inside a node, whatever its kind, and `Node.parts` those
that are evaluated along with it: a declared function is evaluated when it is called and not when it
is declared. Statements about all nodes of a program are proved by `Node.inductionOnChildren`, one
kind of node at a time.
-/

namespace WebScript

/-! ## Children -/

namespace Form

variable {ν : Type}

/-- The nodes directly inside the further conditions of an `if`. -/
def elseIfNodes (elseIfs : List (ElseIf ν)) : List ν :=
  elseIfs.flatMap fun clause => clause.cond :: clause.body

/-- The nodes directly inside the last part of an `if`. -/
def otherwiseNodes (last : Option (Else ν)) : List ν :=
  last.elim [] fun clause => clause.body

/-- The nodes directly inside array elements. -/
def itemNodes (items : List (ArrayItem ν)) : List ν :=
  items.flatMap fun item => item.value :: item.key.toList

/-- The defaults of parameters. -/
def paramNodes (params : List (Param ν)) : List ν :=
  params.flatMap fun param => param.default.toList

theorem mem_paramNodes {params : List (Param ν)} {param : Param ν} {default : ν}
    (h : param ∈ params) (hdefault : param.default = some default) :
    default ∈ paramNodes params :=
  List.mem_flatMap.mpr ⟨param, h, by simp [hdefault]⟩

/-- The nodes directly inside a node of the given kind. -/
def children : Form ν → List ν
  | .echo exprs => exprs
  | .ret expr => expr.toList
  | .elseIf cond body => cond :: body
  | .otherwise body => body
  | .conditional cond body elseIfs last =>
    cond :: body ++ elseIfNodes elseIfs ++ otherwiseNodes last
  | .foreach expr _ body _ => expr :: body
  | .param _ default => default.toList
  | .functionDecl _ params body => paramNodes params ++ body
  | .require path _ _ => [path]
  | .arrayItem value key => value :: key.toList
  | .arrayLiteral items => itemNodes items
  | .binary _ left right => [left, right]
  | .unary _ operand => [operand]
  | .index base dim => base :: dim.toList
  | .assign target expr => [target, expr]
  | .compoundAssign _ target expr => [target, expr]
  | .arg value => [value]
  | .call _ args => args
  | .nop | .str _ | .int _ | .float _ | .variable _ | .constant _ | .bare => []

/-- The nodes directly inside a node that are evaluated along with it. -/
def parts : Form ν → List ν
  | .functionDecl .. => []
  | form => form.children

/-- The parts of a node are among the nodes directly inside it; bodies of functions are not. -/
theorem parts_subset_children (form : Form ν) : form.parts ⊆ form.children := by
  cases form with
  | functionDecl name params body => exact List.nil_subset _
  | _ => exact List.Subset.refl _

end Form

/-- The nodes directly inside a node. -/
def Node.children (node : Node) : List Node := node.form.children

/-- The nodes directly inside a node that are evaluated along with it. -/
def Node.parts (node : Node) : List Node := node.form.parts

/-! ## Induction -/

section Size

theorem sizeOf_lt_of_mem_toList {node : Node} {found : Option Node} (h : node ∈ found.toList) :
    sizeOf node < sizeOf found := by
  cases found with
  | none => simp at h
  | some inner =>
    simp only [Option.toList_some, List.mem_singleton] at h
    subst h
    simp

theorem sizeOf_lt_of_mem_elseIfNodes {node : Node} {elseIfs : List (ElseIf Node)}
    (h : node ∈ Form.elseIfNodes elseIfs) : sizeOf node < sizeOf elseIfs := by
  obtain ⟨clause, hclause, hnode⟩ := List.mem_flatMap.mp h
  have hlt := List.sizeOf_lt_of_mem hclause
  have hsize : sizeOf clause = 1 + sizeOf clause.line + sizeOf clause.cond + sizeOf clause.body :=
    rfl
  rcases List.mem_cons.mp hnode with rfl | hnode
  · omega
  · have := List.sizeOf_lt_of_mem hnode
    omega

theorem sizeOf_lt_of_mem_otherwiseNodes {node : Node} {otherwise : Option (Else Node)}
    (h : node ∈ Form.otherwiseNodes otherwise) : sizeOf node < sizeOf otherwise := by
  cases otherwise with
  | none => simp [Form.otherwiseNodes] at h
  | some clause =>
    have hlt := List.sizeOf_lt_of_mem (show node ∈ clause.body from h)
    have hsize : sizeOf clause = 1 + sizeOf clause.line + sizeOf clause.body := rfl
    simp only [Option.some.sizeOf_spec]
    omega

theorem sizeOf_lt_of_mem_itemNodes {node : Node} {items : List (ArrayItem Node)}
    (h : node ∈ Form.itemNodes items) : sizeOf node < sizeOf items := by
  obtain ⟨item, hitem, hnode⟩ := List.mem_flatMap.mp h
  have hlt := List.sizeOf_lt_of_mem hitem
  have hsize : sizeOf item = 1 + sizeOf item.line + sizeOf item.value + sizeOf item.key := rfl
  rcases List.mem_cons.mp hnode with rfl | hnode
  · omega
  · have := sizeOf_lt_of_mem_toList hnode
    omega

theorem sizeOf_lt_of_mem_paramNodes {node : Node} {params : List (Param Node)}
    (h : node ∈ Form.paramNodes params) : sizeOf node < sizeOf params := by
  obtain ⟨param, hparam, hnode⟩ := List.mem_flatMap.mp h
  have hlt := List.sizeOf_lt_of_mem hparam
  have hsize : sizeOf param = 1 + sizeOf param.line + sizeOf param.name + sizeOf param.default := rfl
  have := sizeOf_lt_of_mem_toList hnode
  omega

end Size

theorem Form.sizeOf_lt_of_mem_children {node : Node} {form : Form Node}
    (h : node ∈ form.children) : sizeOf node < sizeOf form := by
  cases form with
  | echo nodes | otherwise nodes | call name nodes =>
    have := List.sizeOf_lt_of_mem (show node ∈ nodes from h)
    simp only [Form.echo.sizeOf_spec, Form.otherwise.sizeOf_spec, Form.call.sizeOf_spec]
    omega
  | ret expr | param name expr =>
    have := sizeOf_lt_of_mem_toList (show node ∈ expr.toList from h)
    simp only [Form.ret.sizeOf_spec, Form.param.sizeOf_spec]
    omega
  | elseIf first body | foreach first valueVar body keyVar =>
    simp only [Form.elseIf.sizeOf_spec, Form.foreach.sizeOf_spec]
    rcases List.mem_cons.mp h with rfl | h
    · omega
    · have := List.sizeOf_lt_of_mem h
      omega
  | conditional cond body elseIfs last =>
    simp only [Form.conditional.sizeOf_spec]
    simp only [Form.children, List.mem_append, List.mem_cons] at h
    rcases h with ((rfl | h) | h) | h
    · omega
    · have := List.sizeOf_lt_of_mem h
      omega
    · have := sizeOf_lt_of_mem_elseIfNodes h
      omega
    · have := sizeOf_lt_of_mem_otherwiseNodes h
      omega
  | functionDecl name params body =>
    simp only [Form.functionDecl.sizeOf_spec]
    rcases List.mem_append.mp h with h | h
    · have := sizeOf_lt_of_mem_paramNodes h
      omega
    · have := List.sizeOf_lt_of_mem h
      omega
  | arrayLiteral items =>
    have := sizeOf_lt_of_mem_itemNodes (show node ∈ Form.itemNodes items from h)
    simp only [Form.arrayLiteral.sizeOf_spec]
    omega
  | arrayItem first second | index first second =>
    simp only [Form.arrayItem.sizeOf_spec, Form.index.sizeOf_spec]
    rcases List.mem_cons.mp h with rfl | h
    · omega
    · have := sizeOf_lt_of_mem_toList h
      omega
  | require inner _ _ | unary _ inner | arg inner =>
    simp only [Form.children, List.mem_singleton] at h
    subst h
    simp only [Form.require.sizeOf_spec, Form.unary.sizeOf_spec, Form.arg.sizeOf_spec]
    omega
  | binary _ first second | assign first second | compoundAssign _ first second =>
    simp only [Form.children, List.mem_cons, List.not_mem_nil, or_false] at h
    simp only [Form.binary.sizeOf_spec, Form.assign.sizeOf_spec, Form.compoundAssign.sizeOf_spec]
    rcases h with rfl | rfl <;> omega
  | nop | str | int | float | «variable» | constant | bare => simp [Form.children] at h

/-- A node is larger than the nodes directly inside it. -/
theorem Node.sizeOf_lt_of_mem_children {child node : Node} (h : child ∈ node.children) :
    sizeOf child < sizeOf node := by
  obtain ⟨line, form⟩ := node
  have hform : sizeOf child < sizeOf form := Form.sizeOf_lt_of_mem_children h
  simp only [Node.mk.sizeOf_spec]
  omega

/-- What holds of a node whenever it holds of the nodes directly inside it, holds of all nodes. -/
theorem Node.inductionOnChildren {motive : Node → Prop}
    (step : ∀ node, (∀ child ∈ node.children, motive child) → motive node) (node : Node) :
    motive node := by
  induction hsize : sizeOf node using Nat.strongRecOn generalizing node with
  | _ size ih =>
    subst hsize
    apply step
    intro child hchild
    exact ih (sizeOf child) (Node.sizeOf_lt_of_mem_children hchild) child rfl

/-! ## Nodes at any depth -/

/-- `part` is evaluated whenever all of `whole` is: it is `whole` itself or inside it, and not
    inside a function that is declared there. -/
def Node.Within (part whole : Node) : Prop :=
  Relation.ReflTransGen (fun outer inner => inner ∈ outer.parts) whole part

/-- `inner` is `outer` itself or a node inside it. -/
def Node.Inside (inner outer : Node) : Prop :=
  Relation.ReflTransGen (fun outer inner => inner ∈ outer.children) outer inner

theorem Node.Within.refl (node : Node) : node.Within node := Relation.ReflTransGen.refl

theorem Node.Inside.refl (node : Node) : node.Inside node := Relation.ReflTransGen.refl

theorem Node.Within.of_part {inner part whole : Node} (hinner : inner.Within part)
    (hpart : part ∈ whole.parts) : inner.Within whole :=
  Relation.ReflTransGen.head hpart hinner

/-- A part of a node at any depth is the node or stands in one of its parts. -/
theorem Node.within_mk {part : Node} {line : Option Int} {form : Form Node} :
    part.Within ⟨line, form⟩ ↔ part = ⟨line, form⟩ ∨ ∃ inner ∈ form.parts, part.Within inner := by
  constructor
  · intro h
    rcases Relation.ReflTransGen.cases_head h with h | ⟨inner, hinner, h⟩
    · exact Or.inl h.symm
    · exact Or.inr ⟨inner, hinner, h⟩
  · rintro (rfl | ⟨inner, hinner, h⟩)
    · exact .refl _
    · exact h.of_part hinner

theorem Node.Inside.of_child {inner child outer : Node} (hinner : inner.Inside child)
    (hchild : child ∈ outer.children) : inner.Inside outer :=
  Relation.ReflTransGen.head hchild hinner

/-- What stands in a node at any depth is the node or stands in one directly inside it. -/
theorem Node.inside_mk {inner : Node} {line : Option Int} {form : Form Node} :
    inner.Inside ⟨line, form⟩ ↔
      inner = ⟨line, form⟩ ∨ ∃ child ∈ form.children, inner.Inside child := by
  constructor
  · intro h
    rcases Relation.ReflTransGen.cases_head h with h | ⟨child, hchild, h⟩
    · exact Or.inl h.symm
    · exact Or.inr ⟨child, hchild, h⟩
  · rintro (rfl | ⟨child, hchild, h⟩)
    · exact .refl _
    · exact h.of_child hchild

/-- A property of all nodes of a tree is one of its root and of all nodes of the trees directly
    inside. -/
theorem Node.forall_inside_mk {P : Node → Prop} {line : Option Int} {form : Form Node} :
    (∀ inner : Node, inner.Inside ⟨line, form⟩ → P inner) ↔
      P ⟨line, form⟩ ∧ ∀ child ∈ form.children, ∀ inner : Node, inner.Inside child → P inner := by
  constructor
  · intro h
    exact ⟨h _ (.refl _), fun child hchild inner hinner => h inner (hinner.of_child hchild)⟩
  · rintro ⟨hroot, hchildren⟩ inner hinner
    rcases Node.inside_mk.mp hinner with rfl | ⟨child, hchild, hinner⟩
    · exact hroot
    · exact hchildren child hchild inner hinner

end WebScript
