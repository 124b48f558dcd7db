import WebScript.Proofs.KeyTexts
import WebScript.Proofs.Lines
import WebScript.Proofs.ListingLines

/-!
# The trees of nodes

The tree of a node is made of those of the nodes directly inside it, of texts and of names
(`Node.listing_eq`); the lines of the source have no part in it (`Node.listing_eraseLines`). Some
things are shown in a way that may also stand for something else: floats, texts with line ends, and
a key variable with the name that stands for a missing one. A node without any of them is listable
(`Node.Listable`), and its tree is legible (`Node.legible_listing`).
-/

namespace WebScript

open Listing (Legible IsLabel IsNodeName slotOf)

/-! ## The tree of one node -/

section Shown

variable {ν μ : Type}

/-- The tree of a further condition of an `if`, given those of the nodes inside it. -/
def ElseIf.shownBy (shown : ν → Listing) (clause : ElseIf ν) : Listing :=
  .node "Stmt_ElseIf" [("cond", shown clause.cond), ("body", .list (clause.body.map shown))]

/-- The tree of the last part of an `if`, given those of the nodes inside it. -/
def Else.shownBy (shown : ν → Listing) (clause : Else ν) : Listing :=
  .node "Stmt_Else" [("body", .list (clause.body.map shown))]

/-- The tree of a parameter, given that of its default. -/
def Param.shownBy (shown : ν → Listing) (param : Param ν) : Listing :=
  .node "Param" [("name", .scalar param.name), ("default", .ofOption (param.default.map shown))]

/-- The tree of an array element, given those of the nodes inside it. -/
def ArrayItem.shownBy (shown : ν → Listing) (item : ArrayItem ν) : Listing :=
  .node "ArrayItem" [("value", shown item.value), ("key", .ofOption (item.key.map shown))]

/-- The tree of a node, given those of the nodes directly inside it. -/
def Form.shownBy (shown : ν → Listing) : Form ν → Listing
  | .echo exprs => .node "Stmt_Echo" [("exprs", .list (exprs.map shown))]
  | .nop => .node "Stmt_Nop" []
  | .ret expr => .node "Stmt_Return" [("expr", .ofOption (expr.map shown))]
  | .elseIf cond body => ElseIf.shownBy shown ⟨none, cond, body⟩
  | .otherwise body => Else.shownBy shown ⟨none, body⟩
  | .conditional cond body elseIfs last =>
    .node "Stmt_If"
      [("cond", shown cond), ("body", .list (body.map shown)),
       ("elseifs", .list (elseIfs.map (ElseIf.shownBy shown))),
       ("else_", .ofOption (last.map (Else.shownBy shown)))]
  | .foreach expr valueVar body keyVar =>
    .node "Stmt_Foreach"
      [("expr", shown expr), ("value_var", .scalar valueVar), ("body", .list (body.map shown)),
       ("key_var", .ofOption (keyVar.map .scalar))]
  | .param name default => Param.shownBy shown ⟨none, name, default⟩
  | .functionDecl name params body =>
    .node "Stmt_Function"
      [("name", .scalar name), ("params", .list (params.map (Param.shownBy shown))),
       ("body", .list (body.map shown))]
  | .require path once fatal =>
    .node "Expr_Include" [("path", shown path), ("once", .ofBool once), ("fatal", .ofBool fatal)]
  | .str value => .node "Scalar_String" [("value", .scalar value)]
  | .int value => .node "Scalar_Int" [("value", .scalar (toString value))]
  | .float value => .node "Scalar_Float" [("value", .scalar (listedFloat value))]
  | .arrayItem value key => ArrayItem.shownBy shown ⟨none, value, key⟩
  | .arrayLiteral items =>
    .node "Expr_Array" [("items", .list (items.map (ArrayItem.shownBy shown)))]
  | .binary op left right =>
    .node ("Expr_BinaryOp_" ++ op.name) [("left", shown left), ("right", shown right)]
  | .unary op operand => .node ("Expr_" ++ op.name) [("operand", shown operand)]
  | .variable name => .node "Expr_Variable" [("name", .scalar name)]
  | .constant name => .node "Expr_ConstFetch" [("name", .scalar name)]
  | .index base dim =>
    .node "Expr_ArrayDimFetch" [("base", shown base), ("dim", .ofOption (dim.map shown))]
  | .assign target expr => .node "Expr_Assign" [("target", shown target), ("expr", shown expr)]
  | .compoundAssign op target expr =>
    .node ("Expr_AssignOp_" ++ op.name) [("target", shown target), ("expr", shown expr)]
  | .arg value => .node "Arg" [("value", shown value)]
  | .call name args =>
    .node "Expr_FuncCall" [("name", .scalar name), ("args", .list (args.map shown))]
  | .bare => .node "Expr_Node" []

/-- The lines of the parts of a node are not shown. -/
theorem Form.shownBy_map (line : Option Int → Option Int) (f : ν → μ) (shown : μ → Listing)
    (form : Form ν) : (form.map line f).shownBy shown = form.shownBy (shown ∘ f) := by
  have helseIf : ElseIf.shownBy shown ∘ ElseIf.map line f = ElseIf.shownBy (shown ∘ f) := by
    funext clause
    simp [ElseIf.shownBy, ElseIf.map]
  have helse : Else.shownBy shown ∘ Else.map line f = Else.shownBy (shown ∘ f) := by
    funext clause
    simp [Else.shownBy, Else.map]
  have hparam : Param.shownBy shown ∘ Param.map line f = Param.shownBy (shown ∘ f) := by
    funext param
    simp [Param.shownBy, Param.map]
  have hitem : ArrayItem.shownBy shown ∘ ArrayItem.map line f = ArrayItem.shownBy (shown ∘ f) := by
    funext item
    simp [ArrayItem.shownBy, ArrayItem.map]
  cases form <;> simp [Form.shownBy, helseIf, helse, hparam, hitem] <;>
    simp [ElseIf.shownBy, Else.shownBy, Param.shownBy, ArrayItem.shownBy]

/-- What is shown of a node depends only on what is shown of the nodes directly inside it. -/
theorem Form.shownBy_congr {first second : ν → Listing} {form : Form ν}
    (h : ∀ child ∈ form.children, first child = second child) :
    form.shownBy first = form.shownBy second := by
  have hmap : form.map id first = form.map id second := Form.map_congr h
  have htrees := congrArg (Form.shownBy id) hmap
  rwa [Form.shownBy_map, Form.shownBy_map, Function.id_comp, Function.id_comp] at htrees

end Shown

theorem listNodes_eq_map (nodes : List Node) : listNodes nodes = nodes.map Node.listing := by
  induction nodes with
  | nil => rfl
  | cons node rest ih => rw [listNodes, ih, List.map_cons]

theorem listOption_eq_map (node : Option Node) :
    listOption node = .ofOption (node.map Node.listing) := by
  cases node <;> rfl

theorem listElseIfs_eq_map (elseIfs : List (ElseIf Node)) :
    listElseIfs elseIfs = elseIfs.map (ElseIf.shownBy Node.listing) := by
  induction elseIfs with
  | nil => rfl
  | cons clause rest ih =>
    rw [listElseIfs, ih, List.map_cons, ElseIf.shownBy, listNodes_eq_map]

theorem listElse_eq_map (last : Option (Else Node)) :
    listElse last = .ofOption (last.map (Else.shownBy Node.listing)) := by
  cases last with
  | none => rfl
  | some clause => rw [listElse, Option.map_some, Else.shownBy, listNodes_eq_map]; rfl

theorem listParams_eq_map (params : List (Param Node)) :
    listParams params = params.map (Param.shownBy Node.listing) := by
  induction params with
  | nil => rfl
  | cons param rest ih => rw [listParams, ih, List.map_cons, Param.shownBy, listOption_eq_map]

theorem listItems_eq_map (items : List (ArrayItem Node)) :
    listItems items = items.map (ArrayItem.shownBy Node.listing) := by
  induction items with
  | nil => rfl
  | cons item rest ih => rw [listItems, ih, List.map_cons, ArrayItem.shownBy, listOption_eq_map]

/-- The tree of a node is made of those of the nodes directly inside it. -/
theorem Node.listing_eq (node : Node) : node.listing = node.form.shownBy Node.listing := by
  obtain ⟨line, form⟩ := node
  cases form <;>
    simp only [Node.listing, Form.shownBy, ElseIf.shownBy, Else.shownBy, Param.shownBy,
      ArrayItem.shownBy, listNodes_eq_map, listOption_eq_map, listElseIfs_eq_map, listElse_eq_map,
      listParams_eq_map, listItems_eq_map]

/-- Lines of the source are not shown. -/
theorem Node.listing_eraseLines (node : Node) : node.eraseLines.listing = node.listing := by
  induction node using Node.inductionOnChildren with
  | step node ih =>
    obtain ⟨line, form⟩ := node
    rw [Node.eraseLines, Form.eraseLines_eq_map, Node.listing_eq, Node.listing_eq,
      Form.shownBy_map]
    exact Form.shownBy_congr ih

/-! ## Trees that can be shown -/

/-- A node that shows everything it is, apart from its line: it is no float, has no text with a line
    end, and no key variable with the name that stands for a missing one. -/
def Form.Listable {ν : Type} : Form ν → Prop
  | .float _ => False
  | .str text | .variable text | .constant text | .param text _ | .call text _ =>
    '\n' ∉ text.toList
  | .functionDecl name params _ =>
    '\n' ∉ name.toList ∧ ∀ param ∈ params, '\n' ∉ param.name.toList
  | .foreach _ valueVar _ keyVar =>
    '\n' ∉ valueVar.toList ∧ ∀ key ∈ keyVar, '\n' ∉ key.toList ∧ key ≠ "null"
  | _ => True

/-- Trees of which every node shows everything it is, apart from its line. -/
def Node.Listable (node : Node) : Prop := ∀ inner : Node, inner.Inside node → inner.form.Listable

section Legibility

variable {ν : Type} {shown : ν → Listing}

theorem legible_list_map {nodes : List ν} (h : ∀ node ∈ nodes, (shown node).Legible .tree) :
    (Listing.list (nodes.map shown)).Legible .tree :=
  .list (List.forall_mem_map.mpr h)

theorem legible_ofOption {node : Option ν}
    (h : ∀ inner ∈ node.toList, (shown inner).Legible .tree) :
    (Listing.ofOption (node.map shown)).Legible .tree := by
  cases node with
  | none => exact .missing
  | some inner => exact h inner (List.mem_singleton_self inner)

/-- A tree can be read back if its name is one of a node, its labels are labels, and its parts can
    be read back. -/
theorem legible_node {name : String} {parts : List (String × Listing)} (hname : IsNodeName name)
    (hparts : ∀ part ∈ parts, IsLabel part.1 ∧ part.2.Legible (slotOf name part.1)) :
    (Listing.node name parts).Legible .tree :=
  .node hname (fun part hpart => (hparts part hpart).1) fun part hpart => (hparts part hpart).2

/-- A text can be read back from its row if it has no line break. -/
theorem legible_text_iff {text : String} :
    (Listing.scalar text).Legible .text ↔ '\n' ∉ text.toList :=
  ⟨fun h => by cases h; assumption, .text⟩

theorem legible_ofBool (b : Bool) : (Listing.ofBool b).Legible .text := by
  cases b <;> exact .text (by decide)

/-- The name of a key variable is a text, also if it is missing. -/
theorem legible_ofOption_scalar {text : Option String}
    (h : ∀ name ∈ text, '\n' ∉ name.toList) :
    (Listing.ofOption (text.map .scalar)).Legible .text := by
  cases text with
  | none => exact .text (by decide)
  | some name => exact .text (h name rfl)

/-- The names of nodes with an operator: the name of the operator stands behind its use. -/
theorem isNodeName_append {lead rest : String} (hlead : IsLabel lead)
    (hstart : lead.toList.head? = some 'E') (hrest : IsLabel rest) : IsNodeName (lead ++ rest) := by
  have hchars : (lead ++ rest).toList = lead.toList ++ rest.toList := String.toList_append
  refine ⟨⟨?_, ?_⟩, ?_⟩
  · simp [hchars, hlead.1, hrest.1]
  · simp [hchars, hlead.2, hrest.2]
  · intro h
    have hhead : (lead ++ rest).toList.head? = some 'a' := by rw [h]; rfl
    rw [hchars, List.head?_append, hstart, Option.some_or] at hhead
    exact absurd (Option.some.inj hhead) (by decide)

/-- The name of a binary operator is one word. -/
theorem BinaryOperator.isLabel_name (op : BinaryOperator) : IsLabel op.name := by
  cases op <;> decide

theorem UnaryOperator.isLabel_name (op : UnaryOperator) : IsLabel op.name := by
  cases op <;> decide

theorem ElseIf.legible_shownBy {clause : ElseIf ν}
    (h : ∀ node ∈ clause.cond :: clause.body, (shown node).Legible .tree) :
    (clause.shownBy shown).Legible .tree := by
  rw [List.forall_mem_cons] at h
  refine legible_node (by decide) ?_
  simp +decide [slotOf, h.1, legible_list_map h.2]

theorem Else.legible_shownBy {clause : Else ν}
    (h : ∀ node ∈ clause.body, (shown node).Legible .tree) :
    (clause.shownBy shown).Legible .tree := by
  refine legible_node (by decide) ?_
  simp +decide [slotOf, legible_list_map h]

/-- A parameter can be read back if its name has no line break and its default can be read back. -/
theorem Param.legible_shownBy {param : Param ν} (hname : '\n' ∉ param.name.toList)
    (h : ∀ node ∈ param.default.toList, (shown node).Legible .tree) :
    (param.shownBy shown).Legible .tree := by
  refine legible_node (by decide) ?_
  simp +decide [slotOf, legible_text_iff, hname, legible_ofOption h]

theorem ArrayItem.legible_shownBy {item : ArrayItem ν}
    (h : ∀ node ∈ item.value :: item.key.toList, (shown node).Legible .tree) :
    (item.shownBy shown).Legible .tree := by
  rw [List.forall_mem_cons] at h
  refine legible_node (by decide) ?_
  simp +decide [slotOf, h.1, legible_ofOption h.2]

/-- A node is legible if the nodes directly inside it are and it can be shown itself. -/
theorem Form.legible_shownBy {form : Form ν} (hform : form.Listable)
    (h : ∀ child ∈ form.children, (shown child).Legible .tree) :
    (form.shownBy shown).Legible .tree := by
  cases form with
  | float => exact hform.elim
  | elseIf cond body => exact ElseIf.legible_shownBy h
  | otherwise body => exact Else.legible_shownBy h
  | param name default => exact Param.legible_shownBy hform h
  | arrayItem value key => exact ArrayItem.legible_shownBy h
  | nop | bare => exact legible_node (by decide) nofun
  | echo exprs =>
    have hexprs := legible_list_map (show ∀ child ∈ exprs, _ from h)
    exact legible_node (by decide) (by simp +decide [slotOf, hexprs])
  | ret expr =>
    have hexpr := legible_ofOption (show ∀ child ∈ expr.toList, _ from h)
    exact legible_node (by decide) (by simp +decide [slotOf, hexpr])
  | conditional cond body elseIfs last =>
    simp only [Form.children, List.forall_mem_append, List.forall_mem_cons] at h
    obtain ⟨⟨⟨hcond, hbody⟩, hclauses⟩, hlast⟩ := h
    have helseIfs : (Listing.list (elseIfs.map (ElseIf.shownBy shown))).Legible .tree :=
      legible_list_map fun clause hclause =>
        ElseIf.legible_shownBy (List.forall_mem_flatMap.mp hclauses clause hclause)
    have helse : (Listing.ofOption (last.map (Else.shownBy shown))).Legible .tree := by
      refine legible_ofOption fun clause hclause => Else.legible_shownBy fun node hnode => ?_
      rw [Option.mem_toList] at hclause
      subst hclause
      exact hlast node hnode
    exact legible_node (by decide)
      (by simp +decide [slotOf, hcond, legible_list_map hbody, helseIfs, helse])
  | foreach expr valueVar body keyVar =>
    obtain ⟨hvalue, hkey⟩ := hform
    obtain ⟨hexpr, hbody⟩ := List.forall_mem_cons.mp h
    have hkeyVar := legible_ofOption_scalar fun name hname => (hkey name hname).1
    exact legible_node (by decide)
      (by simp +decide [slotOf, hexpr, legible_text_iff, hvalue, legible_list_map hbody, hkeyVar])
  | functionDecl name params body =>
    obtain ⟨hname, hnames⟩ := hform
    obtain ⟨hdefaults, hbody⟩ := List.forall_mem_append.mp h
    have hparams : (Listing.list (params.map (Param.shownBy shown))).Legible .tree :=
      legible_list_map fun param hparam =>
        Param.legible_shownBy (hnames param hparam)
          (List.forall_mem_flatMap.mp hdefaults param hparam)
    exact legible_node (by decide)
      (by simp +decide [slotOf, legible_text_iff, hname, hparams, legible_list_map hbody])
  | require path once fatal =>
    simp only [Form.children, List.forall_mem_cons] at h
    exact legible_node (by decide) (by simp +decide [slotOf, h, legible_ofBool])
  | str text | «variable» text | constant text =>
    exact legible_node (by decide)
      (by simp +decide [slotOf, legible_text_iff, show '\n' ∉ text.toList from hform])
  | int value =>
    have hvalue : (Listing.scalar (toString value)).Legible (slotOf "Scalar_Int" "value") :=
      .text (not_lineEnd_mem_toString value)
    exact legible_node (by decide)
      (List.forall_mem_singleton.mpr ⟨show IsLabel "value" by decide, hvalue⟩)
  | arrayLiteral items =>
    have hitems : (Listing.list (items.map (ArrayItem.shownBy shown))).Legible .tree :=
      legible_list_map fun item hitem =>
        ArrayItem.legible_shownBy (List.forall_mem_flatMap.mp h item hitem)
    exact legible_node (by decide) (by simp +decide [slotOf, hitems])
  | binary op first second | compoundAssign op first second | unary op first =>
    simp only [Form.children, List.forall_mem_cons] at h
    exact legible_node (isNodeName_append (by decide) (by decide) op.isLabel_name)
      (by simp +decide [slotOf, h])
  | assign first second | arg first =>
    simp only [Form.children, List.forall_mem_cons] at h
    exact legible_node (by decide) (by simp +decide [slotOf, h])
  | index base dim =>
    obtain ⟨hbase, hdim⟩ := List.forall_mem_cons.mp h
    exact legible_node (by decide) (by simp +decide [slotOf, hbase, legible_ofOption hdim])
  | call name args =>
    have hargs := legible_list_map (show ∀ child ∈ args, _ from h)
    exact legible_node (by decide)
      (by simp +decide [slotOf, legible_text_iff, show '\n' ∉ name.toList from hform, hargs])

end Legibility

/-- A tree can be read back if all of its nodes can be shown, from the nodes directly inside it
    on. -/
theorem Node.legible_listing {node : Node} (h : node.Listable) : node.listing.Legible .tree := by
  induction node using Node.inductionOnChildren with
  | step node ih =>
    obtain ⟨line, form⟩ := node
    obtain ⟨hform, hchildren⟩ := Node.forall_inside_mk.mp h
    rw [Node.listing_eq]
    exact Form.legible_shownBy hform fun child hchild => ih child hchild (hchildren child hchild)

end WebScript
