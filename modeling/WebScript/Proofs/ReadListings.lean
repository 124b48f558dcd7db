import WebScript.Proofs.ListedTrees

/-!
# Reading listings back

A tree is read from the inside out (`Listing.read`): once the parts of a node have been read, its
name tells of which kind it is and which operator it has (`Form.ofParts`). A listable tree is read
back as it is, without its lines (`Node.read_listing`). The text of a listing shows one legible tree
only, so a listing loses nothing but lines (`listing_loses_only_lines`).
-/

namespace WebScript

/-! ## Operators by name -/

/-- The operators of nodes, by the names of these nodes. -/
def listedOperators : List (String × (BinaryOperator ⊕ UnaryOperator)) :=
  BinaryOperator.all.map (fun op => ("Expr_BinaryOp_" ++ op.name, .inl op)) ++
    BinaryOperator.all.map (fun op => ("Expr_AssignOp_" ++ op.name, .inl op)) ++
    [UnaryOperator.not, .minus, .plus, .bitwiseNot].map fun op => ("Expr_" ++ op.name, .inr op)

/-- The operator of a node with the given name. -/
def operatorNamed? (name : String) : Option (BinaryOperator ⊕ UnaryOperator) :=
  listedOperators.lookup name

@[simp] theorem operatorNamed?_binary (op : BinaryOperator) :
    operatorNamed? ("Expr_BinaryOp_" ++ op.name) = some (.inl op) := by
  cases op <;> rfl

@[simp] theorem operatorNamed?_compoundAssign (op : BinaryOperator) :
    operatorNamed? ("Expr_AssignOp_" ++ op.name) = some (.inl op) := by
  cases op <;> rfl

@[simp] theorem operatorNamed?_unary (op : UnaryOperator) :
    operatorNamed? ("Expr_" ++ op.name) = some (.inr op) := by
  cases op <;> rfl

/-! ## Reading a tree back -/

/-- What a tree shows: a text, a node or a row of nodes. -/
inductive Shown where
  | text (text : String)
  | node (node : Node)
  | row (nodes : List Node)

/-- The node that is shown, unless it is missing. -/
def Shown.node? : Shown → Option Node
  | .node found => some found
  | _ => none

/-- The further condition of an `if` that a node is. -/
def Node.elseIf? : Node → Option (ElseIf Node)
  | ⟨line, .elseIf cond body⟩ => some ⟨line, cond, body⟩
  | _ => none

/-- The last part of an `if` that a node is. -/
def Node.otherwise? : Node → Option (Else Node)
  | ⟨line, .otherwise body⟩ => some ⟨line, body⟩
  | _ => none

/-- The parameter that a node is. -/
def Node.param? : Node → Option (Param Node)
  | ⟨line, .param name default⟩ => some ⟨line, name, default⟩
  | _ => none

/-- The array element that a node is. -/
def Node.arrayItem? : Node → Option (ArrayItem Node)
  | ⟨line, .arrayItem value key⟩ => some ⟨line, value, key⟩
  | _ => none

/-- A node with an operator, given what its parts show. -/
def Form.ofOperator : BinaryOperator ⊕ UnaryOperator → List (String × Shown) → Form Node
  | .inl op, [("left", .node left), ("right", .node right)] => .binary op left right
  | .inl op, [("target", .node target), ("expr", .node expr)] => .compoundAssign op target expr
  | .inr op, [("operand", .node operand)] => .unary op operand
  | _, _ => .bare

/-- A node without an operator, given its name and what its parts show. -/
def Form.ofName : String → List (String × Shown) → Form Node
  | "Stmt_Echo", [(_, .row exprs)] => .echo exprs
  | "Stmt_Nop", _ => .nop
  | "Stmt_Return", [(_, expr)] => .ret expr.node?
  | "Stmt_ElseIf", [(_, .node cond), (_, .row body)] => .elseIf cond body
  | "Stmt_Else", [(_, .row body)] => .otherwise body
  | "Stmt_If", [(_, .node cond), (_, .row body), (_, .row elseIfs), (_, last)] =>
    .conditional cond body (elseIfs.filterMap Node.elseIf?) (last.node?.bind Node.otherwise?)
  | "Stmt_Foreach", [(_, .node expr), (_, .text valueVar), (_, .row body), (_, .text keyVar)] =>
    .foreach expr valueVar body (if keyVar = "null" then none else some keyVar)
  | "Param", [(_, .text name), (_, default)] => .param name default.node?
  | "Stmt_Function", [(_, .text name), (_, .row params), (_, .row body)] =>
    .functionDecl name (params.filterMap Node.param?) body
  | "Expr_Include", [(_, .node path), (_, .text once), (_, .text fatal)] =>
    .require path (once = "true") (fatal = "true")
  | "Scalar_String", [(_, .text value)] => .str value
  | "Scalar_Int", [(_, .text value)] => .int (value.toInt?.getD 0)
  | "ArrayItem", [(_, .node value), (_, key)] => .arrayItem value key.node?
  | "Expr_Array", [(_, .row items)] => .arrayLiteral (items.filterMap Node.arrayItem?)
  | "Expr_Variable", [(_, .text name)] => .variable name
  | "Expr_ConstFetch", [(_, .text name)] => .constant name
  | "Expr_ArrayDimFetch", [(_, .node base), (_, dim)] => .index base dim.node?
  | "Expr_Assign", [(_, .node target), (_, .node expr)] => .assign target expr
  | "Arg", [(_, .node value)] => .arg value
  | "Expr_FuncCall", [(_, .text name), (_, .row args)] => .call name args
  | _, _ => .bare

/-- The kind of a node, given its name and what its parts show. -/
def Form.ofParts (name : String) (parts : List (String × Shown)) : Form Node :=
  match operatorNamed? name with
  | some op => .ofOperator op parts
  | none => .ofName name parts

mutual

/-- What a tree shows. -/
def Listing.read : Listing → Shown
  | .scalar text => .text text
  | .list items => .row (readItems items)
  | .node name parts => .node ⟨none, .ofParts name (readParts parts)⟩

/-- The nodes in a row of trees. -/
def readItems : List Listing → List Node
  | [] => []
  | item :: rest => item.read.node?.toList ++ readItems rest

/-- What the parts of a node show. -/
def readParts : List (String × Listing) → List (String × Shown)
  | [] => []
  | (label, part) :: rest => (label, part.read) :: readParts rest

end

section Reading

variable {ν : Type} {shown : ν → Listing} {back : ν → Node}

/-- A row of nodes is read back as the row of what its nodes are read as. -/
theorem readItems_map {nodes : List ν} (h : ∀ node ∈ nodes, (shown node).read = .node (back node)) :
    readItems (nodes.map shown) = nodes.map back := by
  induction nodes with
  | nil => rfl
  | cons node rest ih =>
    rw [List.forall_mem_cons] at h
    rw [List.map_cons, List.map_cons, readItems, h.1, ih h.2]
    rfl

theorem node?_read_ofOption {node : Option ν}
    (h : ∀ inner ∈ node.toList, (shown inner).read = .node (back inner)) :
    (Listing.ofOption (node.map shown)).read.node? = node.map back := by
  cases node with
  | none => rfl
  | some inner =>
    rw [Option.map_some, Option.map_some, Listing.ofOption, h inner (List.mem_singleton_self inner)]
    rfl

/-- The rows of clauses, parameters and array elements are rows of nodes of one kind. -/
theorem filterMap_readItems {α β : Type} {tree : α → Listing} {node : α → Node}
    {part? : Node → Option β} {part : α → β} {row : List α}
    (hread : ∀ a ∈ row, (tree a).read = .node (node a))
    (hpart : ∀ a, part? (node a) = some (part a)) :
    (readItems (row.map tree)).filterMap part? = row.map part := by
  rw [readItems_map hread, List.filterMap_map, ← List.filterMap_eq_map]
  exact congrArg (List.filterMap · row) (funext hpart)

theorem ElseIf.read_shownBy {clause : ElseIf ν}
    (h : ∀ node ∈ clause.cond :: clause.body, (shown node).read = .node (back node)) :
    (clause.shownBy shown).read =
      .node ⟨none, .elseIf (back clause.cond) (clause.body.map back)⟩ := by
  rw [List.forall_mem_cons] at h
  simp only [shownBy, Listing.read, readParts, h.1, readItems_map h.2]
  rfl

theorem Else.read_shownBy {clause : Else ν}
    (h : ∀ node ∈ clause.body, (shown node).read = .node (back node)) :
    (clause.shownBy shown).read = .node ⟨none, .otherwise (clause.body.map back)⟩ := by
  simp only [shownBy, Listing.read, readParts, readItems_map h]
  rfl

theorem Param.read_shownBy {param : Param ν}
    (h : ∀ node ∈ param.default.toList, (shown node).read = .node (back node)) :
    (param.shownBy shown).read = .node ⟨none, .param param.name (param.default.map back)⟩ := by
  rw [← node?_read_ofOption h]
  simp only [shownBy, Listing.read, readParts]
  rfl

theorem ArrayItem.read_shownBy {item : ArrayItem ν}
    (h : ∀ node ∈ item.value :: item.key.toList, (shown node).read = .node (back node)) :
    (item.shownBy shown).read = .node ⟨none, .arrayItem (back item.value) (item.key.map back)⟩ := by
  rw [List.forall_mem_cons] at h
  rw [← node?_read_ofOption h.2]
  simp only [shownBy, Listing.read, readParts, h.1]
  rfl

/-- A node is read back if the nodes directly inside it are. Its parts may be shown and read back in
    any way that agrees on these. -/
theorem Form.read_shownBy {form : Form ν} (hform : form.Listable)
    (h : ∀ child ∈ form.children, (shown child).read = .node (back child)) :
    (form.shownBy shown).read = .node ⟨none, form.map (fun _ => none) back⟩ := by
  cases form with
  | float => exact hform.elim
  | elseIf cond body => exact ElseIf.read_shownBy h
  | otherwise body => exact Else.read_shownBy h
  | param name default => exact Param.read_shownBy h
  | arrayItem value key => exact ArrayItem.read_shownBy h
  | nop | bare | str | «variable» | constant => rfl
  | echo nodes | call _ nodes =>
    simp only [shownBy, Listing.read, readParts, readItems_map (show ∀ node ∈ nodes, _ from h)]
    rfl
  | binary op first second | compoundAssign op first second | unary op first =>
    simp only [Form.children, List.forall_mem_cons] at h
    simp only [shownBy, Listing.read, readParts, h, ofParts, operatorNamed?_binary,
      operatorNamed?_compoundAssign, operatorNamed?_unary]
    rfl
  | assign first second | arg first =>
    simp only [Form.children, List.forall_mem_cons] at h
    simp only [shownBy, Listing.read, readParts, h]
    rfl
  | ret expr =>
    rw [Form.map, ← node?_read_ofOption (show ∀ node ∈ expr.toList, _ from h)]
    simp only [shownBy, Listing.read, readParts]
    rfl
  | index base dim =>
    obtain ⟨hbase, hdim⟩ := List.forall_mem_cons.mp h
    rw [Form.map, ← node?_read_ofOption hdim]
    simp only [shownBy, Listing.read, readParts, hbase]
    rfl
  | conditional cond body elseIfs last =>
    simp only [Form.children, List.forall_mem_append, List.forall_mem_cons] at h
    obtain ⟨⟨⟨hcond, hbody⟩, hclauses⟩, hlast⟩ := h
    have helseIfs : (readItems (elseIfs.map (ElseIf.shownBy shown))).filterMap Node.elseIf? =
        elseIfs.map (ElseIf.map (fun _ => none) back) :=
      filterMap_readItems (fun clause hclause =>
        ElseIf.read_shownBy (List.forall_mem_flatMap.mp hclauses clause hclause)) fun _ => rfl
    have helse :
        (Listing.ofOption (last.map (Else.shownBy shown))).read.node?.bind Node.otherwise? =
          last.map (Else.map (fun _ => none) back) := by
      cases last with
      | none => rfl
      | some clause =>
        rw [Option.map_some, Listing.ofOption, Else.read_shownBy hlast]
        rfl
    -- The clauses are read as nodes of their own kind, and then put into the node they belong to.
    rw [Form.map, ← helseIfs, ← helse]
    simp only [shownBy, Listing.read, readParts, hcond, readItems_map hbody]
    rfl
  | foreach expr valueVar body keyVar =>
    obtain ⟨hexpr, hbody⟩ := List.forall_mem_cons.mp h
    simp only [shownBy, Listing.read, readParts, hexpr, readItems_map hbody]
    cases keyVar with
    | none => rfl
    | some key =>
      -- The only place where a text and the mark for a missing part may be confused.
      have hkey : key ≠ "null" := (hform.2 key rfl).2
      show Shown.node ⟨none, .foreach _ _ _ (if key = "null" then none else some key)⟩ = _
      rw [if_neg hkey]
      rfl
  | functionDecl name params body =>
    obtain ⟨hdefaults, hbody⟩ := List.forall_mem_append.mp h
    have hparams : (readItems (params.map (Param.shownBy shown))).filterMap Node.param? =
        params.map (Param.map (fun _ => none) back) :=
      filterMap_readItems (fun param hparam =>
        Param.read_shownBy (List.forall_mem_flatMap.mp hdefaults param hparam)) fun _ => rfl
    rw [Form.map, ← hparams]
    simp only [shownBy, Listing.read, readParts, readItems_map hbody]
    rfl
  | arrayLiteral items =>
    have hitems : (readItems (items.map (ArrayItem.shownBy shown))).filterMap Node.arrayItem? =
        items.map (ArrayItem.map (fun _ => none) back) :=
      filterMap_readItems (fun item hitem =>
        ArrayItem.read_shownBy (List.forall_mem_flatMap.mp h item hitem)) fun _ => rfl
    rw [Form.map, ← hitems]
    simp only [shownBy, Listing.read, readParts]
    rfl
  | require path once fatal =>
    simp only [Form.children, List.forall_mem_cons] at h
    simp only [shownBy, Listing.read, readParts, h]
    cases once <;> cases fatal <;> rfl
  | int value =>
    have hvalue : (toString value).toInt? = some value := by
      rw [Int.toString_eq_repr, Int.toInt?_repr]
    have hform : Form.ofParts "Scalar_Int" [("value", .text (toString value))] =
        .int ((toString value).toInt?.getD 0) := rfl
    simp only [shownBy, Listing.read, readParts, hform, hvalue]
    rfl

end Reading

/-- A tree of nodes that show everything they are is read back as it is, apart from its lines. -/
theorem Node.read_listing {node : Node} (h : node.Listable) :
    node.listing.read = .node node.eraseLines := by
  induction node using Node.inductionOnChildren with
  | step node ih =>
    obtain ⟨line, form⟩ := node
    obtain ⟨hform, hchildren⟩ := Node.forall_inside_mk.mp h
    rw [Node.listing_eq, Node.eraseLines, Form.eraseLines_eq_map]
    exact Form.read_shownBy hform fun child hchild => ih child hchild (hchildren child hchild)

/-! ## The operator of a node -/

/-- The operator of a node, if it has one. -/
def Form.operator? {ν : Type} : Form ν → Option (BinaryOperator ⊕ UnaryOperator)
  | .binary op _ _ | .compoundAssign op _ _ => some (.inl op)
  | .unary op _ => some (.inr op)
  | _ => none

/-- The name of the node that a tree shows. -/
def Listing.name? : Listing → Option String
  | .node name _ => some name
  | _ => none

/-- The operator of a node is not one of the parts that are shown, but it is known from the name of
    the node. -/
theorem Node.operatorNamed?_name (node : Node) :
    node.listing.name?.bind operatorNamed? = node.form.operator? := by
  rw [Node.listing_eq]
  cases node.form with
  | binary op | compoundAssign op | unary op =>
    simp [Form.shownBy, Listing.name?, Form.operator?]
  | _ => rfl

/-! ## Listings -/

/-- What can be listed: one node, or a row of nodes such as a program. -/
inductive Listed where
  | single (node : Node)
  | row (nodes : List Node)

namespace Listed

/-- The tree that is shown. -/
def listing : Listed → Listing
  | .single node => node.listing
  | .row nodes => .list (listNodes nodes)

/-- The text of the listing; that of a row is the listing of a program. -/
def text (listed : Listed) : String := listed.listing.render

/-- What is listed, without its lines. -/
def eraseLines : Listed → Listed
  | .single node => .single node.eraseLines
  | .row nodes => .row (nodes.map Node.eraseLines)

/-- All nodes show everything they are, apart from their lines. -/
def Listable : Listed → Prop
  | .single node => node.Listable
  | .row nodes => ∀ node ∈ nodes, node.Listable

theorem listing_eraseLines (listed : Listed) : listed.eraseLines.listing = listed.listing := by
  cases listed with
  | single node => exact node.listing_eraseLines
  | row nodes =>
    rw [eraseLines, listing, listing, listNodes_eq_map, listNodes_eq_map, List.map_map]
    exact congrArg Listing.list (List.map_congr_left fun node _ => node.listing_eraseLines)

theorem legible_listing {listed : Listed} (h : listed.Listable) :
    listed.listing.Legible .tree := by
  cases listed with
  | single node => exact Node.legible_listing h
  | row nodes =>
    rw [listing, listNodes_eq_map]
    exact legible_list_map fun node hnode => Node.legible_listing (h node hnode)

/-- What a listing shows is a row or one node. -/
def shown : Listed → Shown
  | .single node => .node node
  | .row nodes => .row nodes

theorem shown_inj {first second : Listed} (h : first.shown = second.shown) : first = second := by
  cases first with
  | single node =>
    cases second with
    | single other => exact congrArg Listed.single (Shown.node.inj h)
    | row others => exact nomatch h
  | row nodes =>
    cases second with
    | single other => exact nomatch h
    | row others => exact congrArg Listed.row (Shown.row.inj h)

theorem read_listing {listed : Listed} (h : listed.Listable) :
    listed.listing.read = listed.eraseLines.shown := by
  cases listed with
  | single node => exact Node.read_listing h
  | row nodes =>
    rw [listing, listNodes_eq_map, Listing.read,
      readItems_map fun node hnode => Node.read_listing (h node hnode)]
    rfl

end Listed

/-- A listing loses nothing but lines. As long as there are no floats, all texts keep to one line
    and no key variable has the name `null`, two nodes or rows of nodes have the same listing if and
    only if they are the same apart from their lines. The operator of a node is not among its parts,
    but the name of the node tells it, whatever the node. -/
theorem listing_loses_only_lines (first second : Listed) (hfirst : first.Listable)
    (hsecond : second.Listable) :
    (first.text = second.text ↔ first.eraseLines = second.eraseLines) ∧
      ∀ node : Node, node.listing.name?.bind operatorNamed? = node.form.operator? := by
  refine ⟨⟨fun htext => ?_, fun hlines => ?_⟩, Node.operatorNamed?_name⟩
  · have htree : first.listing = second.listing :=
      (Listed.legible_listing hfirst).render_inj (Listed.legible_listing hsecond) htext
    apply Listed.shown_inj
    rw [← Listed.read_listing hfirst, htree, Listed.read_listing hsecond]
  · rw [Listed.text, Listed.text, ← first.listing_eraseLines, hlines, second.listing_eraseLines]

/-- Texts that look like lines of a listing do not hide what the tree is. -/
theorem listing_loses_only_lines_lookalikes :
    let program (line : Int) (op : BinaryOperator) (key : Option String) : Listed :=
      .row [⟨some line, .foreach ⟨some line, .variable "null"⟩ "array(" [⟨none, .nop⟩] key⟩,
        ⟨some (line + 1), .echo [⟨none, .binary op ⟨none, .str ")"⟩ ⟨none, .int (-1)⟩⟩]⟩]
    (program 1 .concat none).Listable ∧ (program 7 .concat none).Listable ∧
      (program 1 .plus none).Listable ∧ (program 1 .concat (some "nul")).Listable ∧
      (program 1 .concat none).text = (program 7 .concat none).text ∧
      (program 1 .concat none).text ≠ (program 1 .plus none).text ∧
      (program 1 .concat none).text ≠ (program 1 .concat (some "nul")).text := by
  intro program
  have hlistable : ∀ line op, ∀ key ∈ [none, some "nul"], (program line op key).Listable := by
    simp +decide [program, Listed.Listable, Node.Listable, Node.forall_inside_mk, Form.children,
      Form.Listable]
  have hplain := hlistable 1 .concat none (by simp)
  have hmoved := hlistable 7 .concat none (by simp)
  have hplus := hlistable 1 .plus none (by simp)
  have hkey := hlistable 1 .concat (some "nul") (by simp)
  refine ⟨hplain, hmoved, hplus, hkey, ?_, ?_, ?_⟩
  · exact (listing_loses_only_lines _ _ hplain hmoved).1.mpr rfl
  · intro h
    have hlines := (listing_loses_only_lines _ _ hplain hplus).1.mp h
    simp [program, Listed.eraseLines, eraseLinesList] at hlines
  · intro h
    have hlines := (listing_loses_only_lines _ _ hplain hkey).1.mp h
    simp [program, Listed.eraseLines] at hlines

/-- A key variable named as a missing one is shown would be lost. -/
example (expr : Node) (body : List Node) :
    (Listed.single ⟨none, .foreach expr "v" body (some "null")⟩).text =
      (Listed.single ⟨none, .foreach expr "v" body none⟩).text := rfl

end WebScript
