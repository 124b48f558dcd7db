import WebScript.Eval.Node
import WebScript.Proofs.NodeTree
import WebScript.Source.Program

/-!
# The shape of programs

Not every tree of nodes is a program: a `return` may not stand where a value is needed, and only a
variable or an element of one can be assigned to. `Form.placed` says what each node directly inside
another is there for, and a tree is `Node.Shaped` if all its nodes fit their roles. Where elements
written `[]` may stand depends on more than the node around them; `Node.Occurs` keeps track of that.
-/

namespace WebScript

/-! ## Roles -/

/-- What a node directly inside another is there for. -/
inductive Role where
  /-- Its value is used. -/
  | operand
  /-- It is assigned to. -/
  | target
  | argument
  | statement
  deriving DecidableEq, Repr

namespace Form

variable {ν : Type}

/-- Whether nodes of this kind are expressions. -/
def isExpression : Form ν → Bool
  | .str _ | .int _ | .float _ | .arrayLiteral _ | .binary .. | .unary .. | .variable _
  | .constant _ | .index .. | .assign .. | .compoundAssign .. | .call .. | .require .. => true
  | _ => false

/-- Whether nodes of this kind are statements; an expression can be one. -/
def isStatement : Form ν → Bool
  | .echo _ | .nop | .ret _ | .conditional .. | .foreach .. | .functionDecl .. => true
  | form => form.isExpression

/-- Whether nodes of this kind are arguments of calls. -/
def isArgument : Form ν → Bool
  | .arg _ => true
  | _ => false

/-- The nodes of the further conditions of an `if`, with their roles. -/
def placedElseIfs (elseIfs : List (ElseIf ν)) : List (Role × ν) :=
  elseIfs.flatMap fun clause => (.operand, clause.cond) :: clause.body.map (Prod.mk .statement)

/-- The nodes directly inside a node of the given kind, with their roles. -/
def placed : Form ν → List (Role × ν)
  | .echo exprs => exprs.map (Prod.mk .operand)
  | .ret expr => expr.toList.map (Prod.mk .operand)
  | .elseIf cond body => (.operand, cond) :: body.map (Prod.mk .statement)
  | .otherwise body => body.map (Prod.mk .statement)
  | .conditional cond body elseIfs last =>
    (.operand, cond) :: body.map (Prod.mk .statement) ++ placedElseIfs elseIfs ++
      (otherwiseNodes last).map (Prod.mk .statement)
  | .foreach expr _ body _ => (.operand, expr) :: body.map (Prod.mk .statement)
  | .param _ default => default.toList.map (Prod.mk .operand)
  | .functionDecl _ params body =>
    (paramNodes params).map (Prod.mk .operand) ++ body.map (Prod.mk .statement)
  | .require path _ _ => [(.operand, path)]
  | .arrayItem value key => (.operand, value) :: key.toList.map (Prod.mk .operand)
  | .arrayLiteral items => (itemNodes items).map (Prod.mk .operand)
  | .binary _ left right => [(.operand, left), (.operand, right)]
  | .unary _ operand => [(.operand, operand)]
  | .index base dim => (.operand, base) :: dim.toList.map (Prod.mk .operand)
  | .assign target expr => [(.target, target), (.operand, expr)]
  | .compoundAssign _ target expr => [(.target, target), (.operand, expr)]
  | .arg value => [(.operand, value)]
  | .call _ args => args.map (Prod.mk .argument)
  | .nop | .str _ | .int _ | .float _ | .variable _ | .constant _ | .bare => []

theorem map_snd_placedElseIfs (elseIfs : List (ElseIf ν)) :
    (placedElseIfs elseIfs).map Prod.snd = elseIfNodes elseIfs := by
  simp [placedElseIfs, elseIfNodes, List.map_flatMap, Function.comp_def]

/-- Every node directly inside another has one role there. -/
theorem map_snd_placed (form : Form ν) : form.placed.map Prod.snd = form.children := by
  cases form <;> simp [placed, children, Function.comp_def, map_snd_placedElseIfs]

/-- What holds of the nodes that a node places holds of the nodes directly inside it. -/
theorem forall_placed {form : Form ν} {P : ν → Prop} :
    (∀ entry ∈ form.placed, P entry.2) ↔ ∀ child ∈ form.children, P child := by
  rw [← map_snd_placed, List.forall_mem_map]

end Form

/-- Whether a node can play a role. -/
def Node.fits (node : Node) : Role → Bool
  | .operand => node.form.isExpression
  | .target => node.isTarget
  | .argument => node.form.isArgument
  | .statement => node.form.isStatement

theorem Form.isStatement_of_isExpression {ν : Type} {form : Form ν} (h : form.isExpression = true) :
    form.isStatement = true := by
  cases form <;> simp_all [Form.isExpression, Form.isStatement]

/-- What can be assigned to is what has a variable at its root. -/
theorem Node.isTarget_iff_root? (node : Node) : node.isTarget = true ↔ node.root?.isSome = true := by
  induction node using Node.isTarget.induct with
  | case1 line name => simp [Node.isTarget, Node.root?]
  | case2 line base dim ih => simpa [Node.isTarget, Node.root?] using ih
  | case3 node hvariable hindex =>
    rw [Node.isTarget, Node.root?]
    · simp
    all_goals assumption

/-! ## Shapes -/

/-- All nodes directly inside a node of this kind fit their roles. -/
def Form.WellPlaced (form : Form Node) : Prop :=
  ∀ role child, (role, child) ∈ form.placed → child.fits role = true

/-- All nodes of a tree fit their roles. -/
def Node.Shaped (node : Node) : Prop := ∀ inner : Node, inner.Inside node → inner.form.WellPlaced

/-- The node fits a role, and so do the nodes inside it. -/
structure Node.ShapedAs (role : Role) (node : Node) : Prop where
  fits : node.fits role = true
  shaped : node.Shaped

theorem Node.Shaped.child {node child : Node} (h : node.Shaped) (hchild : child ∈ node.children) :
    child.Shaped :=
  fun inner hinner => h inner (hinner.of_child hchild)

/-- A tree is well shaped if the nodes directly inside it are, each in its role. -/
theorem Node.shaped_mk {line : Option Int} {form : Form Node} :
    Node.Shaped ⟨line, form⟩ ↔ ∀ entry ∈ form.placed, entry.2.ShapedAs entry.1 := by
  have hmk : Node.Shaped ⟨line, form⟩ ↔
      form.WellPlaced ∧ ∀ entry ∈ form.placed, entry.2.Shaped := by
    rw [Form.forall_placed]
    exact Node.forall_inside_mk
  rw [hmk]
  constructor
  · rintro ⟨hplaced, hshaped⟩ entry hentry
    exact ⟨hplaced entry.1 entry.2 hentry, hshaped entry hentry⟩
  · intro h
    exact ⟨fun role child hplaced => (h (role, child) hplaced).fits,
      fun entry hentry => (h entry hentry).shaped⟩

/-- A tree is shaped for a role if it fits the role and its parts are shaped for theirs. -/
theorem Node.shapedAs_mk {role : Role} {line : Option Int} {form : Form Node} :
    Node.ShapedAs role ⟨line, form⟩ ↔ Node.fits ⟨line, form⟩ role = true ∧
      ∀ entry ∈ form.placed, entry.2.ShapedAs entry.1 := by
  rw [← @Node.shaped_mk line form]
  exact ⟨fun h => ⟨h.fits, h.shaped⟩, fun h => ⟨h.1, h.2⟩⟩

/-! ## Integers -/

/-- The integer of a node of this kind, if it is one, fits in 64 bits. -/
def Form.literalFits {ν : Type} : Form ν → Bool
  | .int n => decide (FitsInt n)
  | _ => true

/-- All integers in a tree fit in 64 bits. -/
def Node.LiteralsFit (node : Node) : Prop :=
  ∀ inner : Node, inner.Inside node → inner.form.literalFits = true

theorem Node.LiteralsFit.child {node child : Node} (h : node.LiteralsFit)
    (hchild : child ∈ node.children) : child.LiteralsFit :=
  fun inner hinner => h inner (hinner.of_child hchild)

/-- Literals fit in a tree if its own does and they do in the nodes directly inside it. -/
theorem Node.literalsFit_mk {line : Option Int} {form : Form Node} :
    Node.LiteralsFit ⟨line, form⟩ ↔
      form.literalFits = true ∧ ∀ entry ∈ form.placed, entry.2.LiteralsFit := by
  rw [Form.forall_placed]
  exact Node.forall_inside_mk

/-! ## Lines -/

/-- The lines of the parts of a node that are no nodes themselves. -/
def Form.partLines {ν : Type} : Form ν → List (Option Int)
  | .conditional _ _ elseIfs last => elseIfs.map ElseIf.line ++ last.toList.map Else.line
  | .functionDecl _ params _ => params.map Param.line
  | .arrayLiteral items => items.map ArrayItem.line
  | _ => []

/-- A node has a line, and so have those of its parts that are no nodes themselves. -/
def Node.hasLines (node : Node) : Bool := (node.line :: node.form.partLines).all Option.isSome

/-- All nodes of a tree have lines, and so have their parts. -/
def Node.Lined (node : Node) : Prop := ∀ inner : Node, inner.Inside node → inner.hasLines = true

theorem Node.Lined.line {node : Node} (h : node.Lined) : node.line.isSome = true :=
  List.all_eq_true.mp (h node (.refl _)) _ List.mem_cons_self

theorem Node.Lined.inside {inner node : Node} (h : node.Lined) (hinner : inner.Inside node) :
    inner.Lined :=
  fun innermost hinnermost => h innermost (hinner.trans hinnermost)

/-- A tree has its lines if its own parts and the nodes directly inside it have them. -/
theorem Node.lined_mk {line : Option Int} {form : Form Node} :
    Node.Lined ⟨line, form⟩ ↔
      Node.hasLines ⟨line, form⟩ = true ∧ ∀ entry ∈ form.placed, entry.2.Lined := by
  rw [Form.forall_placed]
  exact Node.forall_inside_mk

/-! ## Elements without an index -/

/-- A node inside another. It may stand on the spine of the target of an assignment, which leads
    from the element that is assigned to down to its variable. -/
structure Spot where
  onSpine : Bool
  node : Node

/-- The nodes directly inside a node, which may stand on a spine. -/
def Spot.below : Spot → List Spot
  | ⟨true, ⟨_, .index base dim⟩⟩ => ⟨true, base⟩ :: dim.toList.map (Spot.mk false)
  | ⟨_, ⟨_, .assign target expr⟩⟩ => [⟨true, target⟩, ⟨false, expr⟩]
  | ⟨_, node⟩ => node.children.map (Spot.mk false)

/-- Every node directly inside another stands at one spot there. -/
theorem Spot.map_node_below (spot : Spot) : spot.below.map Spot.node = spot.node.children := by
  obtain ⟨onSpine, line, form⟩ := spot
  cases form <;> cases onSpine <;> simp [Spot.below, Node.children, Form.children, Function.comp_def]

/-- The second spot is the first one or lies at some depth below it. -/
def Spot.LeadsTo : Spot → Spot → Prop :=
  Relation.ReflTransGen fun above spot => spot ∈ above.below

/-- A node occurs at a spot inside another. -/
def Node.Occurs (spot : Spot) (outer : Node) : Prop := Spot.LeadsTo ⟨false, outer⟩ spot

/-- Below a spot, elements are only written `[]` on the spines of targets. -/
def Spot.AppendsOnSpines (spot : Spot) : Prop :=
  ∀ below : Spot, spot.LeadsTo below → ∀ base, below.node.form = .index base none →
    below.onSpine = true

/-- Elements without an index stand on spines only if this is so here and at the spots below. -/
theorem Spot.appendsOnSpines_iff {spot : Spot} :
    spot.AppendsOnSpines ↔ (∀ base, spot.node.form = .index base none → spot.onSpine = true) ∧
      ∀ below ∈ spot.below, below.AppendsOnSpines := by
  constructor
  · intro h
    exact ⟨h spot .refl, fun below hbelow inner hinner => h inner (.head hbelow hinner)⟩
  · rintro ⟨hspot, hbelow⟩ inner hinner
    rcases Relation.ReflTransGen.cases_head hinner with rfl | ⟨below, hmem, hinner⟩
    · exact hspot
    · exact hbelow below hmem inner hinner

theorem appendReadList?_eq_none_iff {nodes : List Node} :
    appendReadList? nodes = none ↔ ∀ node ∈ nodes, node.appendRead? false = none := by
  induction nodes with
  | nil => simp [appendReadList?]
  | cons node rest ih => simp [appendReadList?, ih]

theorem appendReadOption?_eq_none_iff {found : Option Node} :
    appendReadOption? found = none ↔ ∀ node ∈ found.toList, node.appendRead? false = none := by
  cases found <;> simp [appendReadOption?]

theorem appendReadElseIfs?_eq_none_iff {elseIfs : List (ElseIf Node)} :
    appendReadElseIfs? elseIfs = none ↔
      ∀ node ∈ Form.elseIfNodes elseIfs, node.appendRead? false = none := by
  induction elseIfs with
  | nil => simp [appendReadElseIfs?, Form.elseIfNodes]
  | cons clause rest ih =>
    simp only [appendReadElseIfs?, Option.or_eq_none_iff, appendReadList?_eq_none_iff, ih,
      Form.elseIfNodes, List.flatMap_cons, List.forall_mem_append, List.forall_mem_cons, and_assoc]

theorem appendReadParams?_eq_none_iff {params : List (Param Node)} :
    appendReadParams? params = none ↔
      ∀ node ∈ Form.paramNodes params, node.appendRead? false = none := by
  induction params with
  | nil => simp [appendReadParams?, Form.paramNodes]
  | cons param rest ih =>
    simp only [appendReadParams?, Option.or_eq_none_iff, appendReadOption?_eq_none_iff, ih,
      Form.paramNodes, List.flatMap_cons, List.forall_mem_append]

/-- Nothing is read without an index in array items if it is not in their keys and values. -/
theorem appendReadItems?_eq_none_iff {items : List (ArrayItem Node)} :
    appendReadItems? items = none ↔
      ∀ node ∈ Form.itemNodes items, node.appendRead? false = none := by
  induction items with
  | nil => simp [appendReadItems?, Form.itemNodes]
  | cons item rest ih =>
    simp only [appendReadItems?, Option.or_eq_none_iff, appendReadOption?_eq_none_iff, ih,
      Form.itemNodes, List.flatMap_cons, List.forall_mem_append, List.forall_mem_cons, and_assoc]

/-- Looking for elements written `[]` looks at a node and at the spots below it. -/
theorem Spot.appendRead?_eq_none_iff (spot : Spot) :
    spot.node.appendRead? spot.onSpine = none ↔
      (∀ base, spot.node.form = .index base none → spot.onSpine = true) ∧
        ∀ below ∈ spot.below, below.node.appendRead? below.onSpine = none := by
  obtain ⟨onSpine, line, form⟩ := spot
  cases form with
  | index base dim =>
    cases dim <;> cases onSpine <;>
      simp [Node.appendRead?, Spot.below, Node.children, Form.children]
  | conditional cond body elseIfs last =>
    cases last <;>
      simp [Node.appendRead?, Spot.below, Node.children, Form.children, or_imp, forall_and,
        appendReadList?_eq_none_iff, appendReadElseIfs?_eq_none_iff, Form.otherwiseNodes]
  | _ =>
    simp [Node.appendRead?, Spot.below, Node.children, Form.children, or_imp, forall_and,
      appendReadList?_eq_none_iff, appendReadOption?_eq_none_iff, appendReadParams?_eq_none_iff,
      appendReadItems?_eq_none_iff]

/-- Nothing is found just where all elements written `[]` stand on spines. -/
theorem Spot.appendRead?_eq_none_iff_appendsOnSpines (spot : Spot) :
    spot.node.appendRead? spot.onSpine = none ↔ spot.AppendsOnSpines := by
  obtain ⟨onSpine, node⟩ := spot
  induction node using Node.inductionOnChildren generalizing onSpine with
  | step node ih =>
    have hbelow : ∀ below ∈ (Spot.mk onSpine node).below,
        below.node.appendRead? below.onSpine = none ↔ below.AppendsOnSpines := by
      intro below hmem
      have hchild : below.node ∈ node.children := by
        rw [← Spot.map_node_below ⟨onSpine, node⟩]
        exact List.mem_map_of_mem hmem
      exact ih below.node hchild below.onSpine
    rw [Spot.appendRead?_eq_none_iff, Spot.appendsOnSpines_iff]
    exact and_congr_right fun _ => forall₂_congr hbelow

end WebScript
