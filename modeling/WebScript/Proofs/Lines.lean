import Mathlib.Data.List.Forall2
import WebScript.Proofs.ParsedShape
import WebScript.Proofs.RoundTrip

/-!
# Programs further down in a text

Reading does not look at lines, it only copies them. `Node.shiftLines` moves a tree down by a number
of lines, and so does a `shiftLines` for each part of what is being read. One token moved down does
the same to an expression moved down, up to the move (`ExprState.step_shiftLines`).

A program may also stand inside another one: a `Site` says where, and `Site.place` puts a program
that is being read there. Tokens that continue the program by itself continue it at every site
(`Site.foldlM_place`).
-/

namespace WebScript

/-! ## Mapping over the parts of a node -/

section Map

variable {ν μ ξ : Type}

/-- A further condition of an `if` with its line and nodes replaced. -/
def ElseIf.map (line : Option Int → Option Int) (f : ν → μ) (clause : ElseIf ν) : ElseIf μ :=
  ⟨line clause.line, f clause.cond, clause.body.map f⟩

/-- The last part of an `if` with its line and nodes replaced. -/
def Else.map (line : Option Int → Option Int) (f : ν → μ) (clause : Else ν) : Else μ :=
  ⟨line clause.line, clause.body.map f⟩

/-- A parameter with its line and nodes replaced. -/
def Param.map (line : Option Int → Option Int) (f : ν → μ) (param : Param ν) : Param μ :=
  ⟨line param.line, param.name, param.default.map f⟩

/-- An array element with its line and nodes replaced. -/
def ArrayItem.map (line : Option Int → Option Int) (f : ν → μ) (item : ArrayItem ν) :
    ArrayItem μ :=
  ⟨line item.line, f item.value, item.key.map f⟩

/-- A kind of node with the nodes directly inside it, and the lines of its other parts, replaced. -/
@[simp] def Form.map (line : Option Int → Option Int) (f : ν → μ) : Form ν → Form μ
  | .echo exprs => .echo (exprs.map f)
  | .nop => .nop
  | .ret expr => .ret (expr.map f)
  | .elseIf cond body => .elseIf (f cond) (body.map f)
  | .otherwise body => .otherwise (body.map f)
  | .conditional cond body elseIfs last =>
    .conditional (f cond) (body.map f) (elseIfs.map (ElseIf.map line f))
      (last.map (Else.map line f))
  | .foreach expr valueVar body keyVar => .foreach (f expr) valueVar (body.map f) keyVar
  | .param name default => .param name (default.map f)
  | .functionDecl name params body =>
    .functionDecl name (params.map (Param.map line f)) (body.map f)
  | .require path once fatal => .require (f path) once fatal
  | .str value => .str value
  | .int value => .int value
  | .float value => .float value
  | .arrayItem value key => .arrayItem (f value) (key.map f)
  | .arrayLiteral items => .arrayLiteral (items.map (ArrayItem.map line f))
  | .binary op left right => .binary op (f left) (f right)
  | .unary op operand => .unary op (f operand)
  | .variable name => .variable name
  | .constant name => .constant name
  | .index base dim => .index (f base) (dim.map f)
  | .assign target expr => .assign (f target) (f expr)
  | .compoundAssign op target expr => .compoundAssign op (f target) (f expr)
  | .arg value => .arg (f value)
  | .call name args => .call name (args.map f)
  | .bare => .bare

/-- Replacing lines and nodes twice is replacing them once by what both make of them. -/
theorem Form.map_map (line more : Option Int → Option Int) (f : ν → μ) (g : μ → ξ) (form : Form ν) :
    (form.map line f).map more g = form.map (more ∘ line) (g ∘ f) := by
  have helse : Else.map more g ∘ Else.map line f = Else.map (more ∘ line) (g ∘ f) := by
    funext clause
    simp [Else.map]
  cases form <;> simp [ElseIf.map, Param.map, ArrayItem.map, helse]

theorem Form.map_id (form : Form ν) : form.map id id = form := by
  have hclauses : (ElseIf.map id id : ElseIf ν → ElseIf ν) = id := by
    funext clause
    simp [ElseIf.map]
  have hlast : (Else.map id id : Else ν → Else ν) = id := by
    funext clause
    simp [Else.map]
  have hparams : (Param.map id id : Param ν → Param ν) = id := by
    funext param
    simp [Param.map]
  have hitems : (ArrayItem.map id id : ArrayItem ν → ArrayItem ν) = id := by
    funext item
    simp [ArrayItem.map]
  cases form <;> simp [hclauses, hlast, hparams, hitems]

section Congruence

variable {line : Option Int → Option Int} {f g : ν → μ}

theorem ElseIf.map_congr {elseIfs : List (ElseIf ν)}
    (h : ∀ child ∈ Form.elseIfNodes elseIfs, f child = g child) :
    elseIfs.map (ElseIf.map line f) = elseIfs.map (ElseIf.map line g) := by
  refine List.map_congr_left fun clause hclause => ?_
  have hnodes : ∀ node ∈ clause.cond :: clause.body, f node = g node := fun node hnode =>
    h node (List.mem_flatMap.mpr ⟨clause, hclause, hnode⟩)
  rw [List.forall_mem_cons] at hnodes
  rw [ElseIf.map, ElseIf.map, hnodes.1, List.map_congr_left hnodes.2]

theorem Else.map_congr {last : Option (Else ν)}
    (h : ∀ child ∈ Form.otherwiseNodes last, f child = g child) :
    last.map (Else.map line f) = last.map (Else.map line g) := by
  cases last with
  | none => rfl
  | some clause =>
    have hbody : clause.body.map f = clause.body.map g := List.map_congr_left h
    rw [Option.map_some, Option.map_some, Else.map, Else.map, hbody]

theorem Param.map_congr {params : List (Param ν)}
    (h : ∀ child ∈ Form.paramNodes params, f child = g child) :
    params.map (Param.map line f) = params.map (Param.map line g) := by
  refine List.map_congr_left fun param hparam => ?_
  rw [Param.map, Param.map,
    Option.map_congr fun node hnode => h node (Form.mem_paramNodes hparam hnode)]

theorem ArrayItem.map_congr {items : List (ArrayItem ν)}
    (h : ∀ child ∈ Form.itemNodes items, f child = g child) :
    items.map (ArrayItem.map line f) = items.map (ArrayItem.map line g) := by
  refine List.map_congr_left fun item hitem => ?_
  have hnodes : ∀ node ∈ item.value :: item.key.toList, f node = g node := fun node hnode =>
    h node (List.mem_flatMap.mpr ⟨item, hitem, hnode⟩)
  rw [List.forall_mem_cons] at hnodes
  rw [ArrayItem.map, ArrayItem.map, hnodes.1,
    Option.map_congr fun node hnode => hnodes.2 node (Option.mem_toList.mpr hnode)]

/-- What a node becomes depends only on what becomes of the nodes directly inside it. -/
theorem Form.map_congr {form : Form ν} (h : ∀ child ∈ form.children, f child = g child) :
    form.map line f = form.map line g := by
  cases form with
  | conditional cond body elseIfs last =>
    simp only [Form.children, List.forall_mem_append, List.forall_mem_cons] at h
    obtain ⟨⟨⟨hcond, hbody⟩, hclauses⟩, hlast⟩ := h
    rw [Form.map, Form.map, hcond, List.map_congr_left hbody, ElseIf.map_congr hclauses,
      Else.map_congr hlast]
  | functionDecl name params body =>
    obtain ⟨hparams, hbody⟩ := List.forall_mem_append.mp h
    rw [Form.map, Form.map, Param.map_congr hparams, List.map_congr_left hbody]
  | arrayLiteral items => rw [Form.map, Form.map, ArrayItem.map_congr h]
  | ret found | param _ found =>
    simp only [Form.map, Option.map_congr fun node hnode => h node (Option.mem_toList.mpr hnode)]
  | arrayItem first second | index first second =>
    obtain ⟨hfirst, hsecond⟩ := List.forall_mem_cons.mp h
    simp only [Form.map, hfirst,
      Option.map_congr fun node hnode => hsecond node (Option.mem_toList.mpr hnode)]
  | echo nodes | otherwise nodes | call _ nodes =>
    simp only [Form.map, List.map_congr_left (show ∀ node ∈ nodes, f node = g node from h)]
  | elseIf first body | foreach first _ body _ =>
    obtain ⟨hfirst, hbody⟩ := List.forall_mem_cons.mp h
    simp only [Form.map, hfirst, List.map_congr_left hbody]
  | require _ | unary _ _ | arg _ | binary _ _ _ | assign _ _ | compoundAssign _ _ _ =>
    simp only [Form.children, List.forall_mem_cons] at h
    simp only [Form.map, h]
  | nop | str | int | float | «variable» | constant | bare => rfl

end Congruence

end Map

/-! ## Trees -/

/-- A line, `k` lines further down. -/
def shiftLine (k : Nat) (line : Option Int) : Option Int := line.map (· + (k : Int))

@[simp] theorem shiftLine_natCast (k line : Nat) :
    shiftLine k (some (line : Int)) = some ((line + k : Nat) : Int) := by
  simp [shiftLine]

mutual

/-- A tree, `k` lines further down. -/
def Node.shiftLines (k : Nat) : Node → Node
  | ⟨line, form⟩ => ⟨shiftLine k line, form.shiftLines k⟩

/-- The parts of a node, `k` lines further down. -/
def Form.shiftLines (k : Nat) : Form Node → Form Node
  | .echo exprs => .echo (shiftLinesList k exprs)
  | .nop => .nop
  | .ret expr => .ret (shiftLinesOption k expr)
  | .elseIf cond body => .elseIf (cond.shiftLines k) (shiftLinesList k body)
  | .otherwise body => .otherwise (shiftLinesList k body)
  | .conditional cond body elseIfs otherwise =>
    .conditional (cond.shiftLines k) (shiftLinesList k body) (shiftLinesElseIfs k elseIfs)
      (shiftLinesElse k otherwise)
  | .foreach expr valueVar body keyVar =>
    .foreach (expr.shiftLines k) valueVar (shiftLinesList k body) keyVar
  | .param name default => .param name (shiftLinesOption k default)
  | .functionDecl name params body =>
    .functionDecl name (shiftLinesParams k params) (shiftLinesList k body)
  | .require path once fatal => .require (path.shiftLines k) once fatal
  | .str value => .str value
  | .int value => .int value
  | .float value => .float value
  | .arrayItem value key => .arrayItem (value.shiftLines k) (shiftLinesOption k key)
  | .arrayLiteral items => .arrayLiteral (shiftLinesItems k items)
  | .binary op left right => .binary op (left.shiftLines k) (right.shiftLines k)
  | .unary op operand => .unary op (operand.shiftLines k)
  | .variable name => .variable name
  | .constant name => .constant name
  | .index base dim => .index (base.shiftLines k) (shiftLinesOption k dim)
  | .assign target expr => .assign (target.shiftLines k) (expr.shiftLines k)
  | .compoundAssign op target expr =>
    .compoundAssign op (target.shiftLines k) (expr.shiftLines k)
  | .arg value => .arg (value.shiftLines k)
  | .call name args => .call name (shiftLinesList k args)
  | .bare => .bare

/-- Nodes, `k` lines further down. -/
def shiftLinesList (k : Nat) : List Node → List Node
  | [] => []
  | node :: rest => node.shiftLines k :: shiftLinesList k rest

/-- A node that may be missing, `k` lines further down. -/
def shiftLinesOption (k : Nat) : Option Node → Option Node
  | none => none
  | some node => some (node.shiftLines k)

/-- The further conditions of an `if`, `k` lines further down. -/
def shiftLinesElseIfs (k : Nat) : List (ElseIf Node) → List (ElseIf Node)
  | [] => []
  | ⟨line, cond, body⟩ :: rest =>
    ⟨shiftLine k line, cond.shiftLines k, shiftLinesList k body⟩ :: shiftLinesElseIfs k rest

/-- The last part of an `if`, `k` lines further down. -/
def shiftLinesElse (k : Nat) : Option (Else Node) → Option (Else Node)
  | none => none
  | some ⟨line, body⟩ => some ⟨shiftLine k line, shiftLinesList k body⟩

/-- Parameters, `k` lines further down. -/
def shiftLinesParams (k : Nat) : List (Param Node) → List (Param Node)
  | [] => []
  | ⟨line, name, default⟩ :: rest =>
    ⟨shiftLine k line, name, shiftLinesOption k default⟩ :: shiftLinesParams k rest

/-- Array elements, `k` lines further down. -/
def shiftLinesItems (k : Nat) : List (ArrayItem Node) → List (ArrayItem Node)
  | [] => []
  | ⟨line, value, key⟩ :: rest =>
    ⟨shiftLine k line, value.shiftLines k, shiftLinesOption k key⟩ :: shiftLinesItems k rest

end


section Rows

variable (k : Nat)

theorem shiftLinesList_eq_map (nodes : List Node) :
    shiftLinesList k nodes = nodes.map (Node.shiftLines k) := by
  induction nodes with
  | nil => rfl
  | cons node rest ih => rw [shiftLinesList, ih, List.map_cons]

theorem shiftLinesOption_eq_map (node : Option Node) :
    shiftLinesOption k node = node.map (Node.shiftLines k) := by
  cases node <;> rfl

theorem shiftLinesElseIfs_eq_map (elseIfs : List (ElseIf Node)) :
    shiftLinesElseIfs k elseIfs = elseIfs.map (ElseIf.map (shiftLine k) (Node.shiftLines k)) := by
  induction elseIfs with
  | nil => rfl
  | cons clause rest ih =>
    rw [shiftLinesElseIfs, ih, List.map_cons, ElseIf.map, shiftLinesList_eq_map]

theorem shiftLinesElse_eq_map (last : Option (Else Node)) :
    shiftLinesElse k last = last.map (Else.map (shiftLine k) (Node.shiftLines k)) := by
  cases last with
  | none => rfl
  | some clause => rw [shiftLinesElse, Option.map_some, Else.map, shiftLinesList_eq_map]

theorem shiftLinesParams_eq_map (params : List (Param Node)) :
    shiftLinesParams k params = params.map (Param.map (shiftLine k) (Node.shiftLines k)) := by
  induction params with
  | nil => rfl
  | cons param rest ih =>
    rw [shiftLinesParams, ih, List.map_cons, Param.map, shiftLinesOption_eq_map]

theorem shiftLinesItems_eq_map (items : List (ArrayItem Node)) :
    shiftLinesItems k items = items.map (ArrayItem.map (shiftLine k) (Node.shiftLines k)) := by
  induction items with
  | nil => rfl
  | cons item rest ih =>
    rw [shiftLinesItems, ih, List.map_cons, ArrayItem.map, shiftLinesOption_eq_map]

/-- Moving a node down replaces its line and moves the nodes inside it. -/
theorem Form.shiftLines_eq_map (form : Form Node) :
    form.shiftLines k = form.map (shiftLine k) (Node.shiftLines k) := by
  cases form <;>
    simp only [Form.shiftLines, Form.map, shiftLinesList_eq_map, shiftLinesOption_eq_map,
      shiftLinesElseIfs_eq_map, shiftLinesElse_eq_map, shiftLinesParams_eq_map,
      shiftLinesItems_eq_map]

@[simp] theorem Node.shiftLines_mk (line : Option Int) (form : Form Node) :
    (Node.mk line form).shiftLines k =
      ⟨shiftLine k line, form.map (shiftLine k) (Node.shiftLines k)⟩ := by
  rw [Node.shiftLines, Form.shiftLines_eq_map]

@[simp] theorem Node.line_shiftLines (node : Node) :
    (node.shiftLines k).line = shiftLine k node.line := by
  obtain ⟨line, form⟩ := node
  rw [Node.shiftLines]

@[simp] theorem Node.form_shiftLines (node : Node) :
    (node.shiftLines k).form = node.form.map (shiftLine k) (Node.shiftLines k) := by
  obtain ⟨line, form⟩ := node
  rw [Node.shiftLines_mk]

end Rows

/-- Erasing lines is another way of replacing them. -/
theorem Form.eraseLines_eq_map (form : Form Node) :
    form.eraseLines = form.map (fun _ => none) Node.eraseLines := by
  have hlast : ∀ last : Option (Else Node),
      eraseLinesElse last = last.map (Else.map (fun _ => none) Node.eraseLines) := by
    intro last
    cases last with
    | none => rfl
    | some clause => rw [eraseLinesElse, Option.map_some, Else.map, eraseLinesList_eq_map]
  cases form <;>
    simp only [Form.eraseLines, Form.map, eraseLinesList_eq_map, eraseLinesOption_eq_map,
      eraseLinesElseIfs_eq_map, eraseLinesParams_eq_map, eraseLinesItems_eq_map, hlast] <;> rfl

/-- Moving a tree down changes nothing but its lines. -/
@[simp] theorem Node.eraseLines_shiftLines (k : Nat) (node : Node) :
    (node.shiftLines k).eraseLines = node.eraseLines := by
  induction node using Node.inductionOnChildren with
  | step node ih =>
    obtain ⟨line, form⟩ := node
    rw [Node.shiftLines_mk, Node.eraseLines, Node.eraseLines, Form.eraseLines_eq_map, Form.map_map,
      Form.eraseLines_eq_map]
    exact congrArg (Node.mk none) (Form.map_congr ih)

/-- Moving a tree down by no lines changes nothing. -/
@[simp] theorem Node.shiftLines_zero : Node.shiftLines 0 = id := by
  have hline : shiftLine 0 = id := by
    funext line
    cases line <;> simp [shiftLine]
  funext node
  induction node using Node.inductionOnChildren with
  | step node ih =>
    obtain ⟨line, form⟩ := node
    rw [Node.shiftLines_mk, hline, Form.map_congr (g := id) ih, Form.map_id]
    rfl

/-- Whether something can be assigned to does not depend on lines. -/
@[simp] theorem Node.isTarget_shiftLines (k : Nat) (node : Node) :
    (node.shiftLines k).isTarget = node.isTarget := by
  rw [← Node.isTarget_eraseLines, Node.eraseLines_shiftLines, Node.isTarget_eraseLines]

/-! ## Expressions -/

/-- An expression that has been read, `k` lines further down. -/
def Operand.shiftLines (k : Nat) (operand : Operand) : Operand :=
  ⟨operand.node.shiftLines k, operand.start + k, operand.callee⟩

/-- An operator that waits, `k` lines further down. -/
def Pending.shiftLines (k : Nat) : Pending → Pending
  | .binary op left => .binary op (left.shiftLines k)
  | .assign target => .assign (target.shiftLines k)
  | .compound op target => .compound op (target.shiftLines k)
  | .unary op line => .unary op (line + k)
  | .require once fatal line => .require once fatal (line + k)

/-- What is wrong with a text, `k` lines further down. -/
def SourceError.shiftLines (k : Nat) : SourceError → SourceError
  | .parse error => .parse { error with line := shiftLine k error.line }
  | .limit found => .limit found

/-- A construct in brackets, `k` lines further down. -/
def Bracket.shiftLines (k : Nat) : Bracket → Bracket
  | .paren line => .paren (line + k)
  | .index base => .index (base.shiftLines k)
  | .args name line done => .args name (line + k) (done.map (Node.shiftLines k))
  | .items round line done key =>
    .items round (line + k) (done.map (ArrayItem.map (shiftLine k) (Node.shiftLines k)))
      (key.map (Operand.shiftLines k))

/-- What a token does inside a bracket, `k` lines further down. -/
def BracketStep.shiftLines (k : Nat) : BracketStep → BracketStep
  | .closed operand => .closed (operand.shiftLines k)
  | .reopened bracket closable => .reopened (bracket.shiftLines k) closable

/-- What is expected next, `k` lines further down. -/
def ExprMode.shiftLines (k : Nat) : ExprMode → ExprMode
  | .operand closable => .operand closable
  | .arrayOpen line => .arrayOpen (line + k)
  | .operator current => .operator (current.shiftLines k)

/-- An expression that is being read, `k` lines further down. -/
def ExprState.shiftLines (k : Nat) (state : ExprState) : ExprState where
  pending := state.pending.map (Pending.shiftLines k)
  outer := state.outer.map (Prod.map (Bracket.shiftLines k) (List.map (Pending.shiftLines k)))
  mode := state.mode.shiftLines k
  fault := state.fault.map (SourceError.shiftLines k)

/-- What a token does to an expression, `k` lines further down. -/
def ExprStep.shiftLines (k : Nat) : ExprStep → ExprStep
  | .more state => .more (state.shiftLines k)
  | .done operand fault => .done (operand.shiftLines k) (fault.map (SourceError.shiftLines k))
  | .reject => .reject

attribute [simp] Pending.shiftLines SourceError.shiftLines Bracket.shiftLines BracketStep.shiftLines
  ExprMode.shiftLines ExprState.shiftLines ExprStep.shiftLines

@[simp] theorem Operand.node_shiftLines (k : Nat) (operand : Operand) :
    (operand.shiftLines k).node = operand.node.shiftLines k := rfl

@[simp] theorem Operand.start_shiftLines (k : Nat) (operand : Operand) :
    (operand.shiftLines k).start = operand.start + k := rfl

@[simp] theorem Operand.shiftLines_plain (k : Nat) (node : Node) (start : Nat) :
    (Operand.plain node start).shiftLines k = .plain (node.shiftLines k) (start + k) := rfl

/-- `lower` is the same token as `token`, `k` lines further down; it may stand in another column. -/
structure Token.Lowered (k : Nat) (token lower : Token) : Prop where
  lexeme : lower.lexeme = token.lexeme
  line : lower.line = token.line + k

section Expressions

variable (k : Nat)

@[simp] theorem Pending.right_shiftLines (pending : Pending) :
    (pending.shiftLines k).right = pending.right := by
  cases pending <;> rfl

@[simp] theorem Pending.result_shiftLines (pending : Pending) :
    (pending.shiftLines k).result = pending.result := by
  cases pending <;> rfl

/-- What is wrong with a target moves down with it. -/
theorem targetFault_shiftLines (compound : Bool) (target : Operand) :
    targetFault compound (target.shiftLines k) =
      (targetFault compound target).map (SourceError.shiftLines k) := by
  unfold targetFault
  rw [Operand.node_shiftLines, Node.isTarget_shiftLines, Node.form_shiftLines]
  split
  · simp
  · cases target.node.form with
    | index base dim => cases compound <;> cases dim <;> simp
    | _ => cases compound <;> rfl

/-- An operator that gets its right operand makes the same of both, further down. -/
theorem Pending.complete_shiftLines (pending : Pending) (right : Operand) :
    (pending.shiftLines k).complete (right.shiftLines k) =
      ((pending.complete right).1.shiftLines k,
        (pending.complete right).2.map (SourceError.shiftLines k)) := by
  cases pending with
  | assign target | compound op target =>
    simp [Pending.complete, targetFault_shiftLines]
  | binary | unary | require => simp [Pending.complete]

/-- Operators that get their operands one after another make the same of them, further down. -/
theorem completeAll_shiftLines (pending : List Pending) (current : Operand)
    (fault : Option SourceError) :
    completeAll (pending.map (Pending.shiftLines k)) (current.shiftLines k)
        (fault.map (SourceError.shiftLines k)) =
      ((completeAll pending current fault).1.shiftLines k,
        (completeAll pending current fault).2.map (SourceError.shiftLines k)) := by
  induction pending generalizing current fault with
  | nil => rfl
  | cons pending rest ih =>
    simp only [List.map_cons, completeAll, Pending.complete_shiftLines, ← Option.map_or, ih]

/-- Which waiting operators an operator takes as its left operand depends on how they bind and not
    on lines. -/
theorem makeLeft_shiftLines (binding : Binding) (current : Operand) (strength : Nat)
    (pending : List Pending) (fault : Option SourceError) :
    makeLeft binding (current.shiftLines k) strength (pending.map (Pending.shiftLines k))
        (fault.map (SourceError.shiftLines k)) =
      (makeLeft binding current strength pending fault).map
        (Prod.map (Operand.shiftLines k) (Prod.map (List.map (Pending.shiftLines k))
          (Option.map (SourceError.shiftLines k)))) := by
  induction pending generalizing current strength fault with
  | nil =>
    simp only [List.map_nil, makeLeft]
    split <;> rfl
  | cons pending rest ih =>
    simp only [List.map_cons, makeLeft, Pending.right_shiftLines, Pending.result_shiftLines,
      Pending.complete_shiftLines, ← Option.map_or, ih]
    split
    · split <;> rfl
    · rfl

theorem arrayItem_shiftLines (key : Option Operand) (value : Operand) :
    arrayItem (key.map (Operand.shiftLines k)) (value.shiftLines k) =
      (arrayItem key value).map (shiftLine k) (Node.shiftLines k) := by
  cases key <;> simp [arrayItem, ArrayItem.map]

theorem argument_shiftLines (value : Operand) :
    argument (value.shiftLines k) = (argument value).shiftLines k := by
  simp [argument]

/-- A token does the same inside a bracket that has been moved down. -/
theorem Bracket.next?_shiftLines (bracket : Bracket) (inner : Operand) (lexeme : Lexeme) :
    (bracket.shiftLines k).next? (inner.shiftLines k) lexeme =
      (bracket.next? inner lexeme).map (BracketStep.shiftLines k) := by
  cases bracket with
  | paren line | index base =>
    simp only [Bracket.shiftLines, Bracket.next?]
    split <;> simp
  | args name line done =>
    simp only [Bracket.shiftLines, Bracket.next?, argument_shiftLines]
    split
    · simp
    · split <;> simp
  | items round line done key =>
    simp only [Bracket.shiftLines, Bracket.next?, arrayItem_shiftLines, Option.isNone_map]
    split
    · simp
    · split
      · simp
      · split <;> simp

/-- A bracket that is closed with nothing in it gives the same, further down. -/
theorem Bracket.closeEmpty?_shiftLines (bracket : Bracket) (lexeme : Lexeme) :
    (bracket.shiftLines k).closeEmpty? lexeme =
      (bracket.closeEmpty? lexeme).map (Operand.shiftLines k) := by
  cases bracket with
  | paren line => rfl
  | index base | args name line done | items round line done key =>
    simp only [Bracket.shiftLines, Bracket.closeEmpty?]
    split <;> simp

/-! ### Literals -/

theorem map_intLiteral {text : List Char} {form : Form Node} (h : intLiteral text = .ok form) :
    form.map (shiftLine k) (Node.shiftLines k) = form := by
  obtain ⟨n, rfl⟩ | ⟨f, rfl⟩ := intLiteral_eq_ok h <;> rfl

theorem map_floatLiteral (text : List Char) :
    (floatLiteral text).map (shiftLine k) (Node.shiftLines k) = floatLiteral text := by
  unfold floatLiteral
  split <;> rfl

/-- Parts that are joined one after another are joined further down. -/
theorem concatAll_shiftLines (line : Option Int) (first : Node) (rest : List Node) :
    concatAll (shiftLine k line) (first.shiftLines k) (rest.map (Node.shiftLines k)) =
      (concatAll line first rest).shiftLines k := by
  unfold concatAll
  induction rest generalizing first with
  | nil => rfl
  | cons node rest ih =>
    rw [List.map_cons, List.foldl_cons, List.foldl_cons, ← ih]
    simp

/-- The parts of a double-quoted string all have its line, and move down with it. -/
theorem doubleLiteral_shiftLines (raw : List Char) (line : Option Int) :
    doubleLiteral raw (shiftLine k line) = (doubleLiteral raw line).map (Node.shiftLines k) := by
  have hparts : ∀ parts : List StringPart, parts.map (StringPart.toNode (shiftLine k line)) =
      (parts.map (StringPart.toNode line)).map (Node.shiftLines k) := by
    intro parts
    rw [List.map_map]
    refine List.map_congr_left fun part _ => ?_
    cases part <;> simp [StringPart.toNode]
  have hjoin : ∀ (text : String) (parts : List StringPart),
      concatAll (shiftLine k line) ⟨shiftLine k line, .str text⟩
          (parts.map (StringPart.toNode (shiftLine k line))) =
        (concatAll line ⟨line, .str text⟩ (parts.map (StringPart.toNode line))).shiftLines k := by
    intro text parts
    rw [hparts, ← concatAll_shiftLines, Node.shiftLines_mk, Form.map]
  unfold doubleLiteral
  cases piecesFrom 0 raw with
  | error limit => rfl
  | ok pieces =>
    simp only [bind, Except.bind]
    split <;> exact congrArg Except.ok (hjoin _ _)

/-! ### Tokens -/

variable {k : Nat}

/-- An operator between operands does the same to an expression moved down. -/
theorem ExprState.betweenStep_shiftLines (state : ExprState) (current : Operand)
    (binding : Binding) {operator lower : Operand → Pending}
    (h : ∀ left, lower (left.shiftLines k) = (operator left).shiftLines k) :
    (state.shiftLines k).betweenStep (current.shiftLines k) binding lower =
      (state.betweenStep current binding operator).shiftLines k := by
  unfold ExprState.betweenStep
  simp only [ExprState.shiftLines, makeLeft_shiftLines]
  cases makeLeft binding current tightest state.pending state.fault with
  | none => rfl
  | some found =>
    simp only [Option.map_some, Prod.map, h]
    rfl

theorem ExprState.gotOperand_shiftLines (state : ExprState) (operand : Operand) :
    (state.shiftLines k).gotOperand (operand.shiftLines k) =
      (state.gotOperand operand).shiftLines k := rfl

/-- A literal, or what is wrong with it, goes into the expression further down. -/
theorem ExprState.gotLiteral_shiftLines (state : ExprState) (line : Nat)
    {literal lower : Except SourceError Node}
    (h : lower = (literal.map (Node.shiftLines k)).mapError (SourceError.shiftLines k)) :
    (state.shiftLines k).gotLiteral (line + k) lower =
      (state.gotLiteral line literal).shiftLines k := by
  subst h
  cases literal with
  | ok node => rfl
  | error found =>
    cases hfault : state.fault <;>
      simp [Except.map, Except.mapError, ExprState.gotLiteral, hfault]

theorem ExprState.admitsAssignment_shiftLines (state : ExprState) :
    (state.shiftLines k).admitsAssignment = state.admitsAssignment := by
  unfold ExprState.admitsAssignment
  cases hpending : state.pending with
  | nil => simp [hpending]
  | cons pending rest => simp [hpending, -Pending.shiftLines]

/-- What a token that starts no operand does where one is expected: it may close a bracket. -/
def ExprState.closeStep (state : ExprState) (lexeme : Lexeme) (closable : Bool) : ExprStep :=
  match closable, state.outer with
  | true, (bracket, pending) :: outer =>
    match bracket.closeEmpty? lexeme with
    | some operand => .more ⟨pending, outer, .operator operand, state.fault⟩
    | none => .reject
  | _, _ => .reject

/-- A token that starts no operand does the same to an expression moved down. -/
theorem ExprState.closeStep_shiftLines (state : ExprState) (lexeme : Lexeme) (closable : Bool) :
    (state.shiftLines k).closeStep lexeme closable =
      (state.closeStep lexeme closable).shiftLines k := by
  unfold ExprState.closeStep
  cases closable with
  | false => rfl
  | true =>
    simp only [ExprState.shiftLines]
    cases state.outer with
    | nil => rfl
    | cons first outer =>
      obtain ⟨bracket, pending⟩ := first
      simp only [List.map_cons, Prod.map, Bracket.closeEmpty?_shiftLines]
      cases bracket.closeEmpty? lexeme <;> rfl

/-- Where an operand is expected, a token moved down does the same to an expression moved down. -/
theorem ExprState.operandStep_shiftLines (state : ExprState) {token lower : Token}
    (h : token.Lowered k lower) (closable : Bool) :
    (state.shiftLines k).operandStep lower closable =
      (state.operandStep token closable).shiftLines k := by
  unfold ExprState.operandStep
  rw [h.lexeme, h.line]
  cases token.lexeme with
  | «variable» name | single raw => simp [ExprState.gotOperand]
  | identifier name => simp [ExprState.gotOperand, Operand.shiftLines]
  | float text =>
    simp only [← ExprState.gotOperand_shiftLines, Operand.shiftLines_plain, Node.shiftLines_mk,
      shiftLine_natCast, map_floatLiteral]
  | int text =>
    refine state.gotLiteral_shiftLines _ ?_
    cases hliteral : intLiteral text with
    | ok form => simp [Except.map, Except.mapError, map_intLiteral k hliteral, -Form.map]
    | error error => cases error <;> simp [Except.map, Except.mapError]
  | double raw =>
    refine state.gotLiteral_shiftLines _ ?_
    rw [← shiftLine_natCast, doubleLiteral_shiftLines]
    cases doubleLiteral raw (some (token.line : Int)) <;> rfl
  | require once fatal =>
    simp only [ExprState.admitsAssignment_shiftLines]
    split <;> rfl
  | keyword word =>
    cases word with
    | array => rfl
    | _ => exact state.closeStep_shiftLines _ closable
  | openBracket | openParen | unary | sign => rfl
  -- All other tokens start no operand.
  | _ => exact state.closeStep_shiftLines _ closable

/-- After an operand, a token that is no operator ends the expression or goes on in the bracket
    around it, further down. -/
theorem ExprState.endStep_shiftLines (state : ExprState) (current : Operand) (lexeme : Lexeme) :
    (state.shiftLines k).endStep (current.shiftLines k) lexeme =
      (state.endStep current lexeme).shiftLines k := by
  unfold ExprState.endStep
  simp only [ExprState.shiftLines, completeAll_shiftLines]
  cases state.outer with
  | nil => rfl
  | cons first outer =>
    obtain ⟨bracket, pending⟩ := first
    simp only [List.map_cons, Prod.map, Bracket.next?_shiftLines]
    cases bracket.next? (completeAll state.pending current state.fault).1 lexeme with
    | none => rfl
    | some found => cases found <;> rfl

/-- After an operand, a token moved down does the same to an expression moved down. -/
theorem ExprState.operatorStep_shiftLines (state : ExprState) (current : Operand)
    (lexeme : Lexeme) :
    (state.shiftLines k).operatorStep (current.shiftLines k) lexeme =
      (state.operatorStep current lexeme).shiftLines k := by
  cases lexeme with
  | openBracket => rfl
  | openParen =>
    simp only [ExprState.operatorStep]
    have hcallee : (current.shiftLines k).callee = current.callee := rfl
    rw [hcallee]
    cases current.callee <;> rfl
  | binary | sign | equals | compound =>
    exact state.betweenStep_shiftLines current _ fun left => rfl
  | _ => exact state.endStep_shiftLines current _

/-- A token moved down does the same to an expression moved down. -/
theorem ExprState.step_shiftLines (state : ExprState) {token lower : Token}
    (h : token.Lowered k lower) :
    (state.shiftLines k).step lower = (state.step token).shiftLines k := by
  unfold ExprState.step
  rw [show (state.shiftLines k).mode = state.mode.shiftLines k from rfl]
  cases state.mode with
  | operand closable => exact state.operandStep_shiftLines h closable
  | arrayOpen line =>
    simp only [ExprMode.shiftLines, h.lexeme]
    split <;> rfl
  | operator current =>
    simp only [ExprMode.shiftLines, h.lexeme]
    exact state.operatorStep_shiftLines current token.lexeme

end Expressions

/-! ## Statements -/

/-- An `if` whose parts are being read, `k` lines further down. -/
def IfHead.shiftLines (k : Nat) (head : IfHead) : IfHead where
  line := head.line + k
  cond := head.cond.shiftLines k
  body := head.body.map (Node.shiftLines k)
  elseIfs := head.elseIfs.map (ElseIf.map (shiftLine k) (Node.shiftLines k))

/-- The head of a function, `k` lines further down. -/
def FunctionHead.shiftLines (k : Nat) (head : FunctionHead) : FunctionHead where
  line := head.line + k
  name := head.name
  params := head.params.map (Param.map (shiftLine k) (Node.shiftLines k))

/-- The head of a loop, `k` lines further down. -/
def ForeachHead.shiftLines (k : Nat) (head : ForeachHead) : ForeachHead :=
  { head with line := head.line + k, expr := head.expr.shiftLines k }

/-- What a list of statements belongs to, `k` lines further down. -/
def ListKind.shiftLines (k : Nat) : ListKind → ListKind
  | .program => .program
  | .block => .block
  | .function head => .function (head.shiftLines k)

/-- An open statement, `k` lines further down. -/
def StatementFrame.shiftLines (k : Nat) : StatementFrame → StatementFrame
  | .list kind done => .list (kind.shiftLines k) (done.map (Node.shiftLines k))
  | .ifBody line cond => .ifBody (line + k) (cond.shiftLines k)
  | .elseIfBody head line cond => .elseIfBody (head.shiftLines k) (line + k) (cond.shiftLines k)
  | .elseBody head line => .elseBody (head.shiftLines k) (line + k)
  | .foreachBody head => .foreachBody (head.shiftLines k)

/-- What an expression is read for, `k` lines further down. -/
def ExprContext.shiftLines (k : Nat) : ExprContext → ExprContext
  | .statement => .statement
  | .echo line done => .echo (line + k) (done.map (Node.shiftLines k))
  | .ret line => .ret (line + k)
  | .ifCond line => .ifCond (line + k)
  | .elseIfCond head line => .elseIfCond (head.shiftLines k) (line + k)
  | .foreachSource line => .foreachSource (line + k)
  | .default head line name => .default (head.shiftLines k) (line + k) name

/-- What is expected next, `k` lines further down. -/
def Mode.shiftLines (k : Nat) : Mode → Mode
  | .statement => .statement
  | .clauses head => .clauses (head.shiftLines k)
  | .parenthesis context => .parenthesis (context.shiftLines k)
  | .expression context state => .expression (context.shiftLines k) (state.shiftLines k)
  | .returned line => .returned (line + k)
  | .functionName line => .functionName (line + k)
  | .functionOpen line name => .functionOpen (line + k) name
  | .parameter head => .parameter (head.shiftLines k)
  | .parameterEnd head line name => .parameterEnd (head.shiftLines k) (line + k) name
  | .functionBrace head => .functionBrace (head.shiftLines k)
  | .foreachFirst line expr => .foreachFirst (line + k) (expr.shiftLines k)
  | .foreachSecond line expr first => .foreachSecond (line + k) (expr.shiftLines k) first
  | .foreachValue line expr keyVar => .foreachValue (line + k) (expr.shiftLines k) keyVar
  | .foreachClose head => .foreachClose (head.shiftLines k)

section Heads

variable (k : Nat)

theorem IfHead.finish_shiftLines (head : IfHead) (last : Option (Else Node)) :
    (head.shiftLines k).finish (last.map (Else.map (shiftLine k) (Node.shiftLines k))) =
      (head.finish last).shiftLines k := by
  simp [IfHead.finish, IfHead.shiftLines]

theorem IfHead.addElseIf_shiftLines (head : IfHead) (line : Nat) (cond : Node)
    (body : List Node) :
    (head.shiftLines k).addElseIf (line + k) (cond.shiftLines k) (body.map (Node.shiftLines k)) =
      (head.addElseIf line cond body).shiftLines k := by
  simp [IfHead.addElseIf, IfHead.shiftLines, ElseIf.map]

theorem FunctionHead.addParam_shiftLines (head : FunctionHead) (line : Nat) (name : String)
    (default : Option Node) :
    (head.shiftLines k).addParam (line + k) name (default.map (Node.shiftLines k)) =
      (head.addParam line name default).shiftLines k := by
  simp [FunctionHead.addParam, FunctionHead.shiftLines, Param.map]

theorem ForeachHead.finish_shiftLines (head : ForeachHead) (body : List Node) :
    (head.shiftLines k).finish (body.map (Node.shiftLines k)) =
      (head.finish body).shiftLines k := by
  simp [ForeachHead.finish, ForeachHead.shiftLines]

end Heads

/-! ## Programs inside programs -/

/-- A place inside a program: the number of lines before it, the list of statements that it is part
    of, with the statements of this list that come before, the latest first, and the statements
    around the list. -/
structure Site where
  lines : Nat
  kind : ListKind
  done : List Node
  around : List StatementFrame

namespace Site

variable (site : Site)

/-- The open statements of a program that is put at a site. Its own list of statements becomes part
    of the list there. -/
def stack : List StatementFrame → List StatementFrame
  | [] => .list site.kind site.done :: site.around
  -- Nothing is around the list of statements of a whole program.
  | .list .program done :: _ =>
    .list site.kind (done.map (Node.shiftLines site.lines) ++ site.done) :: site.around
  | frame :: rest => frame.shiftLines site.lines :: stack rest

/-- A program that is being read, put at a site. -/
def place (state : ParserState) : ParserState where
  mode := state.mode.shiftLines site.lines
  stack := site.stack state.stack
  fault := state.fault.map (SourceError.shiftLines site.lines)

/-- Statements that go to the innermost open statement go there at a site as well, and close the
    same open statements. -/
theorem deliver_stack (nodes : List Node) (stack : List StatementFrame) :
    deliver (nodes.map (Node.shiftLines site.lines)) (site.stack stack) =
      ((deliver nodes stack).1.shiftLines site.lines, site.stack (deliver nodes stack).2) := by
  induction nodes, stack using deliver.induct with
  | case1 nodes => simp [Site.stack, deliver, Mode.shiftLines]
  | case2 nodes kind done rest =>
    cases kind <;> simp [Site.stack, deliver, Mode.shiftLines, StatementFrame.shiftLines]
  | case3 nodes line cond rest =>
    simp [Site.stack, deliver, Mode.shiftLines, StatementFrame.shiftLines, IfHead.shiftLines]
  | case4 nodes head line cond rest =>
    simp [Site.stack, deliver, Mode.shiftLines, StatementFrame.shiftLines,
      IfHead.addElseIf_shiftLines]
  | case5 nodes head line rest ih =>
    simp only [Site.stack, StatementFrame.shiftLines, deliver]
    rw [← ih, List.map_singleton, ← IfHead.finish_shiftLines]
    simp [Else.map]
  | case6 nodes head rest ih =>
    simp only [Site.stack, StatementFrame.shiftLines, deliver]
    rw [← ih, List.map_singleton, ← ForeachHead.finish_shiftLines]

/-- An `if` that no further condition follows is over at a site as well. -/
theorem deliverAll_stack (nodes : List Node) (stack : List StatementFrame) :
    deliverAll (nodes.map (Node.shiftLines site.lines)) (site.stack stack) =
      site.stack (deliverAll nodes stack) := by
  induction nodes, stack using deliverAll.induct with
  | case1 nodes => simp [Site.stack, deliverAll]
  | case2 nodes kind done rest =>
    cases kind <;> simp [Site.stack, deliverAll, StatementFrame.shiftLines]
  | case3 nodes line cond rest ih =>
    simp only [Site.stack, StatementFrame.shiftLines, deliverAll]
    rw [← ih, List.map_singleton, ← IfHead.finish_shiftLines]
    rfl
  | case4 nodes head line cond rest ih =>
    simp only [Site.stack, StatementFrame.shiftLines, deliverAll]
    rw [← ih, List.map_singleton, ← IfHead.finish_shiftLines, ← IfHead.addElseIf_shiftLines]
    rfl
  | case5 nodes head line rest ih =>
    simp only [Site.stack, StatementFrame.shiftLines, deliverAll]
    rw [← ih, List.map_singleton, ← IfHead.finish_shiftLines]
    simp [Else.map]
  | case6 nodes head rest ih =>
    simp only [Site.stack, StatementFrame.shiftLines, deliverAll]
    rw [← ih, List.map_singleton, ← ForeachHead.finish_shiftLines]

theorem place_deliver (nodes : List Node) (stack : List StatementFrame)
    (fault : Option SourceError) :
    site.place ⟨(deliver nodes stack).1, (deliver nodes stack).2, fault⟩ =
      ⟨(deliver (nodes.map (Node.shiftLines site.lines)) (site.stack stack)).1,
        (deliver (nodes.map (Node.shiftLines site.lines)) (site.stack stack)).2,
        fault.map (SourceError.shiftLines site.lines)⟩ := by
  rw [deliver_stack]
  rfl

/-- An expression that is over is put to the same use at a site. -/
theorem finish?_place {context : ExprContext} {operand : Operand} {fault : Option SourceError}
    {lexeme : Lexeme} {stack : List StatementFrame} {next : ParserState}
    (h : context.finish? operand fault lexeme stack = some next) :
    (context.shiftLines site.lines).finish? (operand.shiftLines site.lines)
        (fault.map (SourceError.shiftLines site.lines)) lexeme (site.stack stack) =
      some (site.place next) := by
  unfold ExprContext.finish? at h
  split at h
  all_goals cases h
  case h_1 | h_3 | h_4 =>
    simp [ExprContext.shiftLines, ExprContext.finish?, place_deliver]
  case h_2 | h_5 | h_6 | h_7 => rfl
  case h_8 | h_9 =>
    simp only [ExprContext.shiftLines, ExprContext.finish?, Operand.node_shiftLines,
      ← Option.map_some, FunctionHead.addParam_shiftLines]
    rfl

/-- A token that continues an expression continues it at a site. -/
theorem expressionStep_place {context : ExprContext} {inner : ExprState}
    {stack : List StatementFrame} {token lower : Token} {next : ParserState}
    (htoken : token.Lowered site.lines lower)
    (h : expressionStep context inner stack token = some next) :
    expressionStep (context.shiftLines site.lines) (inner.shiftLines site.lines) (site.stack stack)
      lower = some (site.place next) := by
  unfold expressionStep at h ⊢
  rw [ExprState.step_shiftLines inner htoken, htoken.lexeme]
  cases hstep : inner.step token with
  | more state =>
    rw [hstep] at h
    cases h
    rfl
  | done operand fault =>
    rw [hstep] at h
    exact site.finish?_place h
  | reject =>
    rw [hstep] at h
    cases h

/-- A brace that closes a list of statements closes it at a site. -/
theorem closeList?_place {stack : List StatementFrame} {fault : Option SourceError}
    {next : ParserState} (h : closeList? stack fault = some next) :
    closeList? (site.stack stack) (fault.map (SourceError.shiftLines site.lines)) =
      some (site.place next) := by
  unfold closeList? at h
  split at h
  · cases h
    simp [Site.stack, StatementFrame.shiftLines, ListKind.shiftLines, closeList?, place_deliver]
  · cases h
    simp [Site.stack, StatementFrame.shiftLines, ListKind.shiftLines, closeList?, place_deliver,
      FunctionHead.shiftLines]
  · cases h

/-- A token that starts a statement, or ends a list of statements, does so at a site. -/
theorem statementStep_place {stack : List StatementFrame} {fault : Option SourceError}
    {token lower : Token} {next : ParserState} (htoken : token.Lowered site.lines lower)
    (h : statementStep stack fault token = some next) :
    statementStep (site.stack stack) (fault.map (SourceError.shiftLines site.lines)) lower =
      some (site.place next) := by
  unfold statementStep at h ⊢
  rw [htoken.lexeme, htoken.line]
  split at h
  case h_8 =>
    cases h
    simp [place_deliver]
  case h_7 => exact site.closeList?_place h
  case h_9 => exact site.expressionStep_place htoken h
  all_goals
    cases h
    rfl

/-- A token that continues a program continues it at a site. -/
theorem step_place {state next : ParserState} {token lower : Token}
    (htoken : token.Lowered site.lines lower) (h : state.step token = some next) :
    (site.place state).step lower = some (site.place next) := by
  obtain ⟨mode, stack, fault⟩ := state
  unfold ParserState.step at h
  simp only at h
  split at h
  case h_1 => exact site.statementStep_place htoken h
  case h_6 => exact site.expressionStep_place htoken h
  case h_22 => cases h
  case h_4 head helseIf helse =>
    have hstep := site.statementStep_place htoken h
    rw [← site.deliverAll_stack, List.map_singleton, ← IfHead.finish_shiftLines] at hstep
    rw [← htoken.lexeme] at helseIf helse
    simp only [Site.place, Mode.shiftLines, ParserState.step]
    exact hstep
  case h_8 line hsemicolon =>
    rw [← htoken.lexeme] at hsemicolon
    simp only [Site.place, Mode.shiftLines, ParserState.step]
    exact site.expressionStep_place htoken h
  all_goals
    rename_i heq
    have hlower := htoken.lexeme.trans heq
    cases h
  case h_7 =>
    rw [place_deliver]
    simp [Site.place, Mode.shiftLines, ParserState.step, hlower]
  case h_14 | h_15 =>
    simp only [Site.place, Mode.shiftLines, ParserState.step, hlower,
      ← FunctionHead.addParam_shiftLines, Option.map_none]
  all_goals
    simp only [Site.place, Mode.shiftLines, ParserState.step, hlower, htoken.line] <;> rfl

/-- Tokens that continue a program continue it at a site. -/
theorem foldlM_place {state final : ParserState} {tokens lowers : List Token}
    (htokens : List.Forall₂ (Token.Lowered site.lines) tokens lowers)
    (h : tokens.foldlM ParserState.step state = some final) :
    lowers.foldlM ParserState.step (site.place state) = some (site.place final) := by
  induction htokens generalizing state with
  | nil =>
    cases h
    rfl
  | cons htoken hrest ih =>
    rw [List.foldlM_cons] at h ⊢
    obtain ⟨next, hnext, hfinal⟩ := Option.bind_eq_some_iff.mp h
    rw [site.step_place htoken hnext]
    exact ih hfinal

end Site

end WebScript
