import WebScript.Proofs.NodeTree
import WebScript.Proofs.Simulation

/-!
# Simulation of evaluation

`Simulation.Follows` says that evaluating a node in one run is simulated by evaluating it in another,
which may have another configuration and another way to evaluate what lies outside the node. There
is one lemma for each kind of node: a node is followed if its parts are. Kinds whose evaluation asks
the configuration need the two configurations to agree on the switch that is asked.
-/

namespace WebScript

/-- Nodes that a simulation can follow: a part of one is one, literals have admissible values, the
    variables are readable or bindable as they are used, and declaring a function keeps machines
    corresponding. -/
structure Simulation.Admits (S : Simulation) (node : Node → Prop) : Prop where
  part {whole part : Node} (h : node whole) (hpart : part ∈ whole.parts) : node part
  int {line : Option Int} {n : Int} (h : node ⟨line, .int n⟩) : S.value (.int n)
  readable {line : Option Int} {name : String} (h : node ⟨line, .variable name⟩) : S.readable name
  valueVar {line : Option Int} {expr : Node} {valueVar : String} {body : List Node}
    {keyVar : Option String} (h : node ⟨line, .foreach expr valueVar body keyVar⟩) :
    S.bindable valueVar
  keyVar {line : Option Int} {expr : Node} {valueVar name : String} {body : List Node}
    (h : node ⟨line, .foreach expr valueVar body (some name)⟩) : S.bindable name
  assign {line : Option Int} {target expr : Node} {name : String}
    (h : node ⟨line, .assign target expr⟩) (hroot : target.root? = some name) : S.bindable name
  compound {line : Option Int} {op : BinaryOperator} {target expr : Node} {name : String}
    (h : node ⟨line, .compoundAssign op target expr⟩) (hroot : target.root? = some name) :
    S.bindable name
  function {line : Option Int} {name : String} {params : List (Param Node)} {body : List Node}
    {m₁ m₂ : Machine} (h : node ⟨line, .functionDecl name params body⟩) (hrel : S.rel m₁ m₂) :
    S.rel (m₁.withFunction ⟨name, params, body⟩) (m₂.withFunction ⟨name, params, body⟩)

namespace Simulation

attribute [local simp] Node.evalAs WebScript.evalList WebScript.evalBlock WebScript.evalElseIfs
  WebScript.evalItems Node.evalKeys

variable (S : Simulation) (c₁ : Config) (d₁ : Node → Eval Value) (c₂ : Config)
  (d₂ : Node → Eval Value)

/-- The keys of a target: an element is appended only where the target says so. -/
def targetPath (target : Node) (keys : List (Option Key)) : Prop :=
  S.path keys ∧ (target.hasAppend = false → none ∉ keys)

/-- Evaluating a node, for its value or for the keys of a target, is simulated. -/
structure Follows (node : Node) : Prop where
  eval (reading : Reading) :
    S.Refines S.value (node.evalAs c₁ d₁ reading) (node.evalAs c₂ d₂ reading)
  keys : S.Refines (S.targetPath node) (node.evalKeys c₁ d₁) (node.evalKeys c₂ d₂)

variable {S c₁ d₁ c₂ d₂}

/-! ## Rows of nodes -/

/-- Nodes that are evaluated one after another are followed if each of them is. -/
theorem Refines.evalList {nodes : List Node} (h : ∀ node ∈ nodes, S.Follows c₁ d₁ c₂ d₂ node) :
    S.Refines (fun values => ∀ v ∈ values, S.value v) (WebScript.evalList c₁ d₁ nodes)
      (WebScript.evalList c₂ d₂ nodes) := by
  induction nodes with
  | nil =>
    rw [WebScript.evalList, WebScript.evalList]
    exact Refines.ofValue (fun v hv => by cases hv)
  | cons node rest ih =>
    rw [WebScript.evalList, WebScript.evalList]
    refine ((h node List.mem_cons_self).eval .strict).andThen fun value hvalue => ?_
    refine (ih fun node hnode => h node (List.mem_cons_of_mem _ hnode)).andThen
      fun values hvalues => ?_
    refine Refines.ofValue fun v hv => ?_
    rcases List.mem_cons.mp hv with rfl | hv
    · exact hvalue
    · exact hvalues v hv

theorem Refines.evalBlock {nodes : List Node} (h : ∀ node ∈ nodes, S.Follows c₁ d₁ c₂ d₂ node) :
    S.Refines (fun _ => True) (WebScript.evalBlock c₁ d₁ nodes)
      (WebScript.evalBlock c₂ d₂ nodes) := by
  induction nodes with
  | nil =>
    rw [WebScript.evalBlock, WebScript.evalBlock]
    exact Refines.ofValue trivial
  | cons node rest ih =>
    rw [WebScript.evalBlock, WebScript.evalBlock]
    refine ((h node List.mem_cons_self).eval .strict).andThen fun _ _ => ?_
    exact ih fun node hnode => h node (List.mem_cons_of_mem _ hnode)

/-- An array literal grows by values as they should be, if its keys and values are followed. -/
theorem Refines.evalItems {items : List (ArrayItem Node)} {table : Table Value}
    (h : ∀ node ∈ Form.itemNodes items, S.Follows c₁ d₁ c₂ d₂ node)
    (htable : S.value (.array table)) :
    S.Refines (fun result => S.value (.array result)) (WebScript.evalItems c₁ d₁ table items)
      (WebScript.evalItems c₂ d₂ table items) := by
  induction items generalizing table with
  | nil =>
    rw [WebScript.evalItems, WebScript.evalItems]
    exact Refines.ofValue htable
  | cons item rest ih =>
    obtain ⟨line, value, key⟩ := item
    have hrest : ∀ node ∈ Form.itemNodes rest, S.Follows c₁ d₁ c₂ d₂ node :=
      fun node hnode => h node (List.mem_append_right _ hnode)
    have hvalue := h value (List.mem_append_left _ List.mem_cons_self)
    cases key with
    | none =>
      rw [WebScript.evalItems, WebScript.evalItems]
      refine (hvalue.eval .strict).andThen fun element helement => ?_
      exact ih hrest (S.append htable helement)
    | some key =>
      have hkey := h key (List.mem_append_left _ (List.mem_cons_of_mem _ List.mem_cons_self))
      rw [WebScript.evalItems, WebScript.evalItems]
      refine (hvalue.eval .strict).andThen fun element helement => ?_
      refine (hkey.eval .strict).andThen fun keyValue hkeyValue => ?_
      refine (Refines.ofRefusal (P := S.key) fun key hkey => S.toKey hkeyValue hkey).andThen
        fun key hkey => ?_
      exact ih hrest (S.set htable hkey helement)

/-- Further conditions are followed if the two runs decide alike whether to go on after one has
    held. -/
theorem Refines.evalElseIfs {elseIfs : List (ElseIf Node)} {found : Bool}
    (hswitch : c₁.shortCircuitElseIf = c₂.shortCircuitElseIf)
    (h : ∀ node ∈ Form.elseIfNodes elseIfs, S.Follows c₁ d₁ c₂ d₂ node) :
    S.Refines (fun _ => True) (WebScript.evalElseIfs c₁ d₁ found elseIfs)
      (WebScript.evalElseIfs c₂ d₂ found elseIfs) := by
  induction elseIfs generalizing found with
  | nil =>
    rw [WebScript.evalElseIfs, WebScript.evalElseIfs]
    exact Refines.ofValue trivial
  | cons clause rest ih =>
    obtain ⟨line, cond, body⟩ := clause
    have hrest : ∀ node ∈ Form.elseIfNodes rest, S.Follows c₁ d₁ c₂ d₂ node :=
      fun node hnode => h node (List.mem_append_right _ hnode)
    have hcond := h cond (List.mem_append_left _ List.mem_cons_self)
    have hbody : ∀ node ∈ body, S.Follows c₁ d₁ c₂ d₂ node :=
      fun node hnode => h node (List.mem_append_left _ (List.mem_cons_of_mem _ hnode))
    rw [WebScript.evalElseIfs, WebScript.evalElseIfs, hswitch]
    refine Refines.ite (fun _ => Refines.ofValue trivial) fun _ => ?_
    refine (hcond.eval .strict).andThen fun value _ => ?_
    refine Refines.ite (fun _ => ?_) fun _ => ih hrest
    exact (Refines.evalBlock hbody).andThen fun _ _ => ih hrest

/-- A loop over the same entries is followed if its body is and its variables may be bound. -/
theorem Refines.forEntries {valueVar : String} {keyVar : Option String} {body₁ body₂ : Eval Unit}
    {entries : List (Key × Value)} (hvalueVar : S.bindable valueVar)
    (hkeyVar : ∀ name, keyVar = some name → S.bindable name)
    (hbody : S.Refines (fun _ => True) body₁ body₂)
    (hentries : ∀ entry ∈ entries, S.key entry.1 ∧ S.value entry.2) :
    S.Refines (fun _ => True) (Eval.forEntries valueVar keyVar body₁ entries)
      (Eval.forEntries valueVar keyVar body₂ entries) := by
  induction entries with
  | nil =>
    rw [Eval.forEntries, Eval.forEntries]
    exact Refines.ofValue trivial
  | cons entry rest ih =>
    obtain ⟨key, value⟩ := entry
    obtain ⟨hkey, hvalue⟩ := hentries (key, value) List.mem_cons_self
    have hrest := ih fun entry hentry => hentries entry (List.mem_cons_of_mem _ hentry)
    rw [Eval.forEntries, Eval.forEntries]
    refine (Refines.setVariable hvalueVar hvalue).andThen fun _ _ => ?_
    cases keyVar with
    | none => exact hbody.andThen fun _ _ => hrest
    | some name =>
      refine (Refines.setVariable (hkeyVar name rfl) (S.ofKey hkey)).andThen fun _ _ => ?_
      exact hbody.andThen fun _ _ => hrest

/-- The keys of a target are evaluated alike if its parts are, whatever its kind. -/
theorem Refines.evalKeys {node : Node} (h : ∀ part ∈ node.parts, S.Follows c₁ d₁ c₂ d₂ part) :
    S.Refines (S.targetPath node) (node.evalKeys c₁ d₁) (node.evalKeys c₂ d₂) := by
  obtain ⟨line, form⟩ := node
  cases form with
  | index base dim =>
    have hbase : S.Follows c₁ d₁ c₂ d₂ base := h base List.mem_cons_self
    cases dim with
    | none =>
      rw [Node.evalKeys, Node.evalKeys]
      refine hbase.keys.andThen fun keys hkeys => Refines.ofValue ⟨fun key hkey => ?_, nofun⟩
      exact hkeys.1 key (by simpa using hkey)
    | some dim =>
      have hdim : S.Follows c₁ d₁ c₂ d₂ dim :=
        h dim (List.mem_cons_of_mem _ List.mem_cons_self)
      rw [Node.evalKeys, Node.evalKeys]
      refine hbase.keys.andThen fun keys hkeys => ?_
      refine (hdim.eval .strict).andThen fun value hvalue => ?_
      refine (Refines.ofRefusal (P := S.key) fun key hkey => S.toKey hvalue hkey).andThen
        fun last hlast => Refines.ofValue ⟨fun key hkey => ?_, fun happend hnone => ?_⟩
      · rcases List.mem_append.mp hkey with hkey | hkey
        · exact hkeys.1 key hkey
        · cases List.mem_singleton.mp hkey
          exact hlast
      · rcases List.mem_append.mp hnone with hnone | hnone
        · exact hkeys.2 happend hnone
        · cases List.mem_singleton.mp hnone
  | _ =>
    rw [Node.evalKeys, Node.evalKeys]
    · exact Refines.ofValue ⟨fun key hkey => (by cases hkey), fun _ hnone => by cases hnone⟩
    all_goals nofun

/-! ## Kinds of nodes that ask neither the configuration nor what lies outside -/

theorem Refines.echo {exprs : List Node} (h : ∀ expr ∈ exprs, S.Follows c₁ d₁ c₂ d₂ expr)
    (reading : Reading) (line : Option Int) :
    S.Refines S.value (Node.evalAs c₁ d₁ reading ⟨line, .echo exprs⟩)
      (Node.evalAs c₂ d₂ reading ⟨line, .echo exprs⟩) := by
  rw [Node.evalAs, Node.evalAs]
  refine Refines.located line ((Refines.evalList h).andThen fun values _ => ?_)
  refine (Refines.ofNoted (P := fun _ => True) fun _ _ => trivial).andThen fun text _ => ?_
  exact (Refines.write text).andThen fun _ _ => Refines.ofValue S.null

theorem Refines.elseIf {cond : Node} {body : List Node}
    (h : ∀ node ∈ body, S.Follows c₁ d₁ c₂ d₂ node) (reading : Reading) (line : Option Int) :
    S.Refines S.value (Node.evalAs c₁ d₁ reading ⟨line, .elseIf cond body⟩)
      (Node.evalAs c₂ d₂ reading ⟨line, .elseIf cond body⟩) := by
  rw [Node.evalAs, Node.evalAs]
  exact Refines.located line ((Refines.evalBlock h).andThen fun _ _ => Refines.ofValue S.null)

theorem Refines.otherwise {body : List Node} (h : ∀ node ∈ body, S.Follows c₁ d₁ c₂ d₂ node)
    (reading : Reading) (line : Option Int) :
    S.Refines S.value (Node.evalAs c₁ d₁ reading ⟨line, .otherwise body⟩)
      (Node.evalAs c₂ d₂ reading ⟨line, .otherwise body⟩) := by
  rw [Node.evalAs, Node.evalAs]
  exact Refines.located line ((Refines.evalBlock h).andThen fun _ _ => Refines.ofValue S.null)

/-- Both runs go over the same array, which is evaluated once. -/
theorem Refines.foreach {expr : Node} {valueVar : String} {body : List Node}
    {keyVar : Option String} (hexpr : S.Follows c₁ d₁ c₂ d₂ expr)
    (hbody : ∀ node ∈ body, S.Follows c₁ d₁ c₂ d₂ node) (hvalueVar : S.bindable valueVar)
    (hkeyVar : ∀ name, keyVar = some name → S.bindable name) (reading : Reading)
    (line : Option Int) :
    S.Refines S.value (Node.evalAs c₁ d₁ reading ⟨line, .foreach expr valueVar body keyVar⟩)
      (Node.evalAs c₂ d₂ reading ⟨line, .foreach expr valueVar body keyVar⟩) := by
  rw [Node.evalAs, Node.evalAs]
  refine Refines.located line ((hexpr.eval .strict).andThen fun value hvalue => ?_)
  cases value with
  | array table =>
    have hentries : ∀ entry ∈ table.entries, S.key entry.1 ∧ S.value entry.2 :=
      fun entry hentry => S.entry hvalue hentry
    have hloop := Refines.forEntries hvalueVar hkeyVar (Refines.evalBlock hbody) hentries
    exact hloop.andThen fun _ _ => Refines.ofValue S.null
  | _ =>
    exact (Refines.raise (P := fun _ => True) _).andThen fun _ _ => Refines.ofValue S.null

/-- A declaration is followed if functions may be added to related machines. -/
theorem Refines.functionDecl {name : String} {params : List (Param Node)} {body : List Node}
    (h : ∀ m₁ m₂, S.rel m₁ m₂ →
      S.rel (m₁.withFunction ⟨name, params, body⟩) (m₂.withFunction ⟨name, params, body⟩))
    (reading : Reading) (line : Option Int) :
    S.Refines S.value (Node.evalAs c₁ d₁ reading ⟨line, .functionDecl name params body⟩)
      (Node.evalAs c₂ d₂ reading ⟨line, .functionDecl name params body⟩) := by
  have hdefine : S.Refines S.value
      (do
        modify fun machine =>
          { machine with functions := machine.functions.define ⟨name, params, body⟩ }
        pure .null)
      (do
        modify fun machine =>
          { machine with functions := machine.functions.define ⟨name, params, body⟩ }
        pure .null) :=
    fun m₁ m₂ hrel => .ok (h m₁ m₂ hrel) S.null
  rw [Node.evalAs, Node.evalAs]
  refine Refines.located line fun m₁ m₂ hrel => ?_
  simp only [bind, EStateM.bind, get, getThe, MonadStateOf.get, EStateM.get]
  rw [← S.rel_functions hrel]
  by_cases hknown : m₁.functions.contains name
  · simp only [hknown, if_true]
    exact (Refines.report (.functionRedeclared name)).andThen
      (fun _ _ => hdefine) m₁ m₂ hrel
  · simp only [hknown]
    exact hdefine m₁ m₂ hrel

theorem Refines.arrayLiteral {items : List (ArrayItem Node)}
    (h : ∀ node ∈ Form.itemNodes items, S.Follows c₁ d₁ c₂ d₂ node) (reading : Reading)
    (line : Option Int) :
    S.Refines S.value (Node.evalAs c₁ d₁ reading ⟨line, .arrayLiteral items⟩)
      (Node.evalAs c₂ d₂ reading ⟨line, .arrayLiteral items⟩) := by
  rw [Node.evalAs, Node.evalAs]
  exact Refines.located line
    ((Refines.evalItems h S.empty).andThen fun table htable => Refines.ofValue htable)

theorem Refines.unary {op : UnaryOperator} {operand : Node}
    (h : S.Follows c₁ d₁ c₂ d₂ operand) (reading : Reading) (line : Option Int) :
    S.Refines S.value (Node.evalAs c₁ d₁ reading ⟨line, .unary op operand⟩)
      (Node.evalAs c₂ d₂ reading ⟨line, .unary op operand⟩) := by
  rw [Node.evalAs, Node.evalAs]
  refine Refines.located line ((h.eval .strict).andThen fun value hvalue => ?_)
  exact Refines.ofNoted fun result hresult => S.unary hvalue hresult

theorem Refines.variable {name : String} (h : S.readable name) (reading : Reading)
    (line : Option Int) :
    S.Refines S.value (Node.evalAs c₁ d₁ reading ⟨line, .variable name⟩)
      (Node.evalAs c₂ d₂ reading ⟨line, .variable name⟩) := by
  cases reading with
  | strict =>
    rw [Node.evalAs, Node.evalAs]
    exact Refines.located line (Refines.readVariable h)
  | lenient =>
    rw [Node.evalAs, Node.evalAs]
    exact Refines.readOrNull h

theorem Refines.constant (name : String) (reading : Reading) (line : Option Int) :
    S.Refines S.value (Node.evalAs c₁ d₁ reading ⟨line, .constant name⟩)
      (Node.evalAs c₂ d₂ reading ⟨line, .constant name⟩) := by
  rw [Node.evalAs, Node.evalAs]
  refine Refines.located line ?_
  cases hconstant : constant? name with
  | none => exact Refines.raise _
  | some value => exact Refines.ofValue (S.value_constant? hconstant)

theorem Refines.indexNone {base : Node} (h : S.Follows c₁ d₁ c₂ d₂ base) (reading : Reading)
    (line : Option Int) :
    S.Refines S.value (Node.evalAs c₁ d₁ reading ⟨line, .index base none⟩)
      (Node.evalAs c₂ d₂ reading ⟨line, .index base none⟩) := by
  rw [Node.evalAs, Node.evalAs]
  exact Refines.located line ((h.eval .strict).andThen fun _ _ => Refines.raise _)

/-- Reading an element is followed in either way of reading its base. -/
theorem Refines.indexSome {base dim : Node} (hbase : S.Follows c₁ d₁ c₂ d₂ base)
    (hdim : S.Follows c₁ d₁ c₂ d₂ dim) (reading : Reading) (line : Option Int) :
    S.Refines S.value (Node.evalAs c₁ d₁ reading ⟨line, .index base (some dim)⟩)
      (Node.evalAs c₂ d₂ reading ⟨line, .index base (some dim)⟩) := by
  cases reading with
  | strict =>
    rw [Node.evalAs, Node.evalAs]
    refine Refines.located line ((hbase.eval .strict).andThen fun baseValue hbaseValue => ?_)
    refine (hdim.eval .strict).andThen fun dimValue _ => ?_
    exact Refines.ofRefusal fun v hv => S.element hbaseValue hv
  | lenient =>
    rw [Node.evalAs, Node.evalAs]
    refine (hbase.eval .lenient).andThen fun baseValue hbaseValue => ?_
    refine (hdim.eval .strict).andThen fun dimValue _ => ?_
    exact Refines.ofRefusal fun v hv => S.elementOrNull hbaseValue hv

theorem Refines.arg {value : Node} (h : S.Follows c₁ d₁ c₂ d₂ value) (reading : Reading)
    (line : Option Int) :
    S.Refines S.value (Node.evalAs c₁ d₁ reading ⟨line, .arg value⟩)
      (Node.evalAs c₂ d₂ reading ⟨line, .arg value⟩) := by
  rw [Node.evalAs, Node.evalAs]
  exact Refines.located line (h.eval .strict)

/-! ### Assignments -/

/-- Evaluating the root of a target finds the variable that stands there. -/
theorem root?_of_targetRoot {target : Node} {name : String} (h : target.targetRoot = .ok name) :
    target.root? = some name := by
  have hchecked : ∀ {found : String},
      (if found = reservedName then .error (.reservedName found) else pure found :
        Except Cause String) = .ok name → found = name := by
    intro found h
    split at h
    · cases h
    · cases h
      rfl
  obtain ⟨line, form⟩ := target
  unfold Node.targetRoot at h
  cases form with
  | «variable» found =>
    rw [Node.root?]
    exact congrArg some (hchecked h)
  | index base dim =>
    simp only at h
    split at h
    · rename_i found hroot
      rw [hroot]
      exact congrArg some (hchecked h)
    · cases h
  | _ => cases h

theorem Refines.targetRoot (target : Node) :
    S.Refines (fun name => target.root? = some name) (Eval.ofCause target.targetRoot)
      (Eval.ofCause target.targetRoot) :=
  Refines.ofCause fun _ hname => root?_of_targetRoot hname

/-- An assignment is followed if its root may be bound: the keys, the value and the write follow one
    another. -/
theorem Refines.assign {target expr : Node} (htarget : S.Follows c₁ d₁ c₂ d₂ target)
    (hexpr : S.Follows c₁ d₁ c₂ d₂ expr)
    (hname : ∀ name, target.root? = some name → S.bindable name) (reading : Reading)
    (line : Option Int) :
    S.Refines S.value (Node.evalAs c₁ d₁ reading ⟨line, .assign target expr⟩)
      (Node.evalAs c₂ d₂ reading ⟨line, .assign target expr⟩) := by
  rw [Node.evalAs, Node.evalAs]
  refine Refines.located line ((Refines.targetRoot target).andThen fun name hroot => ?_)
  refine htarget.keys.andThen fun keys hkeys => ?_
  refine (hexpr.eval .strict).andThen fun value hvalue => ?_
  exact (Refines.writeElement (hname name hroot) hkeys.1 hvalue).andThen
    fun _ _ => Refines.ofValue hvalue

/-- Combining the current element with a value and writing the result. -/
theorem Refines.update {op : BinaryOperator} {name : String} {keys : List (Option Key)}
    {current right : Value} (hname : S.bindable name) (hkeys : S.path keys)
    (hcurrent : S.value current) (hright : S.value right) :
    S.Refines S.value
      (do
        let value ← Eval.ofNoted (op.apply current right)
        Eval.writeElement name keys value
        pure value)
      (do
        let value ← Eval.ofNoted (op.apply current right)
        Eval.writeElement name keys value
        pure value) := by
  refine (Refines.ofNoted (P := S.value) fun v hv => S.binary hcurrent hright hv).andThen
    fun value hvalue => ?_
  exact (Refines.writeElement hname hkeys hvalue).andThen fun _ _ => Refines.ofValue hvalue

/-- The part of a compound assignment up to its keys is the same for all operators. -/
theorem Refines.compoundAssign {op : BinaryOperator} {target expr : Node}
    (htarget : S.Follows c₁ d₁ c₂ d₂ target)
    (hname : ∀ name, target.root? = some name → S.bindable name)
    (hcoalesce : op = .coalesce → ∀ name path, S.bindable name → S.path path → none ∉ path →
      S.Refines S.value
        (do
          let current ← Eval.readElement true name (path.filterMap id)
          if c₁.shortCircuit && !current.isNull then pure current
          else
            let right ← expr.evalAs c₁ d₁ .strict
            let value ← Eval.ofNoted (op.apply current right)
            Eval.writeElement name path value
            pure value)
        (do
          let current ← Eval.readElement true name (path.filterMap id)
          if c₂.shortCircuit && !current.isNull then pure current
          else
            let right ← expr.evalAs c₂ d₂ .strict
            let value ← Eval.ofNoted (op.apply current right)
            Eval.writeElement name path value
            pure value))
    (hexpr : S.Follows c₁ d₁ c₂ d₂ expr) (reading : Reading) (line : Option Int) :
    S.Refines S.value (Node.evalAs c₁ d₁ reading ⟨line, .compoundAssign op target expr⟩)
      (Node.evalAs c₂ d₂ reading ⟨line, .compoundAssign op target expr⟩) := by
  rw [Node.evalAs, Node.evalAs]
  refine Refines.located line ((Refines.targetRoot target).andThen fun name hroot => ?_)
  refine Refines.ite (fun _ => (Refines.raise (P := fun _ => False) _).andThen fun _ h => h.elim)
    fun happend => ?_
  refine htarget.keys.andThen fun path hpath => ?_
  obtain ⟨hpath, hnone⟩ := hpath
  have hnone := hnone (Bool.not_eq_true _ ▸ happend)
  refine Refines.ite (fun hop => hcoalesce hop name path (hname name hroot) hpath hnone) fun _ => ?_
  refine (hexpr.eval .strict).andThen fun right hright => ?_
  refine (Refines.readElement (S.readable_of_bindable (hname name hroot))).andThen
    fun current hcurrent => ?_
  exact Refines.update (hname name hroot) hpath hcurrent hright

/-! ## Kinds of nodes that ask the configuration or what lies outside -/

/-- A `return` is followed if both runs treat it alike. -/
theorem Refines.ret {expr : Option Node} (hswitch : c₁.propagateReturn = c₂.propagateReturn)
    (h : ∀ node, expr = some node → S.Follows c₁ d₁ c₂ d₂ node) (reading : Reading)
    (line : Option Int) :
    S.Refines S.value (Node.evalAs c₁ d₁ reading ⟨line, .ret expr⟩)
      (Node.evalAs c₂ d₂ reading ⟨line, .ret expr⟩) := by
  have hreturn : ∀ value, S.value value → S.Refines S.value
      (if c₁.propagateReturn then throw (.returned value) else pure value)
      (if c₂.propagateReturn then throw (.returned value) else pure value) := by
    intro value hvalue
    rw [hswitch]
    refine Refines.ite (fun _ => Refines.ofExit fun v hv => ?_) fun _ => Refines.ofValue hvalue
    cases hv
    exact hvalue
  cases expr with
  | none =>
    rw [Node.evalAs, Node.evalAs]
    exact Refines.located line (hreturn .null S.null)
  | some node =>
    rw [Node.evalAs, Node.evalAs]
    exact Refines.located line (((h node rfl).eval .strict).andThen hreturn)

/-- Both runs take the same branch of an `if`. -/
theorem Refines.conditional {cond : Node} {body : List Node} {elseIfs : List (ElseIf Node)}
    {last : Option (Else Node)} (hcond : S.Follows c₁ d₁ c₂ d₂ cond)
    (hbody : ∀ node ∈ body, S.Follows c₁ d₁ c₂ d₂ node)
    (helseIfs : S.Refines (fun _ => True) (WebScript.evalElseIfs c₁ d₁ false elseIfs)
      (WebScript.evalElseIfs c₂ d₂ false elseIfs))
    (hlast : ∀ node ∈ Form.otherwiseNodes last, S.Follows c₁ d₁ c₂ d₂ node) (reading : Reading)
    (line : Option Int) :
    S.Refines S.value (Node.evalAs c₁ d₁ reading ⟨line, .conditional cond body elseIfs last⟩)
      (Node.evalAs c₂ d₂ reading ⟨line, .conditional cond body elseIfs last⟩) := by
  have hblock : ∀ {nodes : List Node}, (∀ node ∈ nodes, S.Follows c₁ d₁ c₂ d₂ node) →
      S.Refines S.value (do WebScript.evalBlock c₁ d₁ nodes; pure .null)
        (do WebScript.evalBlock c₂ d₂ nodes; pure .null) :=
    fun hnodes => (Refines.evalBlock hnodes).andThen fun _ _ => Refines.ofValue S.null
  rw [Node.evalAs, Node.evalAs]
  refine Refines.located line ((hcond.eval .strict).andThen fun value _ => ?_)
  refine Refines.ite (fun _ => hblock hbody) fun _ => ?_
  refine helseIfs.andThen fun found _ => ?_
  cases last with
  | none => exact Refines.ofValue S.null
  | some clause =>
    exact Refines.ite (fun _ => Refines.ofValue S.null) fun _ => hblock hlast

/-- Both runs find the same left operand null, and so skip the right one together or not at all. -/
theorem Refines.coalesce {left right : Node} (hswitch : c₁.shortCircuit = c₂.shortCircuit)
    (hleft : S.Follows c₁ d₁ c₂ d₂ left) (hright : S.Follows c₁ d₁ c₂ d₂ right)
    (reading : Reading) (line : Option Int) :
    S.Refines S.value (Node.evalAs c₁ d₁ reading ⟨line, .binary .coalesce left right⟩)
      (Node.evalAs c₂ d₂ reading ⟨line, .binary .coalesce left right⟩) := by
  rw [Node.evalAs, Node.evalAs, hswitch]
  refine Refines.located line ((hleft.eval .lenient).andThen fun leftValue hleftValue => ?_)
  refine Refines.ite (fun _ => Refines.ofValue hleftValue) fun _ => ?_
  refine (hright.eval .strict).andThen fun rightValue hrightValue => ?_
  exact Refines.ofNoted fun v hv => S.binary hleftValue hrightValue hv

/-- An operator other than `??`, if the two runs agree on when its right operand is evaluated. -/
theorem Refines.binary {op : BinaryOperator} {left right : Node} (hop : op ≠ .coalesce)
    (hswitch : ∀ v, (if c₁.shortCircuit then op.decided? v else none) =
      if c₂.shortCircuit then op.decided? v else none)
    (hleft : S.Follows c₁ d₁ c₂ d₂ left) (hright : S.Follows c₁ d₁ c₂ d₂ right)
    (reading : Reading) (line : Option Int) :
    S.Refines S.value (Node.evalAs c₁ d₁ reading ⟨line, .binary op left right⟩)
      (Node.evalAs c₂ d₂ reading ⟨line, .binary op left right⟩) := by
  rw [Node.evalAs, Node.evalAs]
  · refine Refines.located line ((hleft.eval .strict).andThen fun leftValue hleftValue => ?_)
    rw [hswitch leftValue]
    cases hdecided : (if c₂.shortCircuit then op.decided? leftValue else none) with
    | some value =>
      split at hdecided
      · exact Refines.ofValue (S.value_decided? hdecided)
      · cases hdecided
    | none =>
      refine (hright.eval .strict).andThen fun rightValue hrightValue => ?_
      exact Refines.ofNoted fun v hv => S.binary hleftValue hrightValue hv
  all_goals exact hop

/-- Both runs find the same current value null, and so write or leave it together. -/
theorem Refines.updateUnlessNull {expr : Node} {op : BinaryOperator} {name : String}
    {path : List (Option Key)} (hswitch : c₁.shortCircuit = c₂.shortCircuit)
    (hexpr : S.Follows c₁ d₁ c₂ d₂ expr) (hname : S.bindable name) (hpath : S.path path) :
    S.Refines S.value
      (do
        let current ← Eval.readElement true name (path.filterMap id)
        if c₁.shortCircuit && !current.isNull then pure current
        else
          let right ← expr.evalAs c₁ d₁ .strict
          let value ← Eval.ofNoted (op.apply current right)
          Eval.writeElement name path value
          pure value)
      (do
        let current ← Eval.readElement true name (path.filterMap id)
        if c₂.shortCircuit && !current.isNull then pure current
        else
          let right ← expr.evalAs c₂ d₂ .strict
          let value ← Eval.ofNoted (op.apply current right)
          Eval.writeElement name path value
          pure value) := by
  rw [hswitch]
  refine (Refines.readElement (S.readable_of_bindable hname)).andThen fun current hcurrent => ?_
  refine Refines.ite (fun _ => Refines.ofValue hcurrent) fun _ => ?_
  refine (hexpr.eval .strict).andThen fun right hright => ?_
  exact Refines.update hname hpath hcurrent hright

/-- An inclusion is followed if the files that it may include are. -/
theorem Refines.require {path : Node} {once fatal : Bool} (hpath : S.Follows c₁ d₁ c₂ d₂ path)
    (hinclude : ∀ text, S.Refines S.value (includeFile d₁ text once fatal)
      (includeFile d₂ text once fatal)) (reading : Reading) (line : Option Int) :
    S.Refines S.value (Node.evalAs c₁ d₁ reading ⟨line, .require path once fatal⟩)
      (Node.evalAs c₂ d₂ reading ⟨line, .require path once fatal⟩) := by
  rw [Node.evalAs, Node.evalAs]
  refine Refines.located line ((hpath.eval .strict).andThen fun value _ => ?_)
  exact (Refines.ofNoted (P := fun _ => True) fun _ _ => trivial).andThen
    fun text _ => hinclude text

/-- A call is followed if the arguments are and the functions that it may find are. -/
theorem Refines.call {name : String} {args : List Node}
    (hargs : ∀ arg ∈ args, S.Follows c₁ d₁ c₂ d₂ arg)
    (hcall : ∀ m₁ m₂ function values, S.rel m₁ m₂ → m₁.functions.lookup? name = some function →
      (∀ v ∈ values, S.value v) → S.Refines S.value (callFunction d₁ c₁ function values)
        (callFunction d₂ c₂ function values)) (reading : Reading) (line : Option Int) :
    S.Refines S.value (Node.evalAs c₁ d₁ reading ⟨line, .call name args⟩)
      (Node.evalAs c₂ d₂ reading ⟨line, .call name args⟩) := by
  rw [Node.evalAs, Node.evalAs]
  refine Refines.located line fun m₁ m₂ hrel => ?_
  simp only [bind, EStateM.bind, get, getThe, MonadStateOf.get, EStateM.get]
  rw [← S.rel_functions hrel]
  cases hfunction : m₁.functions.lookup? name with
  | none =>
    exact (Refines.report _).andThen (fun _ _ => Refines.ofValue S.null) m₁ m₂ hrel
  | some function =>
    exact (Refines.evalList hargs).andThen
      (fun values hvalues => hcall m₁ m₂ function values hrel hfunction hvalues) m₁ m₂ hrel

/-- Where calls and inclusions nest too deep, both runs end alike. -/
theorem Refines.tooDeep (node : Node) :
    S.Refines S.value (evalWithin c₁ 0 node) (evalWithin c₂ 0 node) := by
  intro m₁ m₂ hrel
  show S.Outcomes S.value (Eval.raise (.stackOverflow m₁.callDepth) m₁)
    (Eval.raise (.stackOverflow m₂.callDepth) m₂)
  rw [S.rel_callDepth hrel]
  exact Refines.raise _ m₁ m₂ hrel

end Simulation

/-! ## All nodes -/

/-- Kinds of nodes whose evaluation asks the configuration or leads to what lies outside them. -/
def Form.asks {ν : Type} : Form ν → Bool
  | .ret _ | .conditional .. | .binary .. | .compoundAssign .. | .call .. | .require .. => true
  | _ => false

namespace Simulation

variable {S : Simulation} {c₁ : Config} {d₁ : Node → Eval Value} {c₂ : Config}
  {d₂ : Node → Eval Value} {node : Node → Prop}

/-- All admitted nodes are followed if those are that ask the configuration. -/
theorem follows_of_asking (hadmits : S.Admits node)
    (hasking : ∀ whole, node whole → whole.form.asks = true →
      (∀ part ∈ whole.parts, S.Follows c₁ d₁ c₂ d₂ part) → ∀ reading,
        S.Refines S.value (whole.evalAs c₁ d₁ reading) (whole.evalAs c₂ d₂ reading))
    (whole : Node) (hwhole : node whole) : S.Follows c₁ d₁ c₂ d₂ whole := by
  induction whole using Node.inductionOnChildren with
  | step whole ih =>
    have hparts : ∀ part ∈ whole.parts, S.Follows c₁ d₁ c₂ d₂ part := fun part hpart =>
      ih part (Form.parts_subset_children _ hpart) (hadmits.part hwhole hpart)
    refine ⟨fun reading => ?_, Refines.evalKeys hparts⟩
    obtain ⟨line, form⟩ := whole
    cases form with
    | ret | conditional | binary | compoundAssign | call | require =>
      exact hasking _ hwhole rfl hparts reading
    | echo exprs => exact Refines.echo hparts reading line
    | nop =>
      rw [Node.evalAs, Node.evalAs]
      exact Refines.ofValue S.null
    | elseIf cond body =>
      exact Refines.elseIf (fun node hnode => hparts node (List.mem_cons_of_mem _ hnode)) reading
        line
    | otherwise body => exact Refines.otherwise hparts reading line
    | foreach expr valueVar body keyVar =>
      refine Refines.foreach (hparts expr List.mem_cons_self)
        (fun node hnode => hparts node (List.mem_cons_of_mem _ hnode)) (hadmits.valueVar hwhole)
        (fun name hname => ?_) reading line
      subst hname
      exact hadmits.keyVar hwhole
    | param | arrayItem | bare =>
      rw [Node.evalAs, Node.evalAs]
      exact Refines.located line (Refines.raise _)
    | functionDecl name params body =>
      exact Refines.functionDecl (fun m₁ m₂ hrel => hadmits.function hwhole hrel) reading line
    | str value =>
      rw [Node.evalAs, Node.evalAs]
      exact Refines.ofValue (S.str value)
    | int value =>
      rw [Node.evalAs, Node.evalAs]
      exact Refines.ofValue (hadmits.int hwhole)
    | float value =>
      rw [Node.evalAs, Node.evalAs]
      exact Refines.ofValue (S.float value)
    | arrayLiteral items => exact Refines.arrayLiteral hparts reading line
    | unary op operand => exact Refines.unary (hparts operand List.mem_cons_self) reading line
    | «variable» name => exact Refines.variable (hadmits.readable hwhole) reading line
    | constant name => exact Refines.constant name reading line
    | index base dim =>
      cases dim with
      | none => exact Refines.indexNone (hparts base List.mem_cons_self) reading line
      | some dim =>
        exact Refines.indexSome (hparts base List.mem_cons_self)
          (hparts dim (List.mem_cons_of_mem _ List.mem_cons_self)) reading line
    | assign target expr =>
      exact Refines.assign (hparts target List.mem_cons_self)
        (hparts expr (List.mem_cons_of_mem _ List.mem_cons_self))
        (fun name hroot => hadmits.assign hwhole hroot) reading line
    | arg value => exact Refines.arg (hparts value List.mem_cons_self) reading line

/-- All admitted nodes are followed if the configurations agree on the switches that nodes ask, and
    calls and inclusions are followed. -/
theorem follows_of_agree (hadmits : S.Admits node)
    (hreturn : ∀ line expr, node ⟨line, .ret expr⟩ → c₁.propagateReturn = c₂.propagateReturn)
    (hshort : c₁.shortCircuit = c₂.shortCircuit)
    (helseIf : c₁.shortCircuitElseIf = c₂.shortCircuitElseIf)
    (hcall : ∀ line name args m₁ m₂ function values, node ⟨line, .call name args⟩ → S.rel m₁ m₂ →
      m₁.functions.lookup? name = some function → (∀ v ∈ values, S.value v) →
      S.Refines S.value (callFunction d₁ c₁ function values) (callFunction d₂ c₂ function values))
    (hinclude : ∀ line path once fatal text, node ⟨line, .require path once fatal⟩ →
      S.Refines S.value (includeFile d₁ text once fatal) (includeFile d₂ text once fatal))
    (whole : Node) (hwhole : node whole) : S.Follows c₁ d₁ c₂ d₂ whole := by
  refine follows_of_asking hadmits (fun whole hwhole hasks hparts reading => ?_) whole hwhole
  obtain ⟨line, form⟩ := whole
  cases form with
  | ret expr =>
    refine Refines.ret (hreturn line expr hwhole) (fun node hnode => ?_) reading line
    subst hnode
    exact hparts node List.mem_cons_self
  | conditional cond body elseIfs last =>
    have hpart : ∀ node, node ∈ cond :: body ++ Form.elseIfNodes elseIfs ++
        Form.otherwiseNodes last → S.Follows c₁ d₁ c₂ d₂ node := hparts
    refine Refines.conditional (hpart cond (by simp)) (fun node hnode => hpart node (by simp [hnode]))
      (Refines.evalElseIfs helseIf fun node hnode => hpart node (by simp [hnode]))
      (fun node hnode => hpart node (by simp [hnode])) reading line
  | binary op left right =>
    have hleft := hparts left List.mem_cons_self
    have hright := hparts right (List.mem_cons_of_mem _ List.mem_cons_self)
    by_cases hop : op = .coalesce
    · subst hop
      exact Refines.coalesce hshort hleft hright reading line
    · exact Refines.binary hop (fun v => by rw [hshort]) hleft hright reading line
  | compoundAssign op target expr =>
    have hexpr := hparts expr (List.mem_cons_of_mem _ List.mem_cons_self)
    exact Refines.compoundAssign (hparts target List.mem_cons_self)
      (fun name hroot => hadmits.compound hwhole hroot)
      (fun _ name path hname hpath _ => Refines.updateUnlessNull hshort hexpr hname hpath) hexpr
      reading line
  | call name args =>
    exact Refines.call hparts
      (fun m₁ m₂ function values hrel hfunction hvalues =>
        hcall line name args m₁ m₂ function values hwhole hrel hfunction hvalues) reading line
  | require path once fatal =>
    exact Refines.require (hparts path List.mem_cons_self)
      (fun text => hinclude line path once fatal text hwhole) reading line
  | _ => cases hasks

end Simulation

end WebScript
