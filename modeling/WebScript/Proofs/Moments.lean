import WebScript.Proofs.Nesting

/-!
# The moments of a run

Evaluation is a recursion, so the states through which a run passes are the machines on which the
evaluations inside it start and end. An `Activity` is anything that evaluation does by recursion, a
`Moment` is an activity about to begin on a machine, and `Starts` says which activities an activity
starts directly, and on which machine. A `ValueInvariant` then holds of all values at every moment of
a run.
-/

namespace WebScript

/-! ## Activities -/

/-- What evaluation does by recursion. -/
inductive Activity where
  | eval (reading : Reading) (node : Node)
  | keys (target : Node)
  | list (nodes : List Node)
  | block (nodes : List Node)
  | elseIfs (found : Bool) (clauses : List (ElseIf Node))
  /-- Adding elements of a literal to a table. -/
  | items (table : Table Value) (items : List (ArrayItem Node))
  /-- Running the body of a loop for the entries that are left. -/
  | loop (valueVar : String) (keyVar : Option String) (body : List Node)
    (entries : List (Key × Value))
  /-- Giving an element of a variable a value. -/
  | write (name : String) (keys : List (Option Key)) (value : Value)
  | call (function : Function) (args : List Value)
  /-- Giving the parameters that are left their values. -/
  | params (function : Function) (passed : Nat) (params : List (Param Node)) (args : List Value)
  /-- Running the statements of a function that are left. -/
  | body (nodes : List Node)
  | file (path : String) (once fatal : Bool)
  /-- Running the statements of a program or a file that are left. -/
  | statements (nodes : List Node)

/-- The values that an activity starts with. -/
def Activity.values : Activity → List Value
  | .items table _ => [.array table]
  | .loop _ _ _ entries => entries.map Prod.snd
  | .write _ _ value => [value]
  | .call _ args | .params _ _ _ args => args
  | _ => []

/-- Whether an activity works through a row of nodes or entries inside one node. -/
def Activity.isRow : Activity → Bool
  | .keys _ | .list _ | .block _ | .elseIfs .. | .items .. | .loop .. => true
  | _ => false

/-- Evaluates a node from which calls and inclusions may nest as deep as `depth`. -/
abbrev Node.evalAt (config : Config) (depth : Nat) (reading : Reading) (node : Node) : Eval Value :=
  node.evalAs config (evalWithin config depth) reading

/-- Does an activity; the result lists the values that it gives. -/
def Activity.run (config : Config) (depth : Nat) : Activity → Eval (List Value)
  | .eval reading node => do pure [← node.evalAt config depth reading]
  | .keys target => do
    let keys ← target.evalKeys config (evalWithin config depth)
    pure ((keys.filterMap id).map Key.toValue)
  | .list nodes => evalList config (evalWithin config depth) nodes
  | .block nodes => do
    evalBlock config (evalWithin config depth) nodes
    pure []
  | .elseIfs found clauses => do
    let _ ← evalElseIfs config (evalWithin config depth) found clauses
    pure []
  | .items table rest => do
    pure [.array (← evalItems config (evalWithin config depth) table rest)]
  | .loop valueVar keyVar nodes entries => do
    Eval.forEntries valueVar keyVar (evalBlock config (evalWithin config depth) nodes) entries
    pure []
  | .write name path value => do
    Eval.writeElement name path value
    pure []
  | .call function args => do pure [← callFunction (evalWithin config depth) config function args]
  | .params function passed rest args => do
    bindParams (evalWithin config depth) function passed rest args
    pure []
  | .body nodes => do pure (← runBody (evalWithin config depth) config nodes).toList
  | .file path once fatal => do
    pure [← includeFile (evalWithin config depth) path once fatal]
  | .statements nodes => do
    runStatements (evalWithin config depth) nodes
    pure []

/-- An activity about to begin on a machine; calls and inclusions may nest as deep as `depth`. -/
structure Moment where
  depth : Nat
  activity : Activity
  machine : Machine

/-! ## Moments inside moments -/

/-- The activity of the first moment directly starts that of the second. Where an activity does one
    thing after another, what comes later starts on the machine that the things before have left. -/
inductive Starts (config : Config) : Moment → Moment → Prop
  | echo : Starts config ⟨depth, .eval reading ⟨line, .echo exprs⟩, machine⟩
      ⟨depth, .list exprs, machine⟩
  | ret : Starts config ⟨depth, .eval reading ⟨line, .ret (some expr)⟩, machine⟩
      ⟨depth, .eval .strict expr, machine⟩
  | elseIf : Starts config ⟨depth, .eval reading ⟨line, .elseIf test body⟩, machine⟩
      ⟨depth, .block body, machine⟩
  | otherwise : Starts config ⟨depth, .eval reading ⟨line, .otherwise body⟩, machine⟩
      ⟨depth, .block body, machine⟩
  | condition :
    Starts config ⟨depth, .eval reading ⟨line, .conditional test body clauses last⟩, machine⟩
      ⟨depth, .eval .strict test, machine⟩
  | whenTrue (hcond : test.evalAt config depth .strict machine = .ok value after)
    (hvalue : value.isTruthy = true) :
    Starts config ⟨depth, .eval reading ⟨line, .conditional test body clauses last⟩, machine⟩
      ⟨depth, .block body, after⟩
  | whenFalse (hcond : test.evalAt config depth .strict machine = .ok value after)
    (hvalue : value.isTruthy = false) :
    Starts config ⟨depth, .eval reading ⟨line, .conditional test body clauses last⟩, machine⟩
      ⟨depth, .elseIfs false clauses, after⟩
  | whenNone (hcond : test.evalAt config depth .strict machine = .ok value tried)
    (hvalue : value.isTruthy = false)
    (hclauses : evalElseIfs config (evalWithin config depth) false clauses tried = .ok false after) :
    Starts config
      ⟨depth, .eval reading ⟨line, .conditional test body clauses (some last)⟩, machine⟩
      ⟨depth, .block last.body, after⟩
  | iterated :
    Starts config ⟨depth, .eval reading ⟨line, .foreach expr valueVar body keyVar⟩, machine⟩
      ⟨depth, .eval .strict expr, machine⟩
  | loop (hexpr : expr.evalAt config depth .strict machine = .ok (.array table) after) :
    Starts config ⟨depth, .eval reading ⟨line, .foreach expr valueVar body keyVar⟩, machine⟩
      ⟨depth, .loop valueVar keyVar body table.entries, after⟩
  | path : Starts config ⟨depth, .eval reading ⟨line, .require path once fatal⟩, machine⟩
      ⟨depth, .eval .strict path, machine⟩
  | inclusion
    (htext : (do Eval.ofNoted (← path.evalAt config depth .strict).text) machine = .ok text after) :
    Starts config ⟨depth, .eval reading ⟨line, .require path once fatal⟩, machine⟩
      ⟨depth, .file text once fatal, after⟩
  | literal : Starts config ⟨depth, .eval reading ⟨line, .arrayLiteral items⟩, machine⟩
      ⟨depth, .items .empty items, machine⟩
  | coalesced : Starts config ⟨depth, .eval reading ⟨line, .binary .coalesce left right⟩, machine⟩
      ⟨depth, .eval .lenient left, machine⟩
  | whenNull (hleft : left.evalAt config depth .lenient machine = .ok value after)
    (hvalue : (config.shortCircuit && !value.isNull) = false) :
    Starts config ⟨depth, .eval reading ⟨line, .binary .coalesce left right⟩, machine⟩
      ⟨depth, .eval .strict right, after⟩
  | left (hop : op ≠ .coalesce) :
    Starts config ⟨depth, .eval reading ⟨line, .binary op left right⟩, machine⟩
      ⟨depth, .eval .strict left, machine⟩
  | right (hop : op ≠ .coalesce) (hleft : left.evalAt config depth .strict machine = .ok value after)
    (hvalue : (if config.shortCircuit then op.decided? value else none) = none) :
    Starts config ⟨depth, .eval reading ⟨line, .binary op left right⟩, machine⟩
      ⟨depth, .eval .strict right, after⟩
  | operand : Starts config ⟨depth, .eval reading ⟨line, .unary op operand⟩, machine⟩
      ⟨depth, .eval .strict operand, machine⟩
  | appended : Starts config ⟨depth, .eval reading ⟨line, .index base none⟩, machine⟩
      ⟨depth, .eval .strict base, machine⟩
  | base : Starts config ⟨depth, .eval reading ⟨line, .index base (some dim)⟩, machine⟩
      ⟨depth, .eval reading base, machine⟩
  | dim (hbase : base.evalAt config depth reading machine = .ok value after) :
    Starts config ⟨depth, .eval reading ⟨line, .index base (some dim)⟩, machine⟩
      ⟨depth, .eval .strict dim, after⟩
  | assignKeys (hroot : target.targetRoot = .ok name) :
    Starts config ⟨depth, .eval reading ⟨line, .assign target expr⟩, machine⟩
      ⟨depth, .keys target, machine⟩
  | assigned (hroot : target.targetRoot = .ok name)
    (hkeys : target.evalKeys config (evalWithin config depth) machine = .ok keys after) :
    Starts config ⟨depth, .eval reading ⟨line, .assign target expr⟩, machine⟩
      ⟨depth, .eval .strict expr, after⟩
  | assignWrite (hroot : target.targetRoot = .ok name)
    (hkeys : target.evalKeys config (evalWithin config depth) machine = .ok keys keyed)
    (hexpr : expr.evalAt config depth .strict keyed = .ok value after) :
    Starts config ⟨depth, .eval reading ⟨line, .assign target expr⟩, machine⟩
      ⟨depth, .write name keys value, after⟩
  | updateKeys (hroot : target.targetRoot = .ok name) (happend : target.hasAppend = false) :
    Starts config ⟨depth, .eval reading ⟨line, .compoundAssign op target expr⟩, machine⟩
      ⟨depth, .keys target, machine⟩
  | updated (hroot : target.targetRoot = .ok name) (happend : target.hasAppend = false)
    (hkeys : target.evalKeys config (evalWithin config depth) machine = .ok keys after)
    (hop : op = .coalesce → ∃ current, Eval.readElement true name (keys.filterMap id) after =
      .ok current after ∧ (config.shortCircuit && !current.isNull) = false) :
    Starts config ⟨depth, .eval reading ⟨line, .compoundAssign op target expr⟩, machine⟩
      ⟨depth, .eval .strict expr, after⟩
  | updateWrite (hroot : target.targetRoot = .ok name) (happend : target.hasAppend = false)
    (hkeys : target.evalKeys config (evalWithin config depth) machine = .ok keys keyed)
    (hop : op ≠ .coalesce) (hexpr : expr.evalAt config depth .strict keyed = .ok right evaluated)
    (hcurrent : Eval.readElement false name (keys.filterMap id) evaluated = .ok current looked)
    (hvalue : Eval.ofNoted (op.apply current right) looked = .ok value after) :
    Starts config ⟨depth, .eval reading ⟨line, .compoundAssign op target expr⟩, machine⟩
      ⟨depth, .write name keys value, after⟩
  | coalesceWrite (hroot : target.targetRoot = .ok name) (happend : target.hasAppend = false)
    (hkeys : target.evalKeys config (evalWithin config depth) machine = .ok keys keyed)
    (hcurrent : Eval.readElement true name (keys.filterMap id) keyed = .ok current looked)
    (hnull : (config.shortCircuit && !current.isNull) = false)
    (hexpr : expr.evalAt config depth .strict looked = .ok right evaluated)
    (hvalue : Eval.ofNoted (BinaryOperator.coalesce.apply current right) evaluated =
      .ok value after) :
    Starts config ⟨depth, .eval reading ⟨line, .compoundAssign .coalesce target expr⟩, machine⟩
      ⟨depth, .write name keys value, after⟩
  | arg : Starts config ⟨depth, .eval reading ⟨line, .arg value⟩, machine⟩
      ⟨depth, .eval .strict value, machine⟩
  | args (hfunction : machine.functions.lookup? name = some function) :
    Starts config ⟨depth, .eval reading ⟨line, .call name args⟩, machine⟩
      ⟨depth, .list args, machine⟩
  | call (hfunction : machine.functions.lookup? name = some function)
    (hargs : evalList config (evalWithin config depth) args machine = .ok values after) :
    Starts config ⟨depth, .eval reading ⟨line, .call name args⟩, machine⟩
      ⟨depth, .call function values, after⟩
  | outerKeys : Starts config ⟨depth, .keys ⟨line, .index base dim⟩, machine⟩
      ⟨depth, .keys base, machine⟩
  | key (hbase : base.evalKeys config (evalWithin config depth) machine = .ok keys after) :
    Starts config ⟨depth, .keys ⟨line, .index base (some dim)⟩, machine⟩
      ⟨depth, .eval .strict dim, after⟩
  | listHead : Starts config ⟨depth, .list (node :: rest), machine⟩
      ⟨depth, .eval .strict node, machine⟩
  | listTail (hnode : node.evalAt config depth .strict machine = .ok value after) :
    Starts config ⟨depth, .list (node :: rest), machine⟩ ⟨depth, .list rest, after⟩
  | blockHead : Starts config ⟨depth, .block (node :: rest), machine⟩
      ⟨depth, .eval .strict node, machine⟩
  | blockTail (hnode : node.evalAt config depth .strict machine = .ok value after) :
    Starts config ⟨depth, .block (node :: rest), machine⟩ ⟨depth, .block rest, after⟩
  | clauseCondition (hfound : (found && config.shortCircuitElseIf) = false) :
    Starts config ⟨depth, .elseIfs found (clause :: rest), machine⟩
      ⟨depth, .eval .strict clause.cond, machine⟩
  | clauseBody (hfound : (found && config.shortCircuitElseIf) = false)
    (hcond : clause.cond.evalAt config depth .strict machine = .ok value after)
    (hvalue : (value.isTruthy && !found) = true) :
    Starts config ⟨depth, .elseIfs found (clause :: rest), machine⟩
      ⟨depth, .block clause.body, after⟩
  | clausesAfterBody (hfound : (found && config.shortCircuitElseIf) = false)
    (hcond : clause.cond.evalAt config depth .strict machine = .ok value holding)
    (hvalue : (value.isTruthy && !found) = true)
    (hbody : evalBlock config (evalWithin config depth) clause.body holding = .ok unit after) :
    Starts config ⟨depth, .elseIfs found (clause :: rest), machine⟩
      ⟨depth, .elseIfs true rest, after⟩
  | clausesAfterCondition (hfound : (found && config.shortCircuitElseIf) = false)
    (hcond : clause.cond.evalAt config depth .strict machine = .ok value after)
    (hvalue : (value.isTruthy && !found) = false) :
    Starts config ⟨depth, .elseIfs found (clause :: rest), machine⟩
      ⟨depth, .elseIfs found rest, after⟩
  | itemValue : Starts config ⟨depth, .items table (item :: rest), machine⟩
      ⟨depth, .eval .strict item.value, machine⟩
  | itemKey (hvalue : value.evalAt config depth .strict machine = .ok element after) :
    Starts config ⟨depth, .items table (⟨line, value, some key⟩ :: rest), machine⟩
      ⟨depth, .eval .strict key, after⟩
  | itemAppended (hvalue : value.evalAt config depth .strict machine = .ok element after) :
    Starts config ⟨depth, .items table (⟨line, value, none⟩ :: rest), machine⟩
      ⟨depth, .items (table.append element) rest, after⟩
  | itemSet (hvalue : value.evalAt config depth .strict machine = .ok element keyed)
    (hkey : key.evalAt config depth .strict keyed = .ok keyValue after)
    (htoKey : keyValue.toKey = .ok keyUsed) :
    Starts config ⟨depth, .items table (⟨line, value, some key⟩ :: rest), machine⟩
      ⟨depth, .items (table.set keyUsed element) rest, after⟩
  | loopBody
    (hbound : Eval.forEntries valueVar keyVar (pure ()) [entry] machine = .ok unit after) :
    Starts config ⟨depth, .loop valueVar keyVar body (entry :: rest), machine⟩
      ⟨depth, .block body, after⟩
  | loopRest
    (hbody : Eval.forEntries valueVar keyVar (evalBlock config (evalWithin config depth) body)
      [entry] machine = .ok unit after) :
    Starts config ⟨depth, .loop valueVar keyVar body (entry :: rest), machine⟩
      ⟨depth, .loop valueVar keyVar body rest, after⟩
  | callParams : Starts config ⟨depth, .call function args, machine⟩
      ⟨depth, .params function args.length function.params args,
        (machine.calling function args).entering⟩
  | callBody
    (hparams : bindParams (evalWithin config depth) function args.length function.params args
      (machine.calling function args).entering = .ok unit after) :
    Starts config ⟨depth, .call function args, machine⟩ ⟨depth, .body function.body, after⟩
  | paramDefault (hdefault : param.default = some fallback) :
    Starts config ⟨depth + 1, .params function passed (param :: rest) [], machine⟩
      ⟨depth, .eval .strict fallback, machine⟩
  | paramPassed (hbound : Eval.setVariable param.name arg machine = .ok unit after) :
    Starts config ⟨depth, .params function passed (param :: rest) (arg :: args), machine⟩
      ⟨depth, .params function passed rest args, after⟩
  | paramDefaulted (hdefault : param.default = some fallback)
    (hbound : bindDefault (evalWithin config depth) param.name fallback machine =
      .ok unit after) :
    Starts config ⟨depth, .params function passed (param :: rest) [], machine⟩
      ⟨depth, .params function passed rest [], after⟩
  | bodyHead : Starts config ⟨depth + 1, .body (node :: rest), machine⟩
      ⟨depth, .eval .strict node, machine⟩
  | bodyTail (hnode : evalWithin config depth node machine = .ok value after)
    (hreturn : (!config.propagateReturn && node.isReturn) = false) :
    Starts config ⟨depth, .body (node :: rest), machine⟩ ⟨depth, .body rest, after⟩
  | included (hload : Library.loadFrom machine.library path once =
      (.program resolved (.ok nodes), library)) :
    Starts config ⟨depth, .file path once fatal, machine⟩
      ⟨depth, .statements nodes, (machine.withLibrary library).withEvents
        [.included (requireKeyword once fatal) path nodes.length, .fileLoaded resolved]⟩
  | statementsHead : Starts config ⟨depth + 1, .statements (node :: rest), machine⟩
      ⟨depth, .eval .strict node, machine⟩
  | statementsTail (hnode : evalWithin config depth node machine = .ok value after) :
    Starts config ⟨depth, .statements (node :: rest), machine⟩ ⟨depth, .statements rest, after⟩

/-! ### The entries of a loop -/

/-- A loop binds its variables to the first entry, runs its body, and goes on. -/
theorem forEntries_cons (valueVar : String) (keyVar : Option String) (body : Eval Unit)
    (entry : Key × Value) (rest : List (Key × Value)) :
    Eval.forEntries valueVar keyVar body (entry :: rest) = (do
      Eval.forEntries valueVar keyVar (pure ()) [entry]
      body
      Eval.forEntries valueVar keyVar body rest) := by
  cases keyVar <;> simp [Eval.forEntries]

theorem forEntries_single {valueVar : String} {keyVar : Option String} {body : Eval Unit}
    {entry : Key × Value} {machine bound after : Machine}
    (hbound : Eval.forEntries valueVar keyVar (pure ()) [entry] machine = .ok () bound)
    (hbody : body bound = .ok () after) :
    Eval.forEntries valueVar keyVar body [entry] machine = .ok () after := by
  rw [forEntries_cons]
  simp only [bind, EStateM.bind, hbound, hbody]
  rfl

/-! ## What holds at every moment -/

section

variable (S : Simulation) (node : Node → Prop)

/-- An activity of which a simulation can say something: its nodes are admitted and its values and
    variables are as the simulation asks. -/
def Activity.Admitted : Activity → Prop
  | .eval _ inner | .keys inner => node inner
  | .list nodes | .block nodes | .body nodes | .statements nodes => ∀ inner ∈ nodes, node inner
  | .elseIfs _ clauses => ∀ inner ∈ Form.elseIfNodes clauses, node inner
  | .items table rest => S.value (.array table) ∧ ∀ inner ∈ Form.itemNodes rest, node inner
  | .loop valueVar keyVar nodes entries =>
    S.bindable valueVar ∧ (∀ name, keyVar = some name → S.bindable name) ∧
      (∀ inner ∈ nodes, node inner) ∧ ∀ entry ∈ entries, S.key entry.1 ∧ S.value entry.2
  | .write name path value => S.bindable name ∧ S.path path ∧ S.value value
  | .call function args =>
    (∀ param ∈ function.params, S.bindable param.name) ∧
      (∀ inner ∈ Form.paramNodes function.params ++ function.body, node inner) ∧
      ∀ v ∈ args, S.value v
  | .params _ _ rest args =>
    (∀ param ∈ rest, S.bindable param.name) ∧
      (∀ inner ∈ Form.paramNodes rest, node inner) ∧ ∀ v ∈ args, S.value v
  | .file .. => True

/-- A moment of which a simulation can say something. -/
def Moment.Admitted (moment : Moment) : Prop :=
  S.rel moment.machine moment.machine ∧ moment.activity.Admitted S node

end

namespace Simulation

variable {S : Simulation} {node : Node → Prop} {α : Type} {P : α → Prop}

theorem Refines.of_ok {action : Eval α} (h : S.Refines P action action) {machine after : Machine}
    {value : α} (hrel : S.rel machine machine) (hrun : action machine = .ok value after) :
    S.rel after after ∧ P value := by
  have hends := h machine machine hrel
  rw [hrun] at hends
  cases hends with
  | ok hafter hvalue => exact ⟨hafter, hvalue⟩

theorem Admits.conditional (hadmits : S.Admits node) {line : Option Int} {test : Node}
    {body : List Node} {clauses : List (ElseIf Node)} {last : Option (Else Node)}
    (h : node ⟨line, .conditional test body clauses last⟩) :
    node test ∧ (∀ inner ∈ body, node inner) ∧ (∀ inner ∈ Form.elseIfNodes clauses, node inner) ∧
      ∀ inner ∈ Form.otherwiseNodes last, node inner := by
  have hpart : ∀ inner ∈ test :: body ++ Form.elseIfNodes clauses ++ Form.otherwiseNodes last,
      node inner := fun inner => hadmits.part h
  simp only [List.mem_append, List.mem_cons] at hpart
  exact ⟨hpart test (Or.inl (Or.inl (Or.inl rfl))),
    fun inner hinner => hpart inner (Or.inl (Or.inl (Or.inr hinner))),
    fun inner hinner => hpart inner (Or.inl (Or.inr hinner)),
    fun inner hinner => hpart inner (Or.inr hinner)⟩

/-- The first of two parts, and the second. -/
theorem Admits.pair (hadmits : S.Admits node) {whole first second : Node} (h : node whole)
    (hparts : whole.parts = [first, second]) : node first ∧ node second :=
  ⟨hadmits.part h (by simp [hparts]), hadmits.part h (by simp [hparts])⟩

section

variable (hadmits : S.Admits node) (hnests : S.Nests node)
  (hexcused : ∀ v, ¬ S.excused (.returned v)) (config : Config)

include hadmits hnests hexcused

theorem refines_within (depth : Nat) :
    ∀ inner, node inner →
      S.Refines S.value (evalWithin config depth inner) (evalWithin config depth inner) :=
  refines_evalWithin (fun _ _ => follows_of_nests hadmits hnests hexcused config) depth

theorem follows_within (depth : Nat) (inner : Node) (hinner : node inner) :
    S.Follows config (evalWithin config depth) config (evalWithin config depth) inner :=
  follows_of_nests hadmits hnests hexcused config
    (refines_within hadmits hnests hexcused config depth) inner hinner

/-- What holds when a node is about to be evaluated holds when it starts evaluating something. -/
theorem admitted_of_node {depth : Nat} {reading : Reading} {whole : Node} {machine : Machine}
    {second : Moment} (h : Starts config ⟨depth, .eval reading whole, machine⟩ second)
    (hrel : S.rel machine machine) (hwhole : node whole) : second.Admitted S node := by
  have hfollows := follows_within hadmits hnests hexcused config depth
  cases h with
  | echo | otherwise => exact ⟨hrel, fun inner hinner => hadmits.part hwhole hinner⟩
  | elseIf =>
    exact ⟨hrel, fun inner hinner => hadmits.part hwhole (List.mem_cons_of_mem _ hinner)⟩
  | ret | iterated | path | coalesced | left | operand | appended | base | assignKeys | updateKeys
  | arg => exact ⟨hrel, hadmits.part hwhole List.mem_cons_self⟩
  | condition => exact ⟨hrel, (hadmits.conditional hwhole).1⟩
  | whenTrue hcond hvalue =>
    obtain ⟨htest, hbody, -, -⟩ := hadmits.conditional hwhole
    exact ⟨(((hfollows _ htest).eval .strict).of_ok hrel hcond).1, hbody⟩
  | whenFalse hcond hvalue =>
    obtain ⟨htest, -, hclauses, -⟩ := hadmits.conditional hwhole
    exact ⟨(((hfollows _ htest).eval .strict).of_ok hrel hcond).1, hclauses⟩
  | whenNone hcond hvalue hrun =>
    obtain ⟨htest, -, hclauses, hlast⟩ := hadmits.conditional hwhole
    obtain ⟨htried, -⟩ := ((hfollows _ htest).eval .strict).of_ok hrel hcond
    have helseIfs := fun found => @Refines.evalElseIfs S config _ config _ _ found rfl
      fun inner hinner => hfollows inner (hclauses inner hinner)
    exact ⟨((helseIfs false).of_ok htried hrun).1, hlast⟩
  | loop hexpr =>
    have hnode := hfollows _ (hadmits.part hwhole List.mem_cons_self)
    obtain ⟨hafter, htable⟩ := (hnode.eval .strict).of_ok hrel hexpr
    refine ⟨hafter, hadmits.valueVar hwhole, fun name hname => ?_,
      fun inner hinner => hadmits.part hwhole (List.mem_cons_of_mem _ hinner),
      fun entry hentry => S.entry htable hentry⟩
    subst hname
    exact hadmits.keyVar hwhole
  | inclusion htext =>
    have hnode := hfollows _ (hadmits.part hwhole List.mem_cons_self)
    have hread : S.Refines (fun _ => True)
        (do Eval.ofNoted (← Node.evalAt config depth .strict _).text)
        (do Eval.ofNoted (← Node.evalAt config depth .strict _).text) :=
      (hnode.eval .strict).andThen fun _ _ => Refines.ofNoted fun _ _ => trivial
    exact ⟨(hread.of_ok hrel htext).1, trivial⟩
  | literal => exact ⟨hrel, S.empty, fun inner hinner => hadmits.part hwhole hinner⟩
  | whenNull hleft hvalue =>
    obtain ⟨hfirst, hsecond⟩ := hadmits.pair hwhole rfl
    exact ⟨(((hfollows _ hfirst).eval .lenient).of_ok hrel hleft).1, hsecond⟩
  | right hop hleft hvalue =>
    obtain ⟨hfirst, hsecond⟩ := hadmits.pair hwhole rfl
    exact ⟨(((hfollows _ hfirst).eval .strict).of_ok hrel hleft).1, hsecond⟩
  | dim hbase =>
    obtain ⟨hfirst, hsecond⟩ := hadmits.pair hwhole rfl
    exact ⟨(((hfollows _ hfirst).eval reading).of_ok hrel hbase).1, hsecond⟩
  | assigned hroot hkeys =>
    obtain ⟨hfirst, hsecond⟩ := hadmits.pair hwhole rfl
    exact ⟨((hfollows _ hfirst).keys.of_ok hrel hkeys).1, hsecond⟩
  | assignWrite hroot hkeys hexpr =>
    obtain ⟨hfirst, hsecond⟩ := hadmits.pair hwhole rfl
    obtain ⟨hkeyed, hpath, -⟩ := (hfollows _ hfirst).keys.of_ok hrel hkeys
    obtain ⟨hafter, hvalue⟩ := ((hfollows _ hsecond).eval .strict).of_ok hkeyed hexpr
    exact ⟨hafter, hadmits.assign hwhole (root?_of_targetRoot hroot), hpath, hvalue⟩
  | updated hroot happend hkeys hop =>
    obtain ⟨hfirst, hsecond⟩ := hadmits.pair hwhole rfl
    exact ⟨((hfollows _ hfirst).keys.of_ok hrel hkeys).1, hsecond⟩
  | updateWrite hroot happend hkeys hop hexpr hcurrent hvalue =>
    obtain ⟨hfirst, hsecond⟩ := hadmits.pair hwhole rfl
    have hname := hadmits.compound hwhole (root?_of_targetRoot hroot)
    obtain ⟨hkeyed, hpath, -⟩ := (hfollows _ hfirst).keys.of_ok hrel hkeys
    obtain ⟨hevaluated, hright⟩ := ((hfollows _ hsecond).eval .strict).of_ok hkeyed hexpr
    obtain ⟨hlooked, hold⟩ :=
      (Refines.readElement (S.readable_of_bindable hname)).of_ok hevaluated hcurrent
    obtain ⟨hafter, hresult⟩ :=
      (Refines.ofNoted fun v hv => S.binary hold hright hv).of_ok hlooked hvalue
    exact ⟨hafter, hname, hpath, hresult⟩
  | coalesceWrite hroot happend hkeys hcurrent hnull hexpr hvalue =>
    obtain ⟨hfirst, hsecond⟩ := hadmits.pair hwhole rfl
    have hname := hadmits.compound hwhole (root?_of_targetRoot hroot)
    obtain ⟨hkeyed, hpath, -⟩ := (hfollows _ hfirst).keys.of_ok hrel hkeys
    obtain ⟨hlooked, hold⟩ :=
      (Refines.readElement (S.readable_of_bindable hname)).of_ok hkeyed hcurrent
    obtain ⟨hevaluated, hright⟩ := ((hfollows _ hsecond).eval .strict).of_ok hlooked hexpr
    obtain ⟨hafter, hresult⟩ :=
      (Refines.ofNoted fun v hv => S.binary hold hright hv).of_ok hevaluated hvalue
    exact ⟨hafter, hname, hpath, hresult⟩
  | args hfunction => exact ⟨hrel, fun inner hinner => hadmits.part hwhole hinner⟩
  | call hfunction hargs =>
    have hvalues := Refines.evalList
      fun inner hinner => hfollows inner (hadmits.part hwhole hinner)
    obtain ⟨hafter, hvalues⟩ := hvalues.of_ok hrel hargs
    exact ⟨hafter, hnests.param hrel hfunction, hnests.body hrel hfunction, hvalues⟩

/-- What holds when a row is about to be worked through holds when its first member is, and when the
    rest is. -/
theorem admitted_of_row {depth : Nat} {activity : Activity} {machine : Machine} {second : Moment}
    (hrow : activity.isRow = true) (h : Starts config ⟨depth, activity, machine⟩ second)
    (hrel : S.rel machine machine) (hactivity : activity.Admitted S node) :
    second.Admitted S node := by
  have hfollows := follows_within hadmits hnests hexcused config depth
  cases h with
  | outerKeys => exact ⟨hrel, hadmits.part hactivity List.mem_cons_self⟩
  | key hbase =>
    obtain ⟨hfirst, hsecond⟩ := hadmits.pair hactivity rfl
    exact ⟨((hfollows _ hfirst).keys.of_ok hrel hbase).1, hsecond⟩
  | listHead | blockHead => exact ⟨hrel, hactivity _ List.mem_cons_self⟩
  | listTail hnode | blockTail hnode =>
    have hhead := (hfollows _ (hactivity _ List.mem_cons_self)).eval .strict
    exact ⟨(hhead.of_ok hrel hnode).1,
      fun inner hinner => hactivity inner (List.mem_cons_of_mem _ hinner)⟩
  | clauseCondition hfound => exact ⟨hrel, hactivity _ (List.mem_append_left _ List.mem_cons_self)⟩
  | clauseBody hfound hcond hvalue =>
    have htest := hfollows _ (hactivity _ (List.mem_append_left _ List.mem_cons_self))
    exact ⟨((htest.eval .strict).of_ok hrel hcond).1, fun inner hinner =>
      hactivity inner (List.mem_append_left _ (List.mem_cons_of_mem _ hinner))⟩
  | clausesAfterBody hfound hcond hvalue hbody =>
    have htest := hfollows _ (hactivity _ (List.mem_append_left _ List.mem_cons_self))
    obtain ⟨hholding, -⟩ := (htest.eval .strict).of_ok hrel hcond
    have hblock := Refines.evalBlock fun inner hinner =>
      hfollows inner (hactivity inner (List.mem_append_left _ (List.mem_cons_of_mem _ hinner)))
    exact ⟨(hblock.of_ok hholding hbody).1,
      fun inner hinner => hactivity inner (List.mem_append_right _ hinner)⟩
  | clausesAfterCondition hfound hcond hvalue =>
    have htest := hfollows _ (hactivity _ (List.mem_append_left _ List.mem_cons_self))
    exact ⟨((htest.eval .strict).of_ok hrel hcond).1,
      fun inner hinner => hactivity inner (List.mem_append_right _ hinner)⟩
  | itemValue => exact ⟨hrel, hactivity.2 _ (List.mem_append_left _ List.mem_cons_self)⟩
  | itemKey hvalue =>
    obtain ⟨-, hitems⟩ := hactivity
    have helement := hfollows _ (hitems _ (List.mem_append_left _ List.mem_cons_self))
    exact ⟨((helement.eval .strict).of_ok hrel hvalue).1,
      hitems _ (List.mem_append_left _ (List.mem_cons_of_mem _ List.mem_cons_self))⟩
  | itemAppended hvalue =>
    obtain ⟨htable, hitems⟩ := hactivity
    have hnode := hfollows _ (hitems _ (List.mem_append_left _ List.mem_cons_self))
    obtain ⟨hafter, helement⟩ := (hnode.eval .strict).of_ok hrel hvalue
    exact ⟨hafter, S.append htable helement,
      fun inner hinner => hitems inner (List.mem_append_right _ hinner)⟩
  | itemSet hvalue hkey htoKey =>
    obtain ⟨htable, hitems⟩ := hactivity
    have hnode := hfollows _ (hitems _ (List.mem_append_left _ List.mem_cons_self))
    have hkeyNode := hfollows _
      (hitems _ (List.mem_append_left _ (List.mem_cons_of_mem _ List.mem_cons_self)))
    obtain ⟨hkeyed, helement⟩ := (hnode.eval .strict).of_ok hrel hvalue
    obtain ⟨hafter, hkeyValue⟩ := (hkeyNode.eval .strict).of_ok hkeyed hkey
    exact ⟨hafter, S.set htable (S.toKey hkeyValue htoKey) helement,
      fun inner hinner => hitems inner (List.mem_append_right _ hinner)⟩
  | loopBody hbound =>
    obtain ⟨hvalueVar, hkeyVar, hnodes, hentries⟩ := hactivity
    have hnothing : S.Refines (fun _ => True) (pure ()) (pure ()) := Refines.ofValue trivial
    have hloop := Refines.forEntries hvalueVar hkeyVar hnothing fun entry hentry =>
      hentries entry (List.mem_cons.mpr (Or.inl (List.mem_singleton.mp hentry)))
    exact ⟨(hloop.of_ok hrel hbound).1, hnodes⟩
  | loopRest hbody =>
    obtain ⟨hvalueVar, hkeyVar, hnodes, hentries⟩ := hactivity
    have hblock := Refines.evalBlock fun inner hinner => hfollows inner (hnodes inner hinner)
    have hloop := Refines.forEntries hvalueVar hkeyVar hblock fun entry hentry =>
      hentries entry (List.mem_cons.mpr (Or.inl (List.mem_singleton.mp hentry)))
    exact ⟨(hloop.of_ok hrel hbody).1, hvalueVar, hkeyVar, hnodes,
      fun entry hentry => hentries entry (List.mem_cons_of_mem _ hentry)⟩
  | _ => cases hrow

/-- What holds at a moment holds when an activity that it starts is about to begin. -/
theorem admitted_of_starts {first second : Moment} (h : Starts config first second)
    (hfirst : first.Admitted S node) : second.Admitted S node := by
  obtain ⟨depth, activity, machine⟩ := first
  obtain ⟨hrel, hactivity⟩ := hfirst
  have hdeeper := refines_within hadmits hnests hexcused config depth
  cases activity with
  | eval reading whole => exact admitted_of_node hadmits hnests hexcused config h hrel hactivity
  | keys | list | block | elseIfs | items | loop =>
    exact admitted_of_row hadmits hnests hexcused config rfl h hrel hactivity
  | write name path value => cases h
  | call function args =>
    obtain ⟨hparams, hnodes, hargs⟩ := hactivity
    have henter : S.rel (machine.calling function args).entering
        (machine.calling function args).entering :=
      hnests.enter (S.rel_events _ hrel)
    have hdefaults : ∀ inner ∈ Form.paramNodes function.params, node inner :=
      fun inner hinner => hnodes inner (List.mem_append_left _ hinner)
    cases h with
    | callParams => exact ⟨henter, hparams, hdefaults, hargs⟩
    | callBody hbound =>
      have hbind := Refines.bindParams function args.length
        (fun inner hinner => hdeeper inner (hdefaults inner hinner)) hparams hargs
      exact ⟨(hbind.of_ok henter hbound).1,
        fun inner hinner => hnodes inner (List.mem_append_right _ hinner)⟩
  | params function passed rest args =>
    obtain ⟨hnames, hdefaults, hargs⟩ := hactivity
    cases h with
    | paramDefault hdefault =>
      exact ⟨hrel, hdefaults _ (Form.mem_paramNodes List.mem_cons_self hdefault)⟩
    | paramPassed hbound =>
      have hset := Refines.setVariable (hnames _ List.mem_cons_self) (hargs _ List.mem_cons_self)
      exact ⟨(hset.of_ok hrel hbound).1,
        fun param hparam => hnames param (List.mem_cons_of_mem _ hparam),
        fun inner hinner => hdefaults inner (List.mem_append_right _ hinner),
        fun v hv => hargs v (List.mem_cons_of_mem _ hv)⟩
    | paramDefaulted hdefault hbound =>
      have hvalue := hdeeper _ (hdefaults _ (Form.mem_paramNodes List.mem_cons_self hdefault))
      have hbind := Refines.bindDefault hvalue (hnames _ List.mem_cons_self)
      exact ⟨(hbind.of_ok hrel hbound).1,
        fun param hparam => hnames param (List.mem_cons_of_mem _ hparam),
        fun inner hinner => hdefaults inner (List.mem_append_right _ hinner), hargs⟩
  | body nodes =>
    cases h with
    | bodyHead => exact ⟨hrel, hactivity _ List.mem_cons_self⟩
    | bodyTail hnode hreturn =>
      exact ⟨((hdeeper _ (hactivity _ List.mem_cons_self)).of_ok hrel hnode).1,
        fun inner hinner => hactivity inner (List.mem_cons_of_mem _ hinner)⟩
  | file path once fatal =>
    cases h with
    | @included _ _ _ resolved nodes library _ _ hload =>
      have hlibrary := hnests.load path once hrel
      rw [hload] at hlibrary
      exact ⟨S.rel_events _ hlibrary, hnests.program hrel (by rw [hload])⟩
  | statements nodes =>
    cases h with
    | statementsHead => exact ⟨hrel, hactivity _ List.mem_cons_self⟩
    | statementsTail hnode =>
      exact ⟨((hdeeper _ (hactivity _ List.mem_cons_self)).of_ok hrel hnode).1,
        fun inner hinner => hactivity inner (List.mem_cons_of_mem _ hinner)⟩

/-- An activity ends as the simulation says. -/
theorem refines_activity (depth : Nat) {activity : Activity}
    (hactivity : activity.Admitted S node) :
    S.Refines (fun values => ∀ v ∈ values, S.value v) (activity.run config depth)
      (activity.run config depth) := by
  have hfollows := follows_within hadmits hnests hexcused config depth
  have hdeeper := refines_within hadmits hnests hexcused config depth
  have hsingle : ∀ {v : Value}, S.value v →
      S.Refines (fun values => ∀ v ∈ values, S.value v) (pure [v]) (pure [v]) :=
    fun hv => Refines.ofValue fun w hw => List.mem_singleton.mp hw ▸ hv
  have hnone : S.Refines (fun values => ∀ v ∈ values, S.value v) (pure []) (pure []) :=
    Refines.ofValue fun v hv => by cases hv
  cases activity with
  | eval reading whole =>
    exact ((hfollows whole hactivity).eval reading).andThen fun value hvalue => hsingle hvalue
  | keys target =>
    refine (hfollows target hactivity).keys.andThen fun keys hkeys => Refines.ofValue fun v hv => ?_
    obtain ⟨key, hkey, rfl⟩ := List.mem_map.mp hv
    exact S.ofKey (hkeys.1 key (by simpa using hkey))
  | list nodes => exact Refines.evalList fun inner hinner => hfollows inner (hactivity inner hinner)
  | block nodes =>
    exact (Refines.evalBlock fun inner hinner => hfollows inner (hactivity inner hinner)).andThen
      fun _ _ => hnone
  | elseIfs found clauses =>
    exact (Refines.evalElseIfs rfl fun inner hinner => hfollows inner (hactivity inner hinner)).andThen
      fun _ _ => hnone
  | items table rest =>
    exact (Refines.evalItems (fun inner hinner => hfollows inner (hactivity.2 inner hinner))
      hactivity.1).andThen fun result hresult => hsingle hresult
  | loop valueVar keyVar nodes entries =>
    obtain ⟨hvalueVar, hkeyVar, hnodes, hentries⟩ := hactivity
    have hblock := Refines.evalBlock fun inner hinner => hfollows inner (hnodes inner hinner)
    exact (Refines.forEntries hvalueVar hkeyVar hblock hentries).andThen fun _ _ => hnone
  | write name path value =>
    obtain ⟨hname, hpath, hvalue⟩ := hactivity
    exact (Refines.writeElement hname hpath hvalue).andThen fun _ _ => hnone
  | call function args =>
    obtain ⟨hparams, hnodes, hargs⟩ := hactivity
    exact (Refines.callFunction hnests hexcused rfl rfl hparams
      (fun inner hinner => hdeeper inner (hnodes inner hinner)) hargs).andThen
        fun value hvalue => hsingle hvalue
  | params function passed rest args =>
    obtain ⟨hnames, hdefaults, hargs⟩ := hactivity
    exact (Refines.bindParams function passed
      (fun inner hinner => hdeeper inner (hdefaults inner hinner)) hnames hargs).andThen
        fun _ _ => hnone
  | body nodes =>
    refine (Refines.runBody hexcused rfl
      fun inner hinner => hdeeper inner (hactivity inner hinner)).andThen fun result hresult => ?_
    exact Refines.ofValue fun v hv => hresult v (by simpa using hv)
  | file path once fatal =>
    exact (Refines.includeFile hnests.toLoads hexcused hdeeper path once fatal).andThen
      fun value hvalue => hsingle hvalue
  | statements nodes =>
    exact (Refines.runStatements fun inner hinner => hdeeper inner (hactivity inner hinner)).andThen
      fun _ _ => hnone

end

end Simulation

/-! ## Values at the moments of a run -/

/-- The statements of a program are about to be run. -/
def Moment.ofProgram (config : Config) (library : Library) (nodes : List Node) : Moment :=
  ⟨maxNesting, .statements nodes, (Machine.start (some library)).writeListing config nodes⟩

/-- The second moment belongs to the run that starts at the first. -/
def Moment.Leads (config : Config) (start moment : Moment) : Prop :=
  Relation.ReflTransGen (Starts config) start moment

/-- The values that there are at a moment: those of the variables when the activity begins and when
    it ends, those that it starts with and those that it gives or returns. -/
def Moment.values (config : Config) (moment : Moment) : List Value :=
  moment.machine.values ++ moment.activity.values ++
    match moment.activity.run config moment.depth moment.machine with
    | .ok values after => values ++ after.values
    | .error (.returned value) after => value :: after.values
    | .error (.fault _) after => after.values

theorem Activity.Admitted.values {S : Simulation} {node : Node → Prop} {activity : Activity}
    (h : activity.Admitted S node) : ∀ v ∈ activity.values, S.value v := by
  cases activity with
  | items table rest => exact fun v hv => List.mem_singleton.mp hv ▸ h.1
  | loop valueVar keyVar nodes entries =>
    intro v hv
    obtain ⟨entry, hentry, rfl⟩ := List.mem_map.mp hv
    exact (h.2.2.2 entry hentry).2
  | write name path value => exact fun v hv => List.mem_singleton.mp hv ▸ h.2.2
  | call function args => exact h.2.2
  | params function passed rest args => exact h.2.2
  | _ => exact fun v hv => by cases hv

/-- What a simulation can say something of at the start of a run, it can at all moments. -/
theorem Moment.Admitted.leads {S : Simulation} {node : Node → Prop} (hadmits : S.Admits node)
    (hnests : S.Nests node) (hexcused : ∀ v, ¬ S.excused (.returned v)) {config : Config}
    {start moment : Moment} (hstart : start.Admitted S node) (h : start.Leads config moment) :
    moment.Admitted S node := by
  induction h with
  | refl => exact hstart
  | tail _ hstarts ih =>
    exact Simulation.admitted_of_starts hadmits hnests hexcused config hstarts ih

/-- What operations on values keep holds of all values at all moments of a run, if it holds of the
    values of the variables at its start and of the integers in the programs. -/
theorem ValueInvariant.at_moments (V : ValueInvariant) (node : Node → Prop)
    (hchild : ∀ {whole child : Node}, node whole → child ∈ whole.children → node child)
    (hint : ∀ {line n}, node ⟨line, .int n⟩ → V.value (.int n)) {config : Config}
    {start moment : Moment} (hstart : start.Admitted (V.along node) node)
    (h : start.Leads config moment) : ∀ v ∈ moment.values config, V.value v := by
  have hadmits : (V.along node).Admits node := alongside_admits hchild hint
  have hnests : (V.along node).Nests node := alongside_nests
  have hexcused : ∀ v, ¬ (V.along node).excused (.returned v) := fun _ h => h
  have hmoment := hstart.leads hadmits hnests hexcused h
  obtain ⟨hrel, hactivity⟩ := hmoment
  have hends := Simulation.refines_activity hadmits hnests hexcused config moment.depth hactivity _ _
    hrel
  intro v hv
  unfold Moment.values at hv
  generalize moment.activity.run config moment.depth moment.machine = ends at hends hv
  rcases List.mem_append.mp hv with hv | hv
  · rcases List.mem_append.mp hv with hv | hv
    · exact hrel.2.values v hv
    · exact hactivity.values v hv
  · cases hends with
    | ok hafter hvalues =>
      rcases List.mem_append.mp hv with hv | hv
      · exact hvalues v hv
      · exact hafter.2.values v hv
    | @error exit _ _ hafter hreturned =>
      cases exit with
      | returned value =>
        rcases List.mem_cons.mp hv with rfl | hv
        · exact hreturned v rfl
        · exact hafter.2.values v hv
      | fault fault => exact hafter.2.values v hv
    | excused hexit => exact hexit.elim

end WebScript
