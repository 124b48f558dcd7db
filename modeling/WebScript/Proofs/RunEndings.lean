import WebScript.Proofs.RunInvariant

/-!
# Activities end as invariants say

Whatever begins at a moment at which a `RunInvariant` holds ends as the invariant says. There is one
lemma for each kind of activity; it may suppose the same of the activities that are started. Since
starting is well-founded, an invariant that holds at the start of a run holds at all its moments.
-/

namespace WebScript

namespace RunInvariant

variable {config : Config} {I : RunInvariant config} {m : Machine}

/-! ## How a node ends -/

/-- Combining the current element with a value and writing the result. -/
theorem Ending.update {op : BinaryOperator} {name : String} {keys : List (Option Key)}
    {current right : Value} {depth : Nat} (hm : I.machine m) (hcurrent : I.value current)
    (hright : I.value right)
    (hwrite : ∀ value after, Eval.ofNoted (op.apply current right) m = .ok value after →
      I.Ends ⟨depth, .write name keys value, after⟩) :
    I.Ending I.loose I.value
      ((do
        let value ← Eval.ofNoted (op.apply current right)
        Eval.writeElement name keys value
        pure value : Eval Value) m) := by
  have hresult : I.Ending I.loose I.value (Eval.ofNoted (op.apply current right) m) :=
    Ending.ofNoted hm fun v hv => I.binary hcurrent hright hv
  refine hresult.bind fun value after hrun hafter hvalue => ?_
  exact Ending.bind (hwrite value after hrun) fun _ written _ hwritten _ => .ok hwritten hvalue

section

variable {depth : Nat} {reading : Reading} {line : Option Int}

/-- A statement with a body, or with a row of expressions. -/
theorem Sound.ends_statement {form : Form Node}
    (hfirst : I.Sound ⟨depth, .eval reading ⟨line, form⟩, m⟩)
    (next : ∀ {second}, Starts config ⟨depth, .eval reading ⟨line, form⟩, m⟩ second →
      I.Ends second)
    (hkind : form.isExpression = false) : I.Ends ⟨depth, .eval reading ⟨line, form⟩, m⟩ := by
  have hm : I.machine m := hfirst.machine
  have hreturn : ∀ {value : Value} {after : Machine}, I.machine after → I.value value →
      I.Ending I.loose I.value
        ((if config.propagateReturn then throw (.returned value) else pure value : Eval Value)
          after) := by
    intro value after hafter hvalue
    split
    · rename_i hswitch
      exact .error hafter (Or.inl (I.ret hswitch hvalue))
    · exact .ok hafter hvalue
  have hblock : ∀ {nodes : List Node} {before : Machine},
      I.Ends ⟨depth, .block nodes, before⟩ →
      I.Ending I.loose I.value
        ((do evalBlock config (evalWithin config depth) nodes; pure .null : Eval Value) before) :=
    fun h => Ending.bind h fun _ _ _ hafter _ => .ok hafter I.null
  cases form with
  | echo exprs =>
    rw [Ends, Node.evalAt, Node.evalAs]
    refine .located hfirst.reached (Ending.bind (next .echo) fun values after _ hafter _ => ?_)
    have htext : I.Ending I.loose (fun _ => True) (Eval.ofNoted (joinTexts values) after) :=
      Ending.ofNoted hafter fun _ _ => trivial
    refine htext.bind fun text warned _ hwarned _ => ?_
    exact (Ending.write hwarned text).bind fun _ _ _ hdone _ => .ok hdone I.null
  | nop => exact .ok hm I.null
  | ret expr =>
    cases expr with
    | none =>
      rw [Ends, Node.evalAt, Node.evalAs]
      exact .located hfirst.reached (hreturn hm I.null)
    | some expr =>
      rw [Ends, Node.evalAt, Node.evalAs]
      refine .located hfirst.reached ((next .ret).eval.bind fun value after _ hafter hvalue => ?_)
      exact hreturn hafter hvalue
  | elseIf cond body =>
    rw [Ends, Node.evalAt, Node.evalAs]
    exact .located hfirst.reached (hblock (next .elseIf))
  | otherwise body =>
    rw [Ends, Node.evalAt, Node.evalAs]
    exact .located hfirst.reached (hblock (next .otherwise))
  | conditional cond body elseIfs last =>
    rw [Ends, Node.evalAt, Node.evalAs]
    refine .located hfirst.reached
      ((next .condition).eval.bind fun value after hcond hafter _ => ?_)
    cases hvalue : value.isTruthy with
    | true => exact hblock (next (.whenTrue hcond hvalue))
    | false =>
      refine Ending.bind (next (.whenFalse hcond hvalue)) fun found tried hclauses htried _ => ?_
      cases last with
      | none => exact .ok htried I.null
      | some last =>
        cases found with
        | true => exact .ok htried I.null
        | false => exact hblock (next (.whenNone hcond hvalue hclauses))
  | foreach expr valueVar body keyVar =>
    rw [Ends, Node.evalAt, Node.evalAs]
    refine .located hfirst.reached
      ((next .iterated).eval.bind fun value after hexpr hafter _ => ?_)
    cases value with
    | array table =>
      exact Ending.bind (next (.loop hexpr)) fun _ _ _ hdone _ => .ok hdone I.null
    | _ => exact .error hafter (Or.inr ⟨_, rfl⟩)
  | functionDecl name params body =>
    have hdefine : I.machine (m.withFunction ⟨name, params, body⟩) := I.define hfirst.reached hm
    rw [Ends, Node.evalAt, Node.evalAs]
    refine .located hfirst.reached ?_
    simp only [Bind.bind, EStateM.bind, get, getThe, MonadStateOf.get, EStateM.get]
    cases m.functions.contains name with
    | true => exact .ok (I.report hdefine rfl) I.null
    | false => exact .ok hdefine I.null
  | param | arrayItem | bare =>
    rw [Ends, Node.evalAt, Node.evalAs]
    exact .located hfirst.reached (.raise hm _)
  | arg value =>
    rw [Ends, Node.evalAt, Node.evalAs]
    exact .located hfirst.reached (next .arg).eval
  | _ => cases hkind

/-- An operator other than `??`. -/
theorem Sound.ends_binary {op : BinaryOperator} {left right : Node} (hop : op ≠ .coalesce)
    (hfirst : I.Sound ⟨depth, .eval reading ⟨line, .binary op left right⟩, m⟩)
    (next : ∀ {second},
      Starts config ⟨depth, .eval reading ⟨line, .binary op left right⟩, m⟩ second →
      I.Ends second) :
    I.Ends ⟨depth, .eval reading ⟨line, .binary op left right⟩, m⟩ := by
  rw [Ends, Node.evalAt, Node.evalAs]
  · refine .located hfirst.reached
      ((next (.left hop)).eval.bind fun leftValue after hleft hafter hleftValue => ?_)
    cases hdecided : (if config.shortCircuit then op.decided? leftValue else none) with
    | some value =>
      split at hdecided
      · exact .ok hafter (I.value_decided? hdecided)
      · cases hdecided
    | none =>
      refine (next (.right hop hleft hdecided)).eval.bind fun rightValue _ _ hdone hright => ?_
      exact .ofNoted hdone fun v hv => I.binary hleftValue hright hv
  all_goals exact hop

/-- What `??=` evaluates depends on the element that is there; what other operators do, does not. -/
theorem Sound.ends_compoundAssign {op : BinaryOperator} {target expr : Node}
    (hfirst : I.Sound ⟨depth, .eval reading ⟨line, .compoundAssign op target expr⟩, m⟩)
    (next : ∀ {second},
      Starts config ⟨depth, .eval reading ⟨line, .compoundAssign op target expr⟩, m⟩ second →
      I.Ends second) :
    I.Ends ⟨depth, .eval reading ⟨line, .compoundAssign op target expr⟩, m⟩ := by
  have hm : I.machine m := hfirst.machine
  rw [Ends, Node.evalAt, Node.evalAs]
  refine .located hfirst.reached ?_
  have hroot : I.Ending I.loose (fun name => target.targetRoot = .ok name)
      (Eval.ofCause target.targetRoot m) := .ofCause hm fun _ => id
  refine hroot.bind fun name rooted hrun _ hroot => ?_
  rw [hroot] at hrun
  cases hrun
  cases happend : target.hasAppend with
  | true => exact .error hm (Or.inr ⟨_, rfl⟩)
  | false =>
    refine Ending.bind (next (.updateKeys hroot happend)) fun keys keyed hkeys hkeyed _ => ?_
    by_cases hop : op = .coalesce
    · subst hop
      rw [if_pos rfl]
      refine (Ending.readElement hkeyed _ _ _).bind fun current looked hcurrent hlooked hold => ?_
      cases hnull : (config.shortCircuit && !current.isNull) with
      | true => exact .ok hlooked hold
      | false =>
        have hexpr : I.Ends ⟨depth, .eval .strict expr, looked⟩ := by
          cases machine_of_readElement hcurrent
          exact next (.updated hroot happend hkeys fun _ => ⟨_, hcurrent, hnull⟩)
        refine hexpr.eval.bind fun right evaluated hexpr hevaluated hright => ?_
        exact .update hevaluated hold hright fun value after hvalue =>
          next (.coalesceWrite hroot happend hkeys hcurrent hnull hexpr hvalue)
    · rw [if_neg hop]
      refine (next (.updated hroot happend hkeys fun h => absurd h hop)).eval.bind
        fun right evaluated hexpr hevaluated hright => ?_
      refine (Ending.readElement hevaluated _ _ _).bind
        fun current looked hcurrent hlooked hold => ?_
      exact .update hlooked hold hright fun value after hvalue =>
        next (.updateWrite hroot happend hkeys hop hexpr hcurrent hvalue)

theorem Sound.ends_expression {form : Form Node}
    (hfirst : I.Sound ⟨depth, .eval reading ⟨line, form⟩, m⟩)
    (next : ∀ {second}, Starts config ⟨depth, .eval reading ⟨line, form⟩, m⟩ second →
      I.Ends second)
    (hkind : form.isExpression = true) : I.Ends ⟨depth, .eval reading ⟨line, form⟩, m⟩ := by
  have hm : I.machine m := hfirst.machine
  cases form with
  | require path once fatal =>
    rw [Ends, Node.evalAt, Node.evalAs]
    refine .located hfirst.reached ((next .path).eval.bind fun value after hpath hafter _ => ?_)
    have htext : I.Ending I.loose (fun _ => True) (Eval.ofNoted value.text after) :=
      Ending.ofNoted hafter fun _ _ => trivial
    refine htext.bind fun text _ hread _ _ => ?_
    have hinclusion : (do Eval.ofNoted (← Node.evalAt config depth .strict path).text) m =
        .ok text _ := (Eval.bind_of_ok _ hpath).trans hread
    exact next (.inclusion hinclusion)
  | str value =>
    rw [Ends, Node.evalAt, Node.evalAs]
    exact .ok hm (I.str value)
  | int value =>
    rw [Ends, Node.evalAt, Node.evalAs]
    exact .ok hm (I.int hfirst.reached)
  | float value =>
    rw [Ends, Node.evalAt, Node.evalAs]
    exact .ok hm (I.float value)
  | arrayLiteral items =>
    rw [Ends, Node.evalAt, Node.evalAs]
    exact .located hfirst.reached
      (Ending.bind (next .literal) fun _ _ _ hafter htable => .ok hafter htable)
  | binary op left right =>
    by_cases hop : op = .coalesce
    · subst hop
      rw [Ends, Node.evalAt, Node.evalAs]
      refine .located hfirst.reached
        ((next .coalesced).eval.bind fun leftValue after hleft hafter hleftValue => ?_)
      cases hnull : (config.shortCircuit && !leftValue.isNull) with
      | true => exact .ok hafter hleftValue
      | false =>
        refine (next (.whenNull hleft hnull)).eval.bind fun rightValue _ _ hdone hright => ?_
        exact .ofNoted hdone fun v hv => I.binary hleftValue hright hv
    · exact hfirst.ends_binary hop next
  | unary op operand =>
    rw [Ends, Node.evalAt, Node.evalAs]
    refine .located hfirst.reached ((next .operand).eval.bind fun value _ _ hafter hvalue => ?_)
    exact .ofNoted hafter fun result hresult => I.unary hvalue hresult
  | «variable» name =>
    cases reading with
    | strict =>
      rw [Ends, Node.evalAt, Node.evalAs]
      exact .located hfirst.reached (.readVariable hm name)
    | lenient =>
      rw [Ends, Node.evalAt, Node.evalAs]
      exact .ok hm (Ending.readOrNull hm name)
  | constant name =>
    rw [Ends, Node.evalAt, Node.evalAs]
    refine .located hfirst.reached ?_
    cases hconstant : constant? name with
    | none => exact .raise hm _
    | some value => exact .ok hm (I.value_constant? hconstant)
  | index base dim =>
    cases dim with
    | none =>
      rw [Ends, Node.evalAt, Node.evalAs]
      exact .located hfirst.reached
        ((next .appended).eval.bind fun _ _ _ hafter _ => .raise hafter _)
    | some dim =>
      cases reading with
      | strict =>
        rw [Ends, Node.evalAt, Node.evalAs]
        refine .located hfirst.reached
          ((next .base).eval.bind fun baseValue based hbase _ hbaseValue => ?_)
        refine (next (.dim hbase)).eval.bind fun dimValue _ _ hafter _ => ?_
        exact .ofRefusal hafter fun v hv => I.element hbaseValue hv
      | lenient =>
        rw [Ends, Node.evalAt, Node.evalAs]
        refine (next .base).eval.bind fun baseValue based hbase _ hbaseValue => ?_
        refine (next (.dim hbase)).eval.bind fun dimValue _ _ hafter _ => ?_
        exact .ofRefusal hafter fun v hv => I.elementOrNull hbaseValue hv
  | assign target expr =>
    rw [Ends, Node.evalAt, Node.evalAs]
    refine .located hfirst.reached ?_
    have hroot : I.Ending I.loose (fun name => target.targetRoot = .ok name)
        (Eval.ofCause target.targetRoot m) := .ofCause hm fun _ => id
    refine hroot.bind fun name rooted hrun _ hroot => ?_
    rw [hroot] at hrun
    cases hrun
    refine Ending.bind (next (.assignKeys hroot)) fun keys keyed hkeys _ _ => ?_
    refine (next (.assigned hroot hkeys)).eval.bind fun value after hexpr _ hvalue => ?_
    exact Ending.bind (next (.assignWrite hroot hkeys hexpr)) fun _ _ _ hdone _ => .ok hdone hvalue
  | compoundAssign op target expr => exact hfirst.ends_compoundAssign next
  | call name args =>
    rw [Ends, Node.evalAt, Node.evalAs]
    refine .located hfirst.reached ?_
    simp only [Bind.bind, EStateM.bind, get, getThe, MonadStateOf.get, EStateM.get]
    cases hfunction : m.functions.lookup? name with
    | none => exact .ok (I.report hm rfl) I.null
    | some function =>
      exact Ending.bind (next (.args hfunction)) fun values after hargs _ _ =>
        next (.call hfunction hargs)
  | _ => cases hkind

end

/-! ## How rows, calls and inclusions end -/

section

variable {depth : Nat}

theorem Sound.ends_keys {target : Node} (hfirst : I.Sound ⟨depth, .keys target, m⟩)
    (next : ∀ {second}, Starts config ⟨depth, .keys target, m⟩ second → I.Ends second) :
    I.Ends ⟨depth, .keys target, m⟩ := by
  have hm : I.machine m := hfirst.machine
  obtain ⟨line, form⟩ := target
  cases form with
  | index base dim =>
    cases dim with
    | none =>
      rw [Ends, Node.evalKeys]
      refine Ending.bind (next .outerKeys) fun keys after _ hafter hkeys => .ok hafter ?_
      exact fun key hkey => hkeys key (by simpa using hkey)
    | some dim =>
      rw [Ends, Node.evalKeys]
      refine Ending.bind (next .outerKeys) fun keys based hbase _ hkeys => ?_
      refine (next (.key hbase)).eval.bind fun value after _ hafter hvalue => ?_
      refine (Ending.ofRefusal (P := I.key) hafter fun key hkey => I.toKey hvalue hkey).bind
        fun last _ _ hdone hlast => .ok hdone fun key hkey => ?_
      rcases List.mem_append.mp hkey with hkey | hkey
      · exact hkeys key hkey
      · cases List.mem_singleton.mp hkey
        exact hlast
  | _ =>
    rw [Ends, Node.evalKeys]
    · exact .ok hm fun key hkey => by cases hkey
    all_goals nofun

theorem Sound.ends_elseIfs {found : Bool} {clauses : List (ElseIf Node)}
    (hfirst : I.Sound ⟨depth, .elseIfs found clauses, m⟩)
    (next : ∀ {second}, Starts config ⟨depth, .elseIfs found clauses, m⟩ second → I.Ends second) :
    I.Ends ⟨depth, .elseIfs found clauses, m⟩ := by
  have hm : I.machine m := hfirst.machine
  cases clauses with
  | nil =>
    rw [Ends, evalElseIfs]
    exact .ok hm trivial
  | cons clause rest =>
    rw [Ends, evalElseIfs]
    cases hfound : (found && config.shortCircuitElseIf) with
    | true => exact .ok hm trivial
    | false =>
      refine (next (.clauseCondition hfound)).eval.bind fun value after hcond _ _ => ?_
      cases hvalue : (value.isTruthy && !found) with
      | true =>
        exact Ending.bind (next (.clauseBody hfound hcond hvalue)) fun _ _ hbody _ _ =>
          next (.clausesAfterBody hfound hcond hvalue hbody)
      | false => exact next (.clausesAfterCondition hfound hcond hvalue)

theorem Sound.ends_items {table : Table Value} {items : List (ArrayItem Node)}
    (hfirst : I.Sound ⟨depth, .items table items, m⟩)
    (next : ∀ {second}, Starts config ⟨depth, .items table items, m⟩ second → I.Ends second) :
    I.Ends ⟨depth, .items table items, m⟩ := by
  cases items with
  | nil =>
    rw [Ends, evalItems]
    exact .ok hfirst.machine hfirst.values
  | cons item rest =>
    obtain ⟨line, value, key⟩ := item
    cases key with
    | none =>
      rw [Ends, evalItems]
      exact (next .itemValue).eval.bind fun element after hvalue _ _ => next (.itemAppended hvalue)
    | some key =>
      rw [Ends, evalItems]
      refine (next .itemValue).eval.bind fun element keyed hvalue _ _ => ?_
      refine (next (.itemKey hvalue)).eval.bind fun keyValue after hkey hafter _ => ?_
      cases htoKey : keyValue.toKey with
      | ok keyUsed => exact next (.itemSet hvalue hkey htoKey)
      | error refusal =>
        have hrefused : I.Ending I.loose (fun _ => False)
            (Eval.ofRefusal (.error refusal : Except Refusal Key) after) :=
          Ending.ofRefusal hafter nofun
        exact hrefused.bind fun _ _ _ _ h => h.elim

theorem Sound.ends_loop {valueVar : String} {keyVar : Option String} {nodes : List Node}
    {entries : List (Key × Value)} (hfirst : I.Sound ⟨depth, .loop valueVar keyVar nodes entries, m⟩)
    (next : ∀ {second}, Starts config ⟨depth, .loop valueVar keyVar nodes entries, m⟩ second →
      I.Ends second) : I.Ends ⟨depth, .loop valueVar keyVar nodes entries, m⟩ := by
  cases entries with
  | nil => exact .ok hfirst.machine trivial
  | cons entry rest =>
    rw [Ends, forEntries_cons]
    refine hfirst.bindEntry.bind fun _ bound hbound _ _ => ?_
    exact Ending.bind (next (.loopBody hbound)) fun _ after hbody _ _ =>
      next (.loopRest (forEntries_single hbound hbody))

/-- Where calls and inclusions nest too deep, evaluation fails. -/
theorem Ending.tooDeep (hm : I.machine m) (node : Node) :
    I.Ending I.loose I.value (evalWithin config 0 node m) :=
  .raise hm _

theorem Sound.ends_params {function : Function} {passed : Nat} {params : List (Param Node)}
    {args : List Value} (hfirst : I.Sound ⟨depth, .params function passed params args, m⟩)
    (next : ∀ {second}, Starts config ⟨depth, .params function passed params args, m⟩ second →
      I.Ends second) : I.Ends ⟨depth, .params function passed params args, m⟩ := by
  have hm : I.machine m := hfirst.machine
  cases params with
  | nil =>
    rw [Ends, bindParams]
    exact .ok hm trivial
  | cons param rest =>
    cases args with
    | cons arg args =>
      rw [Ends, bindParams]
      refine (Ending.setVariable hm param.name fun hname => ?_).bind fun _ after hbound _ _ =>
        next (.paramPassed hbound)
      exact I.bind hfirst.reached .passed hm hname (hfirst.values arg List.mem_cons_self)
    | nil =>
      rw [Ends, bindParams]
      cases hdefault : param.default with
      | none => exact .raise hm _
      | some fallback =>
        have hvalue : I.Ending I.loose I.value (evalWithin config depth fallback m) := by
          cases depth with
          | zero => exact .tooDeep hm fallback
          | succ depth => exact (next (.paramDefault hdefault)).eval
        exact (Ending.bindDefault hfirst.reached hdefault hvalue).bind fun _ after hbound _ _ =>
          next (.paramDefaulted hdefault hbound)

theorem loose_returned {v : Value} (h : I.loose (.returned v)) : I.value v := by
  rcases h with h | ⟨cause, h⟩
  · exact I.returned h
  · cases h

theorem Sound.ends_body {nodes : List Node} (hfirst : I.Sound ⟨depth, .body nodes, m⟩)
    (next : ∀ {second}, Starts config ⟨depth, .body nodes, m⟩ second → I.Ends second) :
    I.Ends ⟨depth, .body nodes, m⟩ := by
  have hm : I.machine m := hfirst.machine
  cases nodes with
  | nil =>
    rw [Ends, runBody_nil]
    exact .ok hm fun v hv => by cases hv
  | cons node rest =>
    have hhead : I.Ending I.loose I.value (evalWithin config depth node m) := by
      cases depth with
      | zero => exact .tooDeep hm node
      | succ depth => exact (next .bodyHead).eval
    rw [Ends, runBody_cons]
    cases hnode : evalWithin config depth node m with
    | ok value after =>
      obtain ⟨hafter, hvalue⟩ := hhead.of_ok hnode
      cases hreturn : (!config.propagateReturn && node.isReturn) with
      | true =>
        refine .ok hafter fun v hv => ?_
        cases hv
        exact hvalue
      | false => exact next (.bodyTail hnode hreturn)
    | error exit after =>
      rw [hnode] at hhead
      cases hhead with
      | error hafter hexit =>
        cases exit with
        | fault fault => exact .error hafter hexit
        | returned value =>
          cases config.propagateReturn with
          | false => exact .error hafter hexit
          | true =>
            refine .ok hafter fun v hv => ?_
            cases hv
            exact loose_returned hexit

theorem Sound.ends_statements {nodes : List Node} (hfirst : I.Sound ⟨depth, .statements nodes, m⟩)
    (next : ∀ {second}, Starts config ⟨depth, .statements nodes, m⟩ second → I.Ends second) :
    I.Ends ⟨depth, .statements nodes, m⟩ := by
  have hm : I.machine m := hfirst.machine
  cases nodes with
  | nil => exact .ok hm trivial
  | cons node rest =>
    have hhead : I.Ending I.loose I.value (evalWithin config depth node m) := by
      cases depth with
      | zero => exact .tooDeep hm node
      | succ depth => exact (next .statementsHead).eval
    exact hhead.bind fun _ after hnode _ _ => next (.statementsTail hnode)

theorem Sound.ends_call {function : Function} {args : List Value}
    (hfirst : I.Sound ⟨depth, .call function args, m⟩)
    (next : ∀ {second}, Starts config ⟨depth, .call function args, m⟩ second → I.Ends second) :
    I.Ends ⟨depth, .call function args, m⟩ := by
  have hcaller : I.machine (m.calling function args) := I.report hfirst.machine rfl
  have hbody : I.Ending I.loose (fun result => ∀ v, result = some v → I.value v)
      (callBody (evalWithin config depth) config function args
        (m.calling function args).entering) :=
    Ending.bind (next .callParams) fun _ _ hbound _ _ => next (.callBody hbound)
  rw [Ends, callFunction_eq]
  generalize callBody (evalWithin config depth) config function args
    (m.calling function args).entering = ends at hbody
  cases hbody with
  | @ok result _ hafter hresult =>
    cases result with
    | none => exact .ok (I.leave hcaller hafter) I.null
    | some value =>
      refine .ok ?_ (hresult value rfl)
      cases hrestore : config.restoreScopeOnReturn with
      | true => exact I.leave hcaller hafter
      | false => exact I.leaveOpen hrestore hcaller hafter
  | error hafter hexit => exact .error (I.leave hcaller hafter) hexit

theorem Ending.orReturned {action : Eval Value} (h : I.Ending I.loose I.value (action m)) :
    I.Ending I.loose I.value (Eval.orReturned action m) := by
  unfold Eval.orReturned
  generalize action m = ends at h
  cases h with
  | ok hm hvalue => exact .ok hm hvalue
  | @error exit _ hm hexit =>
    cases exit with
    | returned value => exact .ok hm (loose_returned hexit)
    | fault fault => exact .error hm hexit

theorem Sound.ends_file {path : String} {once fatal : Bool}
    (hfirst : I.Sound ⟨depth, .file path once fatal, m⟩)
    (next : ∀ {second}, Starts config ⟨depth, .file path once fatal, m⟩ second → I.Ends second) :
    I.Ends ⟨depth, .file path once fatal, m⟩ := by
  rw [Ends, includeFile_eq]
  rcases hload : Library.loadFrom m.library path once with ⟨loaded, library⟩
  have hloaded := I.load hfirst.reached hfirst.machine hload
  cases loaded with
  | refused limit => exact .error hloaded (Or.inl (I.limit limit))
  | missing =>
    cases fatal with
    | true => exact .raise hloaded _
    | false => exact .ok (I.report hloaded rfl) (I.bool false)
  | skipped => exact .ok (I.report hloaded rfl) (I.bool true)
  | program resolved parsed =>
    cases parsed with
    | error error => exact .error hloaded (Or.inl (I.source error))
    | ok nodes =>
      refine Ending.orReturned ?_
      exact Ending.bind (next (.included hload)) fun _ _ _ hafter _ => .ok hafter I.one

end

/-! ## All moments -/

/-- An activity ends well if all that it starts does. -/
theorem Sound.ends_of_starts {first : Moment} (hfirst : I.Sound first)
    (next : ∀ {second}, Starts config first second → I.Ends second) : I.Ends first := by
  obtain ⟨depth, activity, m⟩ := first
  cases activity with
  | eval reading node =>
    obtain ⟨line, form⟩ := node
    cases hkind : form.isExpression with
    | true => exact hfirst.ends_expression next hkind
    | false => exact hfirst.ends_statement next hkind
  | keys target => exact hfirst.ends_keys next
  | list nodes =>
    cases nodes with
    | nil =>
      rw [Ends, evalList]
      exact .ok hfirst.machine fun v hv => by cases hv
    | cons node rest =>
      rw [Ends, evalList]
      refine (next .listHead).eval.bind fun value after hnode _ hvalue => ?_
      refine Ending.bind (next (.listTail hnode)) fun values _ _ hdone hvalues => .ok hdone ?_
      exact fun v hv => (List.mem_cons.mp hv).elim (fun heq => heq ▸ hvalue) (hvalues v)
  | block nodes =>
    cases nodes with
    | nil =>
      rw [Ends, evalBlock]
      exact .ok hfirst.machine trivial
    | cons node rest =>
      rw [Ends, evalBlock]
      exact (next .blockHead).eval.bind fun _ after hnode _ _ => next (.blockTail hnode)
  | elseIfs found clauses => exact hfirst.ends_elseIfs next
  | items table items => exact hfirst.ends_items next
  | loop valueVar keyVar nodes entries => exact hfirst.ends_loop next
  | write name keys value =>
    obtain ⟨hkeys, hvalue⟩ := hfirst.values
    refine .writeElement hfirst.machine fun hname written hwritten => ?_
    exact I.bind hfirst.reached (.written hwritten) hfirst.machine hname (I.write hfirst.reached hname
      (fun found hfound => I.read hfirst.machine hfound) hkeys hvalue hwritten)
  | call function args => exact hfirst.ends_call next
  | params function passed params args => exact hfirst.ends_params next
  | body nodes => exact hfirst.ends_body next
  | file path once fatal => exact hfirst.ends_file next
  | statements nodes => exact hfirst.ends_statements next

/-- An activity that begins at a moment at which the invariant holds ends as the invariant says. -/
theorem Sound.ends {moment : Moment} (h : I.Sound moment) : I.Ends moment := by
  have hall := @Moment.inductionOnStarts config (fun moment => I.Sound moment → I.Ends moment)
    fun first ih hfirst => hfirst.ends_of_starts
      fun hstarts => ih _ hstarts (hfirst.passes ih hstarts)
  exact hall moment h

/-- The invariant holds at all moments of a run if it holds at its start. -/
theorem Sound.leads {start moment : Moment} (h : I.Sound start)
    (hleads : start.Leads config moment) : I.Sound moment := by
  induction hleads with
  | refl => exact h
  | tail _ hstarts ih => exact ih.passes (fun _ _ hsound => hsound.ends) hstarts

/-- How an activity that begins at a moment at which the invariant holds ends, whatever it does. -/
theorem Sound.run_ends {moment : Moment} (h : I.Sound moment) :
    I.Ending I.loose (fun values => ∀ v ∈ values, I.value v)
      (moment.activity.run config moment.depth moment.machine) := by
  obtain ⟨depth, activity, m⟩ := moment
  have hends := h.ends
  have hnone : ∀ {after : Machine}, I.machine after →
      I.Ending I.loose (fun values => ∀ v ∈ values, I.value v) (.ok ([] : List Value) after) :=
    fun hafter => .ok hafter fun v hv => by cases hv
  have hone : ∀ {after : Machine} {value : Value}, I.machine after → I.value value →
      I.Ending I.loose (fun values => ∀ v ∈ values, I.value v) (.ok [value] after) :=
    fun hafter hvalue => .ok hafter fun v hv => List.mem_singleton.mp hv ▸ hvalue
  cases activity with
  | eval reading node => exact hends.eval.bind fun _ _ _ hafter hvalue => hone hafter hvalue
  | keys target =>
    refine Ending.bind hends fun keys _ _ hafter hkeys => .ok hafter fun v hv => ?_
    obtain ⟨key, hkey, rfl⟩ := List.mem_map.mp hv
    exact I.ofKey (hkeys key (by simpa using hkey))
  | list nodes => exact hends
  | block | elseIfs | loop | write | params | statements =>
    exact Ending.bind hends fun _ _ _ hafter _ => hnone hafter
  | items | call | file =>
    exact Ending.bind hends fun _ _ _ hafter hvalue => hone hafter hvalue
  | body nodes =>
    refine Ending.bind hends fun result _ _ hafter hresult => .ok hafter fun v hv => ?_
    exact hresult v (by simpa using hv)

theorem Sound.machine_after {moment : Moment} (h : I.Sound moment) :
    I.machine ((moment.activity.run config moment.depth).after moment.machine) := by
  have hends := h.run_ends
  unfold Eval.after
  generalize moment.activity.run config moment.depth moment.machine = ends at hends
  cases hends with
  | ok hafter _ => exact hafter
  | error hafter _ => exact hafter

/-- The invariant holds of all values at a moment, if it holds of the variables of its machines. -/
theorem Sound.moment_values {moment : Moment} (h : I.Sound moment)
    (hvariables : ∀ machine, I.machine machine → ∀ v ∈ machine.values, I.value v) :
    ∀ v ∈ moment.values config, I.value v := by
  have hends := h.run_ends
  have hstart : ∀ v ∈ moment.activity.values, I.value v := by
    obtain ⟨depth, activity, m⟩ := moment
    have hvalues : I.StartsWell activity := h.values
    cases activity with
    | items table rest => exact fun v hv => List.mem_singleton.mp hv ▸ hvalues
    | loop valueVar keyVar nodes entries =>
      intro v hv
      obtain ⟨entry, hentry, rfl⟩ := List.mem_map.mp hv
      exact (hvalues entry hentry).2
    | write name keys value => exact fun v hv => List.mem_singleton.mp hv ▸ hvalues.2
    | call | params => exact hvalues
    | _ => exact fun v hv => by cases hv
  intro v hv
  unfold Moment.values at hv
  generalize moment.activity.run config moment.depth moment.machine = ends at hends hv
  rcases List.mem_append.mp hv with hv | hv
  · rcases List.mem_append.mp hv with hv | hv
    · exact hvariables _ h.machine v hv
    · exact hstart v hv
  · cases hends with
    | ok hafter hvalues =>
      rcases List.mem_append.mp hv with hv | hv
      · exact hvalues v hv
      · exact hvariables _ hafter v hv
    | @error exit _ hafter hexit =>
      cases exit with
      | returned value =>
        rcases List.mem_cons.mp hv with rfl | hv
        · exact loose_returned hexit
        · exact hvariables _ hafter v hv
      | fault fault => exact hvariables _ hafter v hv

end RunInvariant

end WebScript
