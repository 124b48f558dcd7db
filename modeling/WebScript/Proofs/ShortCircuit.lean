import WebScript.Proofs.ArrayShape
import WebScript.Proofs.EffectFree

/-!
# Short-circuit evaluation

Where everything that may be skipped is effect-free, skipping it makes no difference to a run that
does not fail: evaluating all operands and all conditions gives the same values, variables, functions,
files and output, and at most more reports.
-/

namespace WebScript

/-! ## What may be skipped -/

/-- Operators whose right operand may be skipped. -/
def BinaryOperator.isLazy : BinaryOperator → Bool
  | .booleanAnd | .booleanOr | .logicalAnd | .logicalOr | .coalesce => true
  | _ => false

/-- The nodes directly inside a node that short-circuit evaluation may skip. -/
def Form.optional {ν : Type} : Form ν → List ν
  | .binary op _ right => if op.isLazy then [right] else []
  | .compoundAssign op _ expr => if op = .coalesce then [expr] else []
  | .conditional _ _ elseIfs _ => elseIfs.map ElseIf.cond
  | _ => []

/-- Whatever may be skipped in a node, functions declared in it included, is effect-free. -/
def Node.SkipsEffectFree (node : Node) : Prop :=
  ∀ inner : Node, inner.Inside node → ∀ part ∈ inner.form.optional, part.EffectFree

theorem Node.SkipsEffectFree.child {node child : Node} (h : node.SkipsEffectFree)
    (hchild : child ∈ node.children) : child.SkipsEffectFree :=
  fun inner hinner => h inner (hinner.of_child hchild)

/-- The configuration under which nothing is skipped. -/
def Config.eager (config : Config) : Config :=
  { config with shortCircuit := false, shortCircuitElseIf := false }

/-- The configuration under which everything is skipped that does not matter. -/
def Config.lazy (config : Config) : Config :=
  { config with shortCircuit := true, shortCircuitElseIf := true }

/-! ## Values of skipped operands do not matter -/

/-- A left operand that decides an operator does so for any right operand. -/
theorem BinaryOperator.apply_of_decided {op : BinaryOperator} {left v : Value}
    (h : op.decided? left = some v) (right : Value) : op.apply left right = pure v := by
  cases op with
  | booleanAnd | logicalAnd =>
    simp only [BinaryOperator.decided?] at h
    split at h
    · cases h
    · rename_i hfalse
      cases h
      simp only [BinaryOperator.apply, Bool.not_eq_true _ ▸ hfalse, Bool.false_and]
  | booleanOr | logicalOr =>
    simp only [BinaryOperator.decided?] at h
    split at h
    · rename_i htrue
      cases h
      simp only [BinaryOperator.apply, htrue, Bool.true_or]
    · cases h
  | _ => cases h

theorem BinaryOperator.coalesce_apply_of_not_null {left : Value} (h : left.isNull = false)
    (right : Value) : BinaryOperator.coalesce.apply left right = pure left := by
  cases left with
  | null => cases h
  | _ => rfl

theorem ofNoted_pure {α : Type} (value : α) : Eval.ofNoted (pure value) = pure value := rfl

/-! ## Writing back what was read -/

/-- Storing what is stored already leaves a sound table as it is. -/
theorem Table.Sound.set_same {ν : Type} {table : Table ν} (h : table.Sound) {key : Key} {v : ν}
    (hget : table.get? key = some v) : table.set key v = table := by
  have hentries : Dict.insert key v table.entries = table.entries := Dict.insert_of_get? hget
  have hnext : bumpNext table.next key = table.next := by
    rw [h.next]
    exact bumpNext_of_mem (Dict.mem_keys_of_get? hget)
  unfold Table.set
  rw [hentries, hnext]

/-- Writing at a key writes what is left of the path into the element there. -/
theorem writePath_array_some (table : Table Value) (v : Value) (key : Key)
    (rest : List (Option Key)) :
    writePath (some (.array table)) v (some key :: rest) =
      (writePath (table.get? key) v rest).map fun inner => .array (table.set key inner) := by
  show (writePath (table.get? key) v rest >>= fun inner =>
    pure (Value.array (table.set key inner))) = _
  cases writePath (table.get? key) v rest <;> rfl

/-- Writing the element that was read along a path changes nothing. -/
theorem writePath_readPath {container current : Value} {keys : List Key}
    (hsound : container.Sound) (hread : readPath true container keys = .ok current)
    (hnull : current.isNull = false) :
    writePath (some container) current (keys.map some) = .ok container := by
  induction keys generalizing container with
  | nil =>
    cases hread
    rfl
  | cons key rest ih =>
    cases container with
    | array table =>
      obtain ⟨htable, hentries⟩ := Value.sound_array.mp hsound
      simp only [readPath] at hread
      cases hget : table.get? key with
      | none =>
        rw [hget] at hread
        cases hread
        cases hnull
      | some inner =>
        rw [hget] at hread
        have hinner := ih (hentries _ (Dict.mem_of_get? hget)) hread
        rw [List.map_cons, writePath_array_some, hget, hinner]
        exact congrArg (fun table => Except.ok (Value.array table)) (htable.set_same hget)
    | null =>
      cases hread
      cases hnull
    | _ => cases hread

theorem map_some_filterMap_id {path : List (Option Key)} (h : none ∉ path) :
    (path.filterMap id).map some = path := by
  induction path with
  | nil => rfl
  | cons key rest ih =>
    have hrest := ih fun hmem => h (List.mem_cons_of_mem _ hmem)
    cases key with
    | none => exact absurd List.mem_cons_self h
    | some key => simpa using hrest

theorem withVariable_of_get? {machine : Machine} {name : String} {value : Value}
    (h : machine.scope.get? name = some value) : machine.withVariable name value = machine := by
  have hinsert : Dict.insert name value machine.scope.bindings = machine.scope.bindings :=
    Dict.insert_of_get? h
  unfold Machine.withVariable
  rw [hinsert]

/-- Writing back an element that was read, as long as the variables stay as they are, gives the
    variable the value that it has. -/
theorem writeElement_readElement {machine later : Machine} {name : String} {keys : List Key}
    {current : Value} (hvalues : ∀ v ∈ machine.values, v.Sound) (hnull : current.isNull = false)
    (hread : Eval.readElement true name keys machine = .ok current machine)
    (hscope : later.scope = machine.scope) :
    ∃ value, later.scope.get? name = some value ∧
      Eval.writeElement name (keys.map some) current later = Eval.setVariable name value later := by
  rw [readElement_eq] at hread
  cases hget : machine.scope.get? name with
  | none =>
    rw [hget] at hread
    cases hread
    cases hnull
  | some value =>
    rw [hget] at hread
    have hsound : value.Sound := hvalues value (List.mem_map.mpr ⟨_, Dict.mem_of_get? hget, rfl⟩)
    have hpath : readPath true value keys = .ok current := by
      cases hpath : readPath true value keys with
      | error cause =>
        simp only [hpath] at hread
        cases hread
      | ok found =>
        simp only [hpath] at hread
        cases hread
        rfl
    rw [← hscope] at hget
    refine ⟨value, hget, ?_⟩
    show (Eval.ofCause (writePath (later.scope.get? name) current (keys.map some)) >>=
      Eval.setVariable name) later = _
    rw [hget, writePath_readPath hsound hpath hnull]
    rfl

/-- An element that is read to be replaced if it is null can be written back without a change, as
    long as the variables stay as they are. -/
theorem writeElement_of_read {machine later : Machine} {name : String} {keys : List Key}
    {current : Value} (hvalues : ∀ v ∈ machine.values, v.Sound) (hnull : current.isNull = false)
    (hread : Eval.readElement true name keys machine = .ok current machine)
    (hscope : later.scope = machine.scope) :
    Eval.writeElement name (keys.map some) current later = .ok () later ∨
      ∃ fault,
        Eval.writeElement name (keys.map some) current later = .error (.fault fault) later := by
  obtain ⟨value, hget, hwrite⟩ := writeElement_readElement hvalues hnull hread hscope
  rw [hwrite, Simulation.setVariable_eq]
  by_cases hname : name = reservedName
  · rw [if_pos hname]
    exact Or.inr ⟨_, rfl⟩
  · rw [if_neg hname, withVariable_of_get? hget]
    exact Or.inl rfl

/-! ## The simulation -/

/-- A run that skips nothing, and does not fail, beside one that may skip what is effect-free. -/
def lazySimulation : Simulation :=
  ValueInvariant.sound.alongside Node.SkipsEffectFree Exit.IsFault Exit.IsFault.locate

namespace Simulation

variable {α β : Type} {Q : β → Prop}

theorem rel_events_left {m₁ m₂ : Machine} (h : lazySimulation.rel m₁ m₂) (events : List Event) :
    lazySimulation.rel (m₁.withEvents events) m₂ := by
  obtain ⟨hsame, hkeeps⟩ := h
  exact ⟨⟨hsame.1, hsame.2, hsame.3, hsame.4, hsame.5⟩, ⟨hkeeps.1, ⟨hkeeps.2.1, hkeeps.2.2⟩⟩⟩

/-- What is quiet may be evaluated on one side alone. -/
theorem Outcomes.skip {action : Eval α} {next : α → Eval β} {m₁ : Machine}
    {ends₂ : EStateM.Result Exit Machine β} (hquiet : Eval.Quiet action)
    (h : ∀ value events, lazySimulation.Outcomes Q (next value (m₁.withEvents events)) ends₂) :
    lazySimulation.Outcomes Q ((action >>= next) m₁) ends₂ := by
  rcases hquiet m₁ with ⟨value, events, hrun⟩ | ⟨fault, events, hrun⟩
  · rw [Eval.bind_of_ok next hrun]
    exact h value events
  · rw [Eval.bind_of_error next hrun]
    exact .excused ⟨fault, rfl⟩

/-- The second run may skip what is quiet in the first. -/
theorem Refines.skip {action : Eval α} {next : α → Eval β} {other : Eval β}
    (hquiet : Eval.Quiet action) (h : ∀ value, lazySimulation.Refines Q (next value) other) :
    lazySimulation.Refines Q (action >>= next) other :=
  fun _ _ hrel => Outcomes.skip hquiet fun value events =>
    h value _ _ (rel_events_left hrel events)

variable {config : Config} {d₁ d₂ : Node → Eval Value}

/-- An operand that is skipped is effect-free, and the operator has the value that the left operand
    decides. -/
theorem Refines.lazyBinary {op : BinaryOperator} {left right : Node} (hop : op ≠ .coalesce)
    (hskips : op.isLazy = true → right.EffectFree)
    (hleft : lazySimulation.Follows config.eager d₁ config.lazy d₂ left)
    (hright : lazySimulation.Follows config.eager d₁ config.lazy d₂ right) (reading : Reading)
    (line : Option Int) :
    lazySimulation.Refines lazySimulation.value
      (Node.evalAs config.eager d₁ reading ⟨line, .binary op left right⟩)
      (Node.evalAs config.lazy d₂ reading ⟨line, .binary op left right⟩) := by
  rw [Node.evalAs, Node.evalAs]
  · refine Refines.located line ((hleft.eval .strict).andThen fun leftValue hleftValue => ?_)
    simp only [Config.eager, Config.lazy, Bool.false_eq_true, if_false, if_true]
    cases hdecided : op.decided? leftValue with
    | none =>
      refine (hright.eval .strict).andThen fun rightValue hrightValue => ?_
      exact Refines.ofNoted fun v hv => lazySimulation.binary hleftValue hrightValue hv
    | some value =>
      have hlazy : op.isLazy = true := by
        cases op <;> first | rfl | cases hdecided
      refine Refines.skip ((hskips hlazy).quiet .strict) fun rightValue => ?_
      rw [BinaryOperator.apply_of_decided hdecided, ofNoted_pure]
      exact Refines.ofValue (lazySimulation.value_decided? hdecided)
  all_goals exact hop

/-- A right operand that is skipped is effect-free, and the value is that of the left one. -/
theorem Refines.lazyCoalesce {left right : Node} (hskips : right.EffectFree)
    (hleft : lazySimulation.Follows config.eager d₁ config.lazy d₂ left)
    (hright : lazySimulation.Follows config.eager d₁ config.lazy d₂ right) (reading : Reading)
    (line : Option Int) :
    lazySimulation.Refines lazySimulation.value
      (Node.evalAs config.eager d₁ reading ⟨line, .binary .coalesce left right⟩)
      (Node.evalAs config.lazy d₂ reading ⟨line, .binary .coalesce left right⟩) := by
  rw [Node.evalAs, Node.evalAs]
  refine Refines.located line ((hleft.eval .lenient).andThen fun leftValue hleftValue => ?_)
  simp only [Config.eager, Config.lazy, Bool.false_and, Bool.true_and, Bool.false_eq_true, if_false]
  cases hnull : leftValue.isNull with
  | true =>
    refine (hright.eval .strict).andThen fun rightValue hrightValue => ?_
    exact Refines.ofNoted fun v hv => lazySimulation.binary hleftValue hrightValue hv
  | false =>
    refine Refines.skip (hskips.quiet .strict) fun rightValue => ?_
    rw [BinaryOperator.coalesce_apply_of_not_null hnull, ofNoted_pure]
    exact Refines.ofValue hleftValue

/-- Conditions after the one that holds are evaluated for nothing. -/
theorem Refines.elseIfsAfterFound {elseIfs : List (ElseIf Node)}
    (hskips : ∀ clause ∈ elseIfs, clause.cond.EffectFree) :
    lazySimulation.Refines (fun _ => True) (WebScript.evalElseIfs config.eager d₁ true elseIfs)
      (pure true) := by
  induction elseIfs with
  | nil =>
    rw [WebScript.evalElseIfs]
    exact Refines.ofValue trivial
  | cons clause rest ih =>
    obtain ⟨line, cond, body⟩ := clause
    rw [WebScript.evalElseIfs]
    refine Refines.skip ((hskips _ List.mem_cons_self).quiet .strict) fun value => ?_
    simp only [Bool.not_true, Bool.and_false, Bool.false_eq_true, if_false]
    exact ih fun clause hclause => hskips clause (List.mem_cons_of_mem _ hclause)

/-- The conditions after one that holds are effect-free, so that they may be left out. -/
theorem Refines.lazyElseIfs {elseIfs : List (ElseIf Node)}
    (hskips : ∀ clause ∈ elseIfs, clause.cond.EffectFree)
    (h : ∀ node ∈ Form.elseIfNodes elseIfs,
      lazySimulation.Follows config.eager d₁ config.lazy d₂ node) :
    lazySimulation.Refines (fun _ => True) (WebScript.evalElseIfs config.eager d₁ false elseIfs)
      (WebScript.evalElseIfs config.lazy d₂ false elseIfs) := by
  induction elseIfs with
  | nil =>
    rw [WebScript.evalElseIfs, WebScript.evalElseIfs]
    exact Refines.ofValue trivial
  | cons clause rest ih =>
    obtain ⟨line, cond, body⟩ := clause
    have hskipsRest : ∀ clause ∈ rest, clause.cond.EffectFree :=
      fun clause hclause => hskips clause (List.mem_cons_of_mem _ hclause)
    have hcond := h cond (List.mem_append_left _ List.mem_cons_self)
    have hbody : ∀ node ∈ body, lazySimulation.Follows config.eager d₁ config.lazy d₂ node :=
      fun node hnode => h node (List.mem_append_left _ (List.mem_cons_of_mem _ hnode))
    have hfound : WebScript.evalElseIfs config.lazy d₂ true rest = pure true := by
      cases rest with
      | nil => rw [WebScript.evalElseIfs]
      | cons clause others =>
        rw [WebScript.evalElseIfs]
        rfl
    rw [WebScript.evalElseIfs, WebScript.evalElseIfs]
    refine (hcond.eval .strict).andThen fun value _ => ?_
    refine Refines.ite (fun _ => ?_) fun _ => ?_
    · refine (Refines.evalBlock hbody).andThen fun _ _ => ?_
      rw [hfound]
      exact Refines.elseIfsAfterFound hskipsRest
    · exact ih hskipsRest fun node hnode => h node (List.mem_append_right _ hnode)

/-- Where the update is skipped, the other run writes back what it has read. -/
theorem Refines.lazyUpdate {expr : Node} {name : String} {path : List (Option Key)}
    (hskips : expr.EffectFree) (hexpr : lazySimulation.Follows config.eager d₁ config.lazy d₂ expr)
    (hpath : lazySimulation.path path) (hnone : none ∉ path) :
    lazySimulation.Refines lazySimulation.value
      (do
        let current ← Eval.readElement true name (path.filterMap id)
        if config.eager.shortCircuit && !current.isNull then pure current
        else
          let right ← expr.evalAs config.eager d₁ .strict
          let value ← Eval.ofNoted (BinaryOperator.coalesce.apply current right)
          Eval.writeElement name path value
          pure value)
      (do
        let current ← Eval.readElement true name (path.filterMap id)
        if config.lazy.shortCircuit && !current.isNull then pure current
        else
          let right ← expr.evalAs config.lazy d₂ .strict
          let value ← Eval.ofNoted (BinaryOperator.coalesce.apply current right)
          Eval.writeElement name path value
          pure value) := by
  intro m₁ m₂ hrel
  rcases readElement_cases true name (path.filterMap id) m₁ with ⟨current, hread⟩ | ⟨fault, hread⟩
  · have hends : lazySimulation.Outcomes lazySimulation.value
        (Eval.readElement true name (path.filterMap id) m₁)
        (Eval.readElement true name (path.filterMap id) m₂) :=
      Refines.readElement trivial m₁ m₂ hrel
    rw [hread] at hends
    generalize hread₂ : Eval.readElement true name (path.filterMap id) m₂ = ends₂ at hends
    cases hends with
    | ok hafter hcurrent =>
      rw [Eval.bind_of_ok _ hread, Eval.bind_of_ok _ hread₂]
      cases hnull : current.isNull with
      | true =>
        refine Refines.andThen (hexpr.eval .strict) (fun right hright => ?_) _ _ hafter
        exact Refines.update trivial hpath hcurrent hright
      | false =>
        refine Outcomes.skip (hskips.quiet .strict) fun right events => ?_
        rw [BinaryOperator.coalesce_apply_of_not_null hnull, ofNoted_pure]
        show lazySimulation.Outcomes _
          ((Eval.writeElement name path current >>= fun _ => pure current) (m₁.withEvents events))
          (.ok current _)
        -- The element that is written back is still the one there.
        rw [← map_some_filterMap_id hnone]
        rcases writeElement_of_read hrel.2.values hnull hread
          (show (m₁.withEvents events).scope = m₁.scope from rfl) with hwrite | ⟨fault, hwrite⟩
        · rw [Eval.bind_of_ok _ hwrite]
          exact .ok (rel_events_left hafter events) hcurrent
        · rw [Eval.bind_of_error _ hwrite]
          exact .excused ⟨fault, rfl⟩
  · rw [Eval.bind_of_error _ hread]
    exact .excused ⟨fault, rfl⟩

theorem lazy_admits : lazySimulation.Admits Node.SkipsEffectFree :=
  ValueInvariant.alongside_admits (fun h hchild => h.child hchild)
    fun _ => Value.IsScalar.sound trivial

theorem lazy_nests : lazySimulation.Nests Node.SkipsEffectFree :=
  ValueInvariant.alongside_nests

theorem lazy_returned (v : Value) : ¬ lazySimulation.excused (.returned v) := by
  rintro ⟨fault, h⟩
  cases h

/-- Every node that skips only what is effect-free is followed, with skipping or without. -/
theorem lazy_follows
    (hdeeper : ∀ inner, inner.SkipsEffectFree →
      lazySimulation.Refines lazySimulation.value (d₁ inner) (d₂ inner)) (whole : Node)
    (hwhole : whole.SkipsEffectFree) :
    lazySimulation.Follows config.eager d₁ config.lazy d₂ whole := by
  refine follows_of_asking lazy_admits (fun whole hwhole hasks hparts reading => ?_) whole hwhole
  have hskips := hwhole whole (.refl whole)
  obtain ⟨line, form⟩ := whole
  cases form with
  | ret expr =>
    have hreturn : config.eager.propagateReturn = config.lazy.propagateReturn := rfl
    refine Refines.ret hreturn (fun node hnode => ?_) reading line
    subst hnode
    exact hparts node List.mem_cons_self
  | conditional cond body elseIfs last =>
    have hpart : ∀ node, node ∈ cond :: body ++ Form.elseIfNodes elseIfs ++
        Form.otherwiseNodes last →
          lazySimulation.Follows config.eager d₁ config.lazy d₂ node := hparts
    have hconds : ∀ clause ∈ elseIfs, clause.cond.EffectFree :=
      fun clause hclause => hskips _ (List.mem_map.mpr ⟨clause, hclause, rfl⟩)
    exact Refines.conditional (hpart cond (by simp)) (fun node hnode => hpart node (by simp [hnode]))
      (Refines.lazyElseIfs hconds fun node hnode => hpart node (by simp [hnode]))
      (fun node hnode => hpart node (by simp [hnode])) reading line
  | binary op left right =>
    have hleft := hparts left List.mem_cons_self
    have hright := hparts right (List.mem_cons_of_mem _ List.mem_cons_self)
    have hfree : op.isLazy = true → right.EffectFree :=
      fun hlazy => hskips right (by simp [Form.optional, hlazy])
    by_cases hop : op = .coalesce
    · subst hop
      exact Refines.lazyCoalesce (hfree rfl) hleft hright reading line
    · exact Refines.lazyBinary hop hfree hleft hright reading line
  | compoundAssign op target expr =>
    have hexpr := hparts expr (List.mem_cons_of_mem _ List.mem_cons_self)
    refine Refines.compoundAssign (hparts target List.mem_cons_self) (fun _ _ => trivial)
      (fun hop name path _ hpath hnone => ?_) hexpr reading line
    subst hop
    have hfree : expr.EffectFree := hskips expr (by simp [Form.optional])
    exact Refines.lazyUpdate hfree hexpr hpath hnone
  | call name args =>
    refine Refines.call hparts (fun m₁ m₂ function values hrel hfunction hvalues => ?_) reading line
    exact Refines.callFunction lazy_nests lazy_returned rfl rfl (lazy_nests.param hrel hfunction)
      (fun inner hinner => hdeeper inner (lazy_nests.body hrel hfunction inner hinner)) hvalues
  | require path once fatal =>
    exact Refines.require (hparts path List.mem_cons_self)
      (fun text => Refines.includeFile lazy_nests.toLoads lazy_returned hdeeper text once fatal)
      reading line
  | _ => cases hasks

/-- The same for nodes at the outermost level, with the whole depth left for calls. -/
theorem lazy_evalNode (config : Config) (node : Node) (hnode : node.SkipsEffectFree) :
    lazySimulation.Refines lazySimulation.value (evalNode config.eager node)
      (evalNode config.lazy node) :=
  refines_evalWithin (fun _ _ => lazy_follows) maxNesting node hnode

end Simulation

/-! ## Runs -/

/-- Under short-circuit evaluation a node or a program ends as it does when everything is evaluated,
    unless that fails, and leaves the same variables, functions, files and output. Everything that
    may be skipped must be effect-free, in the program as well as in its functions and files, and
    the arrays in the variables at the start must be sound. -/
theorem short_circuit_refines_eager (config : Config) (nodes : List Node) (machine : Machine)
    (hnodes : ∀ node ∈ nodes, node.SkipsEffectFree)
    (hprograms : machine.Consists Node.SkipsEffectFree)
    (hvalues : ∀ v ∈ machine.values, v.Sound) :
    (∀ node ∈ nodes,
      (∀ fault, (evalNode config.eager node).ending machine ≠ .error (.fault fault)) →
      (evalNode config.lazy node).ending machine = (evalNode config.eager node).ending machine ∧
      ((evalNode config.eager node).after machine).SameButLog
        ((evalNode config.lazy node).after machine)) ∧
    ((∀ fault, (evalProgram config.eager nodes machine).1 ≠ .failed fault) →
      (evalProgram config.lazy nodes machine).1 = (evalProgram config.eager nodes machine).1 ∧
      (evalProgram config.eager nodes machine).2.SameButLog
        (evalProgram config.lazy nodes machine).2) := by
  have hrel : lazySimulation.rel machine machine := ⟨.refl machine, ⟨hvalues, hprograms⟩⟩
  constructor
  · intro node hnode hfault
    have hends := Simulation.lazy_evalNode config node (hnodes node hnode) machine machine hrel
    unfold Eval.ending at hfault ⊢
    unfold Eval.after
    generalize evalNode config.eager node machine = ends₁ at hends hfault ⊢
    generalize evalNode config.lazy node machine = ends₂ at hends ⊢
    cases hends with
    | ok hafter _ => exact ⟨rfl, hafter.1⟩
    | error hafter _ => exact ⟨rfl, hafter.1⟩
    | excused hexit =>
      obtain ⟨fault, rfl⟩ := hexit
      exact absurd rfl (hfault fault)
  · intro hfault
    have hends := Simulation.Refines.runStatements
      (fun inner hinner => Simulation.lazy_evalNode config inner (hnodes inner hinner)) machine
      machine hrel
    unfold evalProgram at hfault ⊢
    generalize runStatements (evalNode config.eager) nodes machine = ends₁ at hends hfault ⊢
    generalize runStatements (evalNode config.lazy) nodes machine = ends₂ at hends ⊢
    cases hends with
    | ok hafter _ => exact ⟨rfl, hafter.1⟩
    | @error exit _ _ hafter _ =>
      cases exit with
      | returned value => exact ⟨rfl, hafter.1⟩
      | fault fault => exact ⟨rfl, hafter.1⟩
    | excused hexit =>
      obtain ⟨fault, rfl⟩ := hexit
      exact absurd rfl (hfault fault)

/-- `$a["k"] ??= 2;` writes the element back when everything is evaluated, and does not touch it
    under short-circuit evaluation. -/
theorem short_circuit_refines_eager_update :
    let target : Node := ⟨none, .index ⟨none, .variable "a"⟩ (some ⟨none, .str "k"⟩)⟩
    let node : Node := ⟨none, .compoundAssign .coalesce target ⟨none, .int 2⟩⟩
    let table : Table Value := (Table.empty.set (.str "k") (.int 7)).set (.int 3) .null
    let machine : Machine := ⟨⟨[("a", .array table)], 0⟩, .empty, none, "", [], 0⟩
    let config : Config := {}
    (∀ fault, (evalProgram config.eager [node] machine).1 ≠ .failed fault) ∧
      (evalProgram config.lazy [node] machine).1 = (evalProgram config.eager [node] machine).1 ∧
      (evalProgram config.eager [node] machine).2.SameButLog
        (evalProgram config.lazy [node] machine).2 := by
  intro target node table machine config
  have hfault : ∀ fault, (evalProgram config.eager [node] machine).1 ≠ .failed fault := by
    have hrun : (evalProgram config.eager [node] machine).1 = .finished := by cbv
    intro fault h
    cases hrun.symm.trans h
  have hnode : node.SkipsEffectFree := by
    intro inner hinner part hpart
    have hinside : inner = node ∨ inner.form.optional = [] := by
      simp only [node, target, Node.inside_mk, Form.children, Option.toList, List.mem_cons,
        List.not_mem_nil, or_false, exists_eq_or_imp, exists_eq_left, false_and,
        exists_false] at hinner
      rcases hinner with rfl | (rfl | rfl | rfl) | rfl
      · exact Or.inl rfl
      all_goals exact Or.inr rfl
    rcases hinside with rfl | hinside
    · cases List.mem_singleton.mp hpart
      intro inner hinner
      simp only [Node.within_mk, Form.parts, Form.children, List.not_mem_nil, false_and,
        exists_false, or_false] at hinner
      subst hinner
      rfl
    · rw [hinside] at hpart
      cases hpart
  have hsound : (Value.array table).Sound := by
    have hempty : (Value.array .empty).Sound := ValueInvariant.sound.empty
    have hkey : (Key.str "k").Normal := by
      unfold Key.Normal
      cbv
    have hnumber : (Key.int 3).Normal := rfl
    have hseven : (Value.int 7).Sound := Value.IsScalar.sound trivial
    exact (hempty.set hkey hseven).set hnumber ValueInvariant.sound.null
  have hprograms : machine.Consists Node.SkipsEffectFree := by
    refine ⟨fun name function h => ?_, fun library hlibrary => ?_⟩
    · cases h
    · cases hlibrary
  obtain ⟨-, hprogram⟩ := short_circuit_refines_eager config [node] machine
    (fun inner hinner => List.mem_singleton.mp hinner ▸ hnode) hprograms
    fun v hv => List.mem_singleton.mp hv ▸ hsound
  exact ⟨hfault, hprogram hfault⟩

end WebScript
