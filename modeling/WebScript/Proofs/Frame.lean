import WebScript.Proofs.SimulationSteps
import WebScript.Run

/-!
# The variables that evaluation touches

Evaluating a node gives values only to the variables that the node binds by its text, and depends
only on those that it mentions. Functions that are called on the way do not matter: each runs on
variables of its own, and its caller's variables are in sight again when it ends, whatever its end.
-/

namespace WebScript

/-! ## Variables of a node -/

/-- The node itself gives a variable a value. -/
def Node.BindsHere (node : Node) (name : String) : Prop :=
  match node.form with
  | .assign target _ | .compoundAssign _ target _ => target.root? = some name
  | .foreach _ valueVar _ keyVar => name = valueVar ∨ keyVar = some name
  | _ => False

/-- A variable is bound by a node: it is the root of the target of an assignment, or a variable of a
    loop, somewhere in the node. -/
def Node.Binds (node : Node) (name : String) : Prop :=
  ∃ part : Node, part.Within node ∧ part.BindsHere name

/-- A variable is mentioned by a node: it is bound by it or occurs as a variable in it. -/
def Node.Mentions (node : Node) (name : String) : Prop :=
  node.Binds name ∨ ∃ line : Option Int, (⟨line, .variable name⟩ : Node).Within node

theorem Node.Binds.of_part {part whole : Node} {name : String} (h : part.Binds name)
    (hpart : part ∈ whole.parts) : whole.Binds name := by
  obtain ⟨inner, hinner, hhere⟩ := h
  exact ⟨inner, hinner.of_part hpart, hhere⟩

theorem Node.Mentions.of_part {part whole : Node} {name : String} (h : part.Mentions name)
    (hpart : part ∈ whole.parts) : whole.Mentions name := by
  rcases h with hbinds | ⟨line, hinner⟩
  · exact Or.inl (hbinds.of_part hpart)
  · exact Or.inr ⟨line, hinner.of_part hpart⟩

/-- No other file is run by the node itself. -/
def Node.RequireFree (node : Node) : Prop :=
  ∀ part : Node, part.Within node → ∀ path once fatal, part.form ≠ .require path once fatal

/-! ## Machines -/

/-- Machines that differ at most in variables outside a set. -/
structure Machine.AgreeOn (names : String → Prop) (first second : Machine) : Prop where
  bindings (name : String) (hname : names name) :
    first.scope.get? name = second.scope.get? name
  functions : first.functions = second.functions
  library : first.library = second.library
  output : first.output = second.output
  log : first.log = second.log
  callDepth : first.callDepth = second.callDepth

/-- Only variables of a set may differ from what they were, and the same scope is in sight, in the
    same call. -/
structure Machine.KeepsOutside (names : String → Prop) (before after : Machine) : Prop where
  bindings (name : String) (hname : ¬ names name) :
    after.scope.get? name = before.scope.get? name
  callDepth : after.callDepth = before.callDepth
  generation : after.scope.generation = before.scope.generation

theorem Machine.KeepsOutside.refl (names : String → Prop) (machine : Machine) :
    machine.KeepsOutside names machine :=
  ⟨fun _ _ => rfl, rfl, rfl⟩

theorem Machine.get?_withVariable (machine : Machine) (name other : String) (value : Value) :
    (machine.withVariable name value).scope.get? other =
      if other = name then some value else machine.scope.get? other := by
  unfold Machine.withVariable Scope.get?
  by_cases h : other = name
  · subst h
    rw [if_pos rfl]
    exact Dict.get?_insert_self _ _ _
  · rw [if_neg h]
    exact Dict.get?_insert_of_ne h _ _

/-! ## The simulation -/

/-- What holds of all values. -/
def ValueInvariant.always : ValueInvariant where
  value _ := True
  key _ := True
  null := True.intro
  bool _ := True.intro
  str _ := True.intro
  float _ := True.intro
  one := True.intro
  binary _ _ _ := True.intro
  unary _ _ := True.intro
  toKey _ _ := True.intro
  ofKey _ := True.intro
  empty := True.intro
  set _ _ _ := True.intro
  append _ _ := True.intro
  entry _ _ := ⟨True.intro, True.intro⟩

section

variable (readable bindable : String → Prop) (hreadable : ∀ name, bindable name → readable name)
  (start₁ start₂ : Machine)

/-- Two runs that started from the given machines, agree on the readable variables, and have given
    values to bindable ones only. -/
def frameSimulation : Simulation where
  toValueInvariant := .always
  rel m₁ m₂ := m₁.AgreeOn readable m₂ ∧ start₁.KeepsOutside bindable m₁ ∧
    start₂.KeepsOutside bindable m₂
  excused _ := False
  readable := readable
  bindable := bindable
  excused_locate _ h := h
  readable_of_bindable h := hreadable _ h
  rel_events events h := by
    obtain ⟨hagree, hkeeps₁, hkeeps₂⟩ := h
    have hlog := congrArg (events ++ ·) hagree.log
    exact ⟨{ hagree with log := hlog }, ⟨hkeeps₁.1, hkeeps₁.2, hkeeps₁.3⟩,
      ⟨hkeeps₂.1, hkeeps₂.2, hkeeps₂.3⟩⟩
  rel_output text h := by
    obtain ⟨hagree, hkeeps₁, hkeeps₂⟩ := h
    have houtput := congrArg (· ++ text) hagree.output
    exact ⟨{ hagree with output := houtput }, ⟨hkeeps₁.1, hkeeps₁.2, hkeeps₁.3⟩,
      ⟨hkeeps₂.1, hkeeps₂.2, hkeeps₂.3⟩⟩
  rel_functions h := h.1.functions
  rel_callDepth h := h.1.callDepth
  rel_read h hname := h.1.bindings _ hname
  rel_generation h hafter :=
    iff_of_true (hafter.2.1.generation.trans h.2.1.generation.symm)
      (hafter.2.2.generation.trans h.2.2.generation.symm)
  value_read _ _ _ := True.intro
  rel_bind := by
    intro m₁ m₂ name v h hname hne hv
    obtain ⟨hagree, hkeeps₁, hkeeps₂⟩ := h
    have hother : ∀ {start machine : Machine}, start.KeepsOutside bindable machine →
        start.KeepsOutside bindable (machine.withVariable name v) := by
      intro start machine hkeeps
      refine ⟨fun other hother => ?_, hkeeps.callDepth, hkeeps.generation⟩
      have hne : other ≠ name := fun heq => hother (heq ▸ hname)
      rw [Machine.get?_withVariable, if_neg hne]
      exact hkeeps.bindings other hother
    refine ⟨⟨fun other hread => ?_, hagree.functions, hagree.library, hagree.output, hagree.log,
      hagree.callDepth⟩, hother hkeeps₁, hother hkeeps₂⟩
    rw [Machine.get?_withVariable, Machine.get?_withVariable, hagree.bindings other hread]

variable {readable bindable hreadable start₁ start₂}

/-- A called function runs on the same machine in both runs, for it sees none of the variables in
    which they differ. -/
theorem frameSimulation_call {config : Config} (hrestore : config.restoreScopeOnReturn = true)
    (deeper : Node → Eval Value) (function : Function) (values : List Value) :
    (frameSimulation readable bindable hreadable start₁ start₂).Refines (fun _ => True)
      (callFunction deeper config function values)
      (callFunction deeper config function values) := by
  intro m₁ m₂ hrel
  obtain ⟨hagree, hkeeps₁, hkeeps₂⟩ := hrel
  have hleave : ∀ after : Machine,
      (frameSimulation readable bindable hreadable start₁ start₂).rel
        { after with callDepth := m₁.callDepth, scope := m₁.scope }
        { after with callDepth := m₂.callDepth, scope := m₂.scope } := by
    intro after
    exact ⟨⟨hagree.bindings, rfl, rfl, rfl, rfl, hagree.callDepth⟩,
      ⟨hkeeps₁.1, hkeeps₁.2, hkeeps₁.3⟩, ⟨hkeeps₂.1, hkeeps₂.2, hkeeps₂.3⟩⟩
  unfold callFunction
  simp only [hagree.functions, hagree.library, hagree.output, hagree.log, hagree.callDepth,
    hrestore, if_true]
  simp only [hagree.callDepth] at hleave
  split
  · exact .ok (hleave _) True.intro
  · exact .ok (hleave _) True.intro
  · exact .error (hleave _) fun _ _ => True.intro

theorem frameSimulation_admits :
    (frameSimulation readable bindable hreadable start₁ start₂).Admits fun node =>
      node.RequireFree ∧ (∀ name, node.Binds name → bindable name) ∧
        ∀ name, node.Mentions name → readable name where
  part {whole part} h hpart := by
    obtain ⟨hfree, hbinds, hmentions⟩ := h
    exact ⟨fun inner hinner => hfree inner (hinner.of_part hpart),
      fun name hname => hbinds name (hname.of_part hpart),
      fun name hname => hmentions name (hname.of_part hpart)⟩
  int _ := True.intro
  readable {line name} h := h.2.2 name (Or.inr ⟨line, .refl _⟩)
  valueVar h := h.2.1 _ ⟨_, .refl _, Or.inl rfl⟩
  keyVar h := h.2.1 _ ⟨_, .refl _, Or.inr rfl⟩
  assign h hroot := h.2.1 _ ⟨_, .refl _, hroot⟩
  compound h hroot := h.2.1 _ ⟨_, .refl _, hroot⟩
  function {line name params body m₁ m₂} _ hrel := by
    obtain ⟨hagree, hkeeps₁, hkeeps₂⟩ := hrel
    have hfunctions := congrArg (·.define ⟨name, params, body⟩) hagree.functions
    exact ⟨{ hagree with functions := hfunctions }, ⟨hkeeps₁.1, hkeeps₁.2, hkeeps₁.3⟩,
      ⟨hkeeps₂.1, hkeeps₂.2, hkeeps₂.3⟩⟩

end

/-- Whatever evaluates the functions that are called, a node that runs no other file keeps to its
    variables. -/
theorem frameSimulation_refines {config : Config} (hrestore : config.restoreScopeOnReturn = true)
    (deeper : Node → Eval Value) {readable bindable : String → Prop}
    {hreadable : ∀ name, bindable name → readable name} {start₁ start₂ : Machine} {node : Node}
    (hfree : node.RequireFree) (hbinds : ∀ name, node.Binds name → bindable name)
    (hmentions : ∀ name, node.Mentions name → readable name) :
    (frameSimulation readable bindable hreadable start₁ start₂).Refines (fun _ => True)
      (node.evalAs config deeper .strict) (node.evalAs config deeper .strict) := by
  refine (Simulation.follows_of_agree frameSimulation_admits (fun _ _ _ => rfl) rfl rfl ?_ ?_ node
    ⟨hfree, hbinds, hmentions⟩).eval .strict
  · intro line name args m₁ m₂ function values _ _ _ _
    exact frameSimulation_call hrestore deeper function values
  · intro line path once fatal text hnode
    exact absurd rfl (hnode.1 _ (.refl _) path once fatal)

theorem frameSimulation_evalNode {config : Config} (hrestore : config.restoreScopeOnReturn = true)
    {readable bindable : String → Prop} (hreadable : ∀ name, bindable name → readable name)
    (start₁ start₂ : Machine) {node : Node} (hfree : node.RequireFree)
    (hbinds : ∀ name, node.Binds name → bindable name)
    (hmentions : ∀ name, node.Mentions name → readable name)
    (hagree : start₁.AgreeOn readable start₂) :
    (evalNode config node).ending start₁ = (evalNode config node).ending start₂ ∧
      ((evalNode config node).after start₁).AgreeOn readable ((evalNode config node).after start₂) ∧
      start₁.KeepsOutside bindable ((evalNode config node).after start₁) := by
  have hdepth : ∀ depth, (frameSimulation readable bindable hreadable start₁ start₂).Refines
      (fun _ => True) (evalWithin config depth node) (evalWithin config depth node) := by
    intro depth
    cases depth with
    | zero => exact Simulation.Refines.tooDeep node
    | succ depth => exact frameSimulation_refines hrestore _ hfree hbinds hmentions
  obtain ⟨hending, hafter, hkeeps, -⟩ := (hdepth maxNesting).ending_eq (fun _ h => h)
    ⟨hagree, .refl _ _, .refl _ _⟩
  exact ⟨hending, hafter, hkeeps⟩

/-- A node that runs no other file leaves all variables alone that it does not bind, and how it
    ends, what it prints and declares, which files it loads and what becomes of the variables that
    it mentions depend on no other variable. This holds for every end, and whatever functions are
    called on the way. -/
theorem evalNode_touches_own_variables (config : Config)
    (hrestore : config.restoreScopeOnReturn = true) (node : Node) (hfree : node.RequireFree) :
    (∀ machine : Machine,
      (∀ name, ¬ node.Binds name →
        ((evalNode config node).after machine).scope.get? name = machine.scope.get? name) ∧
      ((evalNode config node).after machine).callDepth = machine.callDepth) ∧
    ∀ first second : Machine, first.AgreeOn node.Mentions second →
      (evalNode config node).ending first = (evalNode config node).ending second ∧
      ((evalNode config node).after first).AgreeOn node.Mentions
        ((evalNode config node).after second) := by
  constructor
  · intro machine
    -- A machine agrees with itself on all variables.
    have hall : ∀ name, node.Binds name → (fun _ => True) name := fun _ _ => True.intro
    obtain ⟨-, -, hkeeps⟩ := frameSimulation_evalNode hrestore hall machine machine hfree
      (fun _ h => h) (fun _ _ => True.intro) ⟨fun _ _ => rfl, rfl, rfl, rfl, rfl, rfl⟩
    exact ⟨hkeeps.bindings, hkeeps.callDepth⟩
  · intro first second hagree
    have hbinds : ∀ name, node.Binds name → node.Mentions name := fun _ h => Or.inl h
    obtain ⟨hending, hafter, -⟩ := frameSimulation_evalNode hrestore hbinds first second hfree
      (fun _ h => h) (fun _ h => h) hagree
    exact ⟨hending, hafter⟩

/-- In `$y = f($x)` the function gives a `$z` of its own a value and returns it; the `$z` in sight,
    if any, stays as it is and does not matter. -/
theorem evalNode_touches_own_variables_call :
    let argument : Node := ⟨none, .arg ⟨none, .variable "x"⟩⟩
    let node : Node := ⟨none, .assign ⟨none, .variable "y"⟩ ⟨none, .call "f" [argument]⟩⟩
    let body : List Node :=
      [⟨none, .assign ⟨none, .variable "z"⟩ ⟨none, .int 9⟩⟩,
        ⟨none, .ret (some ⟨none, .variable "z"⟩)⟩]
    let functions := FunctionTable.empty.define ⟨"f", [⟨none, "p", none⟩], body⟩
    let first : Machine := ⟨⟨[("x", .int 1), ("z", .int 2)], 0⟩, functions, none, "", [], 0⟩
    let second : Machine := ⟨⟨[("x", .int 1)], 0⟩, functions, none, "", [], 0⟩
    (evalNode {} node).ending first = .ok (.int 9) ∧
      (evalNode {} node).ending second = .ok (.int 9) ∧
      ((evalNode {} node).after first).scope.get? "z" = some (.int 2) := by
  intro argument node body functions first second
  have hwithin : ∀ part : Node, part.Within node ↔ part = node ∨ part = ⟨none, .variable "y"⟩ ∨
      part = ⟨none, .call "f" [argument]⟩ ∨ part = argument ∨ part = ⟨none, .variable "x"⟩ := by
    intro part
    simp [node, argument, Node.within_mk, Form.parts, Form.children]
  have hfree : node.RequireFree := by
    intro part hpart path once fatal
    rcases (hwithin part).mp hpart with rfl | rfl | rfl | rfl | rfl <;> simp [node, argument]
  have hbinds : ∀ name, node.Binds name → name = "y" := by
    rintro name ⟨part, hpart, hhere⟩
    rcases (hwithin part).mp hpart with rfl | rfl | rfl | rfl | rfl <;>
      simp_all [node, argument, Node.BindsHere, Node.root?]
  have hagree : first.AgreeOn node.Mentions second := by
    refine ⟨fun name hname => ?_, rfl, rfl, rfl, rfl, rfl⟩
    have hne : name ≠ "z" := by
      rintro rfl
      rcases hname with hname | ⟨line, hname⟩
      · exact absurd (hbinds _ hname) (by decide)
      · simp [hwithin, node, argument] at hname
    simp [first, second, Scope.get?, Dict.get?, hne.symm]
  obtain ⟨hkeeps, hsame⟩ := evalNode_touches_own_variables {} rfl node hfree
  have hfirst : (evalNode {} node).ending first = .ok (.int 9) := by cbv
  obtain ⟨hending, -⟩ := hsame first second hagree
  refine ⟨hfirst, hending ▸ hfirst, ?_⟩
  exact (hkeeps first).1 "z" fun h => absurd (hbinds _ h) (by decide)

end WebScript
