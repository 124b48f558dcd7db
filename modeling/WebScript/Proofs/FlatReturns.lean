import WebScript.Proofs.Frame
import WebScript.Proofs.RunEndings

/-!
# Returns that are statements of functions

A configuration says whether a `return` ends its function from anywhere inside it, or only as one of
the statements of its body. Where every `return` is a statement of some function's body the two
cannot be told apart: a run ends alike, on the same machine. Under the first the value of a function
is thrown by its `return` and caught by the call; under the second it is handed over.
-/

namespace WebScript

/-! ## Programs whose returns are flat -/

/-- The nodes directly inside a node, but for the statements of a function. -/
def Form.outsideBody {ν : Type} : Form ν → List ν
  | .functionDecl _ params _ => Form.paramNodes params
  | form => form.children

/-- Every `return` inside the node is a statement of a function declared there. -/
def Node.FlatReturns (node : Node) : Prop :=
  ∀ inner : Node, inner.Inside node → ∀ child ∈ inner.form.outsideBody, child.isReturn = false

/-- Neither a `return` nor a node with one that is not a statement of a function. -/
structure Node.FlatOutside (node : Node) : Prop where
  ne_return : node.isReturn = false
  inside : node.FlatReturns

/-- Every `return` in the function is a statement of it, or of a function declared inside it. -/
structure Function.FlatReturns (function : Function) : Prop where
  params : ∀ inner ∈ Form.paramNodes function.params, inner.FlatOutside
  body : ∀ inner ∈ function.body, inner.FlatReturns

/-- Every `return` in the programs among the files is a statement of a function. -/
def Library.FlatReturns (library : Library) : Prop :=
  ∀ path contents, (path, contents) ∈ library.files → ∀ nodes,
    parse (readText contents) = .ok nodes → ∀ inner ∈ nodes, inner.FlatOutside

/-- Every `return` in the functions and the files of the machine is a statement of a function. -/
structure Machine.FlatReturns (machine : Machine) : Prop where
  functions : ∀ name function, (name, function) ∈ machine.functions.definitions →
    function.FlatReturns
  files : ∀ library, machine.library = some library → library.FlatReturns

theorem Node.FlatReturns.child {node child : Node} (h : node.FlatReturns)
    (hchild : child ∈ node.children) : child.FlatReturns :=
  fun inner hinner => h inner (hinner.of_child hchild)

theorem Node.FlatReturns.outsideBody {node child : Node} (h : node.FlatReturns)
    (hchild : child ∈ node.form.outsideBody) (hchildren : child ∈ node.children) :
    child.FlatOutside :=
  ⟨h node (.refl node) child hchild, h.child hchildren⟩

/-- The parts of a node are not bodies of functions, so that no `return` stands among them. -/
theorem Node.FlatReturns.part {node part : Node} (h : node.FlatReturns)
    (hpart : part ∈ node.parts) : part.FlatOutside := by
  have hchild : part ∈ node.children := Form.parts_subset_children _ hpart
  obtain ⟨line, form⟩ := node
  cases form with
  | functionDecl name params body => cases hpart
  | _ => exact h.outsideBody hchild hchild

theorem Node.flatReturns_mk {line : Option Int} {form : Form Node} :
    Node.FlatReturns ⟨line, form⟩ ↔
      (∀ child ∈ form.outsideBody, child.isReturn = false) ∧
        ∀ child ∈ form.children, child.FlatReturns :=
  Node.forall_inside_mk

/-- The body of a declared function may have its `return` statements directly in it. -/
theorem Node.FlatReturns.function {line : Option Int} {name : String} {params : List (Param Node)}
    {body : List Node} (h : Node.FlatReturns ⟨line, .functionDecl name params body⟩) :
    Function.FlatReturns ⟨name, params, body⟩ :=
  ⟨fun _ hinner => h.outsideBody hinner (List.mem_append_left _ hinner),
    fun _ hinner => h.child (List.mem_append_right _ hinner)⟩

namespace Machine.FlatReturns

variable {machine : Machine}

theorem lookup (h : machine.FlatReturns) {name : String} {function : Function}
    (hfunction : machine.functions.lookup? name = some function) : function.FlatReturns :=
  h.functions _ function (Dict.mem_of_get? hfunction)

theorem withFunction (h : machine.FlatReturns) {function : Function}
    (hfunction : function.FlatReturns) : (machine.withFunction function).FlatReturns := by
  refine ⟨fun name other hmem => ?_, h.files⟩
  rcases Dict.mem_insert hmem with heq | hmem
  · cases heq
    exact hfunction
  · exact h.functions name other hmem

theorem load (h : machine.FlatReturns) (path : String) (once : Bool) :
    (machine.withLibrary (Library.loadFrom machine.library path once).2).FlatReturns := by
  refine ⟨h.functions, fun after hafter => ?_⟩
  cases hlibrary : machine.library with
  | none =>
    rw [hlibrary] at hafter
    cases hafter
  | some library =>
    rw [hlibrary] at hafter
    have hfiles : after.files = library.files :=
      Option.some.inj hafter ▸ Library.files_load library path once
    unfold Library.FlatReturns
    rw [hfiles]
    exact h.files library hlibrary

/-- The statements of a file that is loaded are those of one of the files. -/
theorem program (h : machine.FlatReturns) {path : String} {once : Bool} {resolved : Path}
    {nodes : List Node}
    (hload : (Library.loadFrom machine.library path once).1 = .program resolved (.ok nodes)) :
    ∀ inner ∈ nodes, inner.FlatOutside := by
  cases hlibrary : machine.library with
  | none =>
    rw [hlibrary] at hload
    cases hload
  | some library =>
    rw [hlibrary] at hload
    obtain ⟨found, contents, hmem, hparsed⟩ := Library.mem_files_of_load hload
    exact h.files library hlibrary found contents hmem nodes hparsed.symm

end Machine.FlatReturns

/-! ## Returns that are handed over -/

/-- Under a configuration that hands returns over, no exit looks for its function. -/
def RunInvariant.contained (config : Config) (hswitch : config.propagateReturn = false) :
    RunInvariant config where
  toValueClosure := ValueInvariant.always.toValueClosure
  reached _ := True
  machine _ := True
  exit exit := ∀ v, exit ≠ .returned v
  reached_starts _ _ _ := trivial
  int _ := trivial
  append _ _ _ _ := trivial
  write _ _ _ _ _ _ := trivial
  read _ _ := trivial
  report _ _ := trivial
  output _ _ := trivial
  bind _ _ _ _ _ := trivial
  define _ _ := trivial
  enter _ := trivial
  leave _ _ := trivial
  leaveOpen _ _ _ := trivial
  load _ _ _ := trivial
  error _ _ := nofun
  limit _ := nofun
  source _ := nofun
  ret h := by simp [hswitch] at h
  returned h := absurd rfl (h _)

/-- Where a `return` is handed over as a value, no evaluation lets one out. -/
theorem evalAt_ne_returned {config : Config} (hswitch : config.propagateReturn = false)
    (depth : Nat) (node : Node) (machine after : Machine) (value : Value) :
    node.evalAt config depth .strict machine ≠ .error (.returned value) after := by
  intro hrun
  have hsound : (RunInvariant.contained config hswitch).Sound
      ⟨depth, .eval .strict node, machine⟩ := ⟨trivial, trivial, trivial⟩
  have hends := hsound.ends
  rw [RunInvariant.Ends, hrun] at hends
  cases hends with
  | error _ hexit => exact hexit value rfl

theorem evalWithin_ne_returned {config : Config} (hswitch : config.propagateReturn = false)
    (depth : Nat) (node : Node) (machine after : Machine) (value : Value) :
    evalWithin config depth node machine ≠ .error (.returned value) after := by
  cases depth with
  | zero => nofun
  | succ depth => exact evalAt_ne_returned hswitch depth node machine after value

/-! ## Both configurations side by side -/

/-- A run beside itself, in whose functions and files every `return` is a statement of a
    function. -/
def flatSimulation : Simulation where
  toValueInvariant := .always
  rel m₁ m₂ := m₁ = m₂ ∧ m₁.FlatReturns
  excused _ := False
  readable _ := True
  bindable _ := True
  excused_locate _ h := h
  readable_of_bindable _ := trivial
  rel_events events h := ⟨congrArg (·.withEvents events) h.1, h.2.1, h.2.2⟩
  rel_output text h := ⟨congrArg (·.withOutput text) h.1, h.2.1, h.2.2⟩
  rel_functions h := congrArg _ h.1
  rel_callDepth h := congrArg _ h.1
  rel_read h _ := by rw [h.1]
  rel_generation h hafter := by rw [h.1, hafter.1]
  value_read _ _ _ := trivial
  rel_bind {_ _ name v} h _ _ _ := ⟨congrArg (·.withVariable name v) h.1, h.2.1, h.2.2⟩

theorem flatSimulation_admits : flatSimulation.Admits Node.FlatOutside where
  part h hpart := h.inside.part hpart
  int _ := trivial
  readable _ := trivial
  valueVar _ := trivial
  keyVar _ := trivial
  assign _ _ := trivial
  compound _ _ := trivial
  function h hrel := ⟨by rw [hrel.1], hrel.2.withFunction h.inside.function⟩

theorem flatSimulation_crosses : flatSimulation.Crosses where
  enter h := ⟨congrArg _ h.1, h.2.1, h.2.2⟩
  leave hcaller h := ⟨by rw [hcaller.1, h.1], h.2.1, h.2.2⟩
  leaveOpen hcaller h := ⟨by rw [hcaller.1, h.1], h.2.1, h.2.2⟩

theorem flatSimulation_loads : flatSimulation.Loads Node.FlatOutside where
  library h := congrArg _ h.1
  load path once h := ⟨by rw [h.1], h.2.load path once⟩
  program h hload := h.2.program hload

/-- The configuration with the switch for `return` set. -/
def Config.withPropagateReturn (config : Config) (switch : Bool) : Config :=
  { config with propagateReturn := switch }

@[simp] theorem Config.propagateReturn_withPropagateReturn (config : Config) (switch : Bool) :
    (config.withPropagateReturn switch).propagateReturn = switch := rfl

/-- How a `return` ends in the two runs: where the first looks for the function, the second hands
    over the same value. -/
inductive HandsOver :
    EStateM.Result Exit Machine Value → EStateM.Result Exit Machine Value → Prop
  | returned {value : Value} {after : Machine} (h : after.FlatReturns) :
    HandsOver (.error (.returned value) after) (.ok value after)
  | fault {fault : Fault} {after : Machine} (h : after.FlatReturns) :
    HandsOver (.error (.fault fault) after) (.error (.fault fault) after)

/-- Evaluating nodes in the two runs corresponds. -/
structure RunsAlike (d₁ d₂ : Node → Eval Value) : Prop where
  refines : ∀ inner : Node, inner.FlatOutside →
    flatSimulation.Refines flatSimulation.value (d₁ inner) (d₂ inner)
  returns : ∀ inner : Node, inner.isReturn = true → inner.FlatReturns →
    ∀ machine, machine.FlatReturns → HandsOver (d₁ inner machine) (d₂ inner machine)
  contained : ∀ inner machine after value, d₂ inner machine ≠ .error (.returned value) after

section

variable (config : Config)

/-- A body runs alike under both configurations: up to its first `return` statement, and from there
    the one run hands over what the other returns. -/
theorem RunsAlike.body {d₁ d₂ : Node → Eval Value} (h : RunsAlike d₁ d₂) {nodes : List Node}
    (hnodes : ∀ inner ∈ nodes, inner.FlatReturns) :
    flatSimulation.Refines (fun _ => True) (runBody d₁ (config.withPropagateReturn true) nodes)
      (runBody d₂ (config.withPropagateReturn false) nodes) := by
  induction nodes with
  | nil =>
    intro m₁ m₂ hrel
    rw [runBody_nil, runBody_nil]
    exact .ok hrel trivial
  | cons node rest ih =>
    obtain ⟨hnode, hrest⟩ := List.forall_mem_cons.mp hnodes
    intro m₁ m₂ hrel
    rw [runBody_cons, runBody_cons]
    simp only [Config.propagateReturn_withPropagateReturn]
    cases hreturn : node.isReturn with
    | true =>
      obtain ⟨rfl, hflat⟩ := hrel
      have hends := h.returns node hreturn hnode m₁ hflat
      generalize d₁ node m₁ = ends₁ at hends
      generalize d₂ node m₁ = ends₂ at hends
      cases hends with
      | returned hafter => exact .ok ⟨rfl, hafter⟩ trivial
      | fault hafter => exact .error ⟨rfl, hafter⟩ nofun
    | false =>
      have hends := h.refines node ⟨hreturn, hnode⟩ m₁ m₂ hrel
      have hcontained := h.contained node m₂
      generalize d₁ node m₁ = ends₁ at hends
      generalize d₂ node m₂ = ends₂ at hends hcontained
      cases hends with
      | ok hafter _ => exact ih hrest _ _ hafter
      | @error exit _ _ hafter _ =>
        cases exit with
        | returned value => exact absurd rfl (hcontained _ value)
        | fault fault => exact .error hafter nofun
      | excused hexit => exact hexit.elim

/-- A node without a `return` outside of functions is followed if what is called runs alike. -/
theorem RunsAlike.follows {d₁ d₂ : Node → Eval Value} (h : RunsAlike d₁ d₂) (whole : Node)
    (hwhole : whole.FlatOutside) :
    flatSimulation.Follows (config.withPropagateReturn true) d₁ (config.withPropagateReturn false)
      d₂ whole := by
  have hshort : (config.withPropagateReturn true).shortCircuit =
      (config.withPropagateReturn false).shortCircuit := rfl
  have helseIf : (config.withPropagateReturn true).shortCircuitElseIf =
      (config.withPropagateReturn false).shortCircuitElseIf := rfl
  have hrestore : (config.withPropagateReturn true).restoreScopeOnReturn =
      (config.withPropagateReturn false).restoreScopeOnReturn := rfl
  refine Simulation.follows_of_agree flatSimulation_admits
    (fun line expr hret => nomatch hret.ne_return) hshort helseIf ?_ ?_ whole hwhole
  · intro line name args m₁ m₂ function values _ hrel hfunction hvalues
    have hflat := hrel.2.lookup hfunction
    exact Simulation.Refines.callFunction_of_body flatSimulation_crosses hrestore
      (fun _ _ => trivial) (fun inner hinner => h.refines inner (hflat.params inner hinner))
      ((h.body config hflat.body).mono fun _ _ _ _ => trivial) hvalues
  · intro line path once fatal text _
    exact Simulation.Refines.includeFile flatSimulation_loads (fun _ h => h) h.refines text once
      fatal

/-- The value of a `return` is the same in the two runs. -/
theorem RunsAlike.handsOver {depth : Nat}
    (h : RunsAlike (evalWithin (config.withPropagateReturn true) depth)
      (evalWithin (config.withPropagateReturn false) depth)) {inner : Node}
    (hreturn : inner.isReturn = true) (hinner : inner.FlatReturns) {machine : Machine}
    (hmachine : machine.FlatReturns) :
    HandsOver (inner.evalAt (config.withPropagateReturn true) depth .strict machine)
      (inner.evalAt (config.withPropagateReturn false) depth .strict machine) := by
  obtain ⟨line, form⟩ := inner
  cases form with
  | ret expr =>
    cases expr with
    | none =>
      rw [Node.evalAt, Node.evalAt, Node.evalAs, Node.evalAs]
      exact .returned hmachine
    | some expr =>
      have hexpr : expr.FlatOutside := hinner.part List.mem_cons_self
      have hends := (h.follows config expr hexpr).eval .strict machine machine ⟨rfl, hmachine⟩
      have hcontained := @evalAt_ne_returned (config.withPropagateReturn false) rfl depth expr
        machine
      rw [Node.evalAt, Node.evalAt, Node.evalAs, Node.evalAs]
      unfold Eval.located
      simp only [bind, EStateM.bind]
      unfold Node.evalAt at hcontained
      generalize expr.evalAs _ _ .strict machine = ends₁ at hends ⊢
      generalize expr.evalAs _ _ .strict machine = ends₂ at hends hcontained ⊢
      cases hends with
      | ok hafter _ =>
        obtain ⟨rfl, hafter⟩ := hafter
        exact .returned hafter
      | @error exit _ _ hafter _ =>
        obtain ⟨rfl, hafter⟩ := hafter
        cases exit with
        | returned value => exact absurd rfl (hcontained _ value)
        | fault fault =>
          show HandsOver (.error (Exit.locate line (.fault fault)) _)
            (.error (Exit.locate line (.fault fault)) _)
          unfold Exit.locate
          split
          · exact .fault hafter
          · exact .fault hafter
      | excused hexit => exact hexit.elim
  | _ => cases hreturn

/-- Nodes run alike under both configurations, at any nesting of calls. -/
theorem runsAlike (depth : Nat) :
    RunsAlike (evalWithin (config.withPropagateReturn true) depth)
      (evalWithin (config.withPropagateReturn false) depth) := by
  induction depth with
  | zero =>
    refine ⟨fun inner _ => Simulation.Refines.tooDeep inner, fun inner _ _ machine hmachine => ?_,
      evalWithin_ne_returned rfl 0⟩
    exact .fault hmachine
  | succ depth ih =>
    exact ⟨fun inner hinner => (ih.follows config inner hinner).eval .strict,
      fun inner hreturn hinner machine hmachine => ih.handsOver config hreturn hinner hmachine,
      evalWithin_ne_returned rfl (depth + 1)⟩

/-- Programs without a `return` outside of functions run alike under both configurations. -/
theorem evalProgram_withPropagateReturn {nodes : List Node}
    (hnodes : ∀ node ∈ nodes, node.FlatOutside) {machine : Machine} (hmachine : machine.FlatReturns) :
    evalProgram (config.withPropagateReturn true) nodes machine =
      evalProgram (config.withPropagateReturn false) nodes machine := by
  have hends := Simulation.Refines.runStatements
    (fun inner hinner => (runsAlike config maxNesting).refines inner (hnodes inner hinner))
    machine machine ⟨rfl, hmachine⟩
  unfold evalProgram evalNode
  generalize runStatements (evalWithin (config.withPropagateReturn true) maxNesting) nodes machine =
    ends₁ at hends ⊢
  generalize
    runStatements (evalWithin (config.withPropagateReturn false) maxNesting) nodes machine = ends₂
    at hends ⊢
  cases hends with
  | ok hafter _ => rw [hafter.1]
  | error hafter _ => rw [hafter.1]
  | excused hexit => exact hexit.elim

end

/-- Where every `return` is a statement of a function, in the program, in the files and in the
    functions that are there already, the switch that lets a `return` end its function from anywhere
    makes no difference: statements evaluated from the same machine end alike and leave the same
    machine, and so does the run of a source. -/
theorem propagateReturn_unobservable {nodes : List Node}
    (hnodes : ∀ node ∈ nodes, node.FlatOutside) (config : Config) :
    (∀ machine : Machine, machine.FlatReturns →
      evalProgram (config.withPropagateReturn true) nodes machine =
        evalProgram (config.withPropagateReturn false) nodes machine) ∧
    ∀ (source : String) (library : Library) (path : Option String), parse source = .ok nodes →
      library.FlatReturns →
      runSource (config.withPropagateReturn true) library source path =
        runSource (config.withPropagateReturn false) library source path := by
  refine ⟨fun machine hmachine => evalProgram_withPropagateReturn config hnodes hmachine, ?_⟩
  intro source library path hparse hlibrary
  rw [runSource_of_parse hparse, runSource_of_parse hparse]
  cases hmarked : library.forRun path with
  | error limit => rfl
  | ok marked =>
    refine evalProgram_withPropagateReturn config hnodes ?_
    obtain ⟨listing, hlisting⟩ := (Machine.start (some marked)).writeListing_eq
      (config.withPropagateReturn true) nodes
    rw [hlisting]
    refine ⟨nofun, fun found hfound => ?_⟩
    cases hfound
    unfold Library.FlatReturns
    rw [Library.files_forRun hmarked]
    exact hlibrary

/-- A program that includes a file, which declares a function and calls it. -/
theorem propagateReturn_unobservable_file :
    let nodes : List Node := [⟨some 1, .require ⟨some 1, .str "g"⟩ false true⟩,
      ⟨some 1, .echo [⟨some 1, .call "g" []⟩]⟩]
    let function : Node :=
      ⟨some 1, .functionDecl "g" [] [⟨some 1, .ret (some ⟨some 1, .int 1⟩)⟩]⟩
    let library : Library := .ofFiles [] [(["g"], "function g() \x7b return 1; \x7d")]
    parse "require 'g'; echo g();" = .ok nodes ∧ (∀ node ∈ nodes, node.FlatOutside) ∧
      parse (readText "function g() \x7b return 1; \x7d") = .ok [function] ∧
      library.FlatReturns ∧ (Machine.start (some library)).FlatReturns ∧
      evalProgram (Config.withPropagateReturn {} true) nodes (Machine.start (some library)) =
        evalProgram (Config.withPropagateReturn {} false) nodes (Machine.start (some library)) ∧
      runSource (Config.withPropagateReturn {} true) library "require 'g'; echo g();" none =
        runSource (Config.withPropagateReturn {} false) library "require 'g'; echo g();" none := by
  intro nodes function library
  have hparse : parse "require 'g'; echo g();" = .ok nodes := by
    have htokens : tokens (expandTags "require 'g'; echo g();".toList) =
        [⟨.require false true, "require", 1, 1⟩, ⟨.single ['g'], "'g'", 1, 9⟩,
          ⟨.semicolon, ";", 1, 12⟩, ⟨.keyword .echo, "echo", 1, 14⟩, ⟨.identifier "g", "g", 1, 19⟩,
          ⟨.openParen, "(", 1, 20⟩, ⟨.closeParen, ")", 1, 21⟩, ⟨.semicolon, ";", 1, 22⟩] := by
      decide +kernel
    rw [parse, htokens]
    rfl
  have hfile : parse (readText "function g() \x7b return 1; \x7d") = .ok [function] := by
    have htokens : tokens (expandTags (readText "function g() \x7b return 1; \x7d").toList) =
        [⟨.keyword .function, "function", 1, 1⟩, ⟨.identifier "g", "g", 1, 10⟩,
          ⟨.openParen, "(", 1, 11⟩, ⟨.closeParen, ")", 1, 12⟩, ⟨.openBrace, "\x7b", 1, 14⟩,
          ⟨.keyword .ret, "return", 1, 16⟩, ⟨.int ['1'], "1", 1, 23⟩, ⟨.semicolon, ";", 1, 24⟩,
          ⟨.closeBrace, "\x7d", 1, 26⟩] := by
      decide +kernel
    rw [parse, htokens]
    rfl
  have hnodes : ∀ node ∈ nodes, node.FlatOutside := by
    refine List.forall_mem_cons.mpr ⟨⟨rfl, ?_⟩, List.forall_mem_singleton.mpr ⟨rfl, ?_⟩⟩
    · simp [Node.flatReturns_mk, Form.outsideBody, Form.children, Node.isReturn]
    · simp [Node.flatReturns_mk, Form.outsideBody, Form.children, Node.isReturn]
  have hlibrary : library.FlatReturns := by
    intro path contents hmem found hfound inner hinner
    cases List.mem_singleton.mp hmem
    rw [hfile] at hfound
    cases hfound
    cases List.mem_singleton.mp hinner
    refine ⟨rfl, ?_⟩
    simp [function, Node.flatReturns_mk, Form.outsideBody, Form.children, Form.paramNodes,
      Node.isReturn]
  have hmachine : (Machine.start (some library)).FlatReturns := by
    refine ⟨fun name function h => ?_, fun found hfound => ?_⟩
    · cases h
    · cases hfound
      exact hlibrary
  exact ⟨hparse, hnodes, hfile, hlibrary, hmachine,
    (propagateReturn_unobservable hnodes {}).1 _ hmachine,
    (propagateReturn_unobservable hnodes {}).2 _ _ none hparse hlibrary⟩

end WebScript
