import WebScript.Proofs.SimulationSteps
import WebScript.Run

/-!
# Simulation of calls, inclusions and whole runs

What a simulation must say about machines that enter and leave functions and load files, so that it
carries over from single nodes to calls, inclusions and whole programs. The nesting of calls is
bounded, so the last step is an induction on the bound.
-/

namespace WebScript

/-! ## Machines between callers and functions -/

/-- The machine on which a function starts. -/
def Machine.entering (machine : Machine) : Machine :=
  { machine with scope := .empty, callDepth := machine.callDepth + 1 }

/-- The machine after a call, with the variables of the caller in sight. -/
def Machine.leaving (machine caller : Machine) : Machine :=
  { machine with scope := caller.scope, callDepth := caller.callDepth }

/-- The machine after a call, with the variables of the function still in sight. -/
def Machine.leavingOpen (machine caller : Machine) : Machine :=
  { machine with scope := machine.scope.inPlaceOf caller.scope, callDepth := caller.callDepth }

/-- The machine whose files have been asked for one. -/
def Machine.withLibrary (machine : Machine) (library : Option Library) : Machine :=
  { machine with library := library }

/-- A default is evaluated and then bound in the scope that was in sight before. -/
theorem bindDefault_eq (run : Node → Eval Value) (name : String) (default : Node)
    (machine : Machine) :
    bindDefault run name default machine =
      (run default >>= Eval.setVariableIn machine.scope.generation name) machine :=
  rfl

/-- What is run on the machine of a called function. -/
def callBody (run : Node → Eval Value) (config : Config) (function : Function)
    (args : List Value) : Eval (Option Value) := do
  bindParams run function args.length function.params args
  runBody run config function.body

/-- The machine of the caller once it has reported the call. -/
def Machine.calling (machine : Machine) (function : Function) (args : List Value) : Machine :=
  machine.withEvents [.called function.name args.length machine.callDepth]

/-- A call in steps: the machine enters the function, and afterwards goes back to its caller or
    stays in its scope. -/
theorem callFunction_eq (run : Node → Eval Value) (config : Config) (function : Function)
    (args : List Value) (machine : Machine) :
    callFunction run config function args machine =
      match callBody run config function args (machine.calling function args).entering with
      | .ok (some value) after =>
        .ok value (if config.restoreScopeOnReturn then after.leaving (machine.calling function args)
          else after.leavingOpen (machine.calling function args))
      | .ok none after => .ok .null (after.leaving (machine.calling function args))
      | .error exit after => .error exit (after.leaving (machine.calling function args)) := by
  show (match callBody run config function args (machine.calling function args).entering with
    | .ok (some value) after => _
    | .ok none after => _
    | .error exit after => _) = _
  cases callBody run config function args (machine.calling function args).entering with
  | error exit after => rfl
  | ok result after =>
    cases result with
    | none => rfl
    | some value => cases config.restoreScopeOnReturn <;> rfl

theorem runBody_nil (run : Node → Eval Value) (config : Config) (machine : Machine) :
    runBody run config [] machine = .ok none machine := by
  unfold runBody
  cases config.propagateReturn <;> rfl

/-- What comes after a statement of a function runs unless the statement returns. -/
theorem runBody_cons (run : Node → Eval Value) (config : Config) (node : Node) (rest : List Node)
    (machine : Machine) :
    runBody run config (node :: rest) machine =
      match run node machine with
      | .ok value after =>
        if !config.propagateReturn && node.isReturn then .ok (some value) after
        else runBody run config rest after
      | .error (.returned value) after =>
        if config.propagateReturn then .ok (some value) after else .error (.returned value) after
      | .error exit after => .error exit after := by
  unfold runBody
  cases config.propagateReturn with
  | true =>
    simp only [if_true, runToReturn, runStatements, bind, EStateM.bind]
    cases run node machine with
    | ok value after => rfl
    | error exit after => cases exit <;> rfl
  | false =>
    show runUntilReturn run (node :: rest) machine = _
    simp only [runUntilReturn, bind, EStateM.bind]
    cases run node machine with
    | ok value after => cases node.isReturn <;> rfl
    | error exit after => cases exit <;> rfl

/-- What is done with a file once it has been loaded. -/
def runLoaded (run : Node → Eval Value) (path : String) (once fatal : Bool) :
    Library.Loaded → Eval Value
  | .refused limit => throw (.fault (.limit limit))
  | .missing =>
    if fatal then Eval.raise (.requireFailed path (requireKeyword once fatal))
    else do
      Eval.report (.openFailed (requireKeyword once fatal) path)
      pure (.bool false)
  | .skipped => do
    Eval.report (.includeSkipped (requireKeyword once fatal) path)
    pure (.bool true)
  | .program resolved parsed => do
    Eval.report (.fileLoaded resolved)
    match parsed with
    | .error error => throw (.fault (.source error))
    | .ok nodes => do
      Eval.report (.included (requireKeyword once fatal) path nodes.length)
      Eval.orReturned do
        runStatements run nodes
        pure (.int 1)

/-- An inclusion in steps: the library loads the file, and then what was loaded is run. -/
theorem includeFile_eq (run : Node → Eval Value) (path : String) (once fatal : Bool)
    (machine : Machine) :
    includeFile run path once fatal machine =
      runLoaded run path once fatal (Library.loadFrom machine.library path once).1
        (machine.withLibrary (Library.loadFrom machine.library path once).2) := by
  unfold includeFile
  simp only [bind, EStateM.bind, get, getThe, MonadStateOf.get, EStateM.get]
  obtain ⟨loaded, after⟩ := Library.loadFrom machine.library path once
  cases loaded with
  | program resolved parsed => cases parsed <;> rfl
  | _ => rfl

/-! ## The programs of a machine -/

namespace Library

theorem files_markResolved (library : Library) (path : Path) :
    (library.markResolved path).files = library.files := by
  unfold markResolved
  split <;> rfl

theorem files_load (library : Library) (path : String) (once : Bool) :
    (library.load path once).2.files = library.files := by
  unfold load loadResolved
  split
  · rfl
  · split
    · rfl
    · split
      · rfl
      · rfl
      · exact files_markResolved _ _

theorem files_forRun {library marked : Library} {path : Option String}
    (h : library.forRun path = .ok marked) : marked.files = library.files := by
  cases path with
  | none =>
    cases h
    rfl
  | some path =>
    simp only [forRun, mark] at h
    cases hresolved : library.resolve path with
    | error limit =>
      rw [hresolved] at h
      cases h
    | ok resolved =>
      rw [hresolved] at h
      cases h
      exact files_markResolved _ _

/-- Following a path finds the contents of one of the files. -/
theorem mem_files_of_follow {library : Library} {resolved parts : List String} {contents : String}
    (h : library.follow resolved parts = .ok (some contents)) :
    ∃ path, (path, contents) ∈ library.files := by
  induction parts generalizing resolved with
  | nil =>
    unfold follow at h
    cases hfound : Dict.get? resolved.reverse library.files with
    | none =>
      rw [hfound] at h
      cases h
    | some found =>
      rw [hfound] at h
      cases h
      exact ⟨_, Dict.mem_of_get? hfound⟩
  | cons part rest ih =>
    unfold follow at h
    split at h
    · exact ih h
    · split at h
      · cases h
      · split at h
        · cases h
        · exact ih h

/-- Statements that are loaded are those of some file. -/
theorem mem_files_of_load {library : Library} {path : String} {once : Bool} {resolved : Path}
    {parsed : Except SourceError (List Node)}
    (h : (library.load path once).1 = .program resolved parsed) :
    ∃ found contents, (found, contents) ∈ library.files ∧ parsed = parse (readText contents) := by
  unfold load loadResolved at h
  split at h
  · cases h
  · split at h
    · cases h
    · split at h
      · cases h
      · cases h
      · rename_i contents hcontents
        cases h
        unfold Library.contents at hcontents
        split at hcontents
        · cases hcontents
        · obtain ⟨found, hfound⟩ := mem_files_of_follow hcontents
          exact ⟨found, contents, hfound, rfl⟩

end Library

/-- All nodes of the functions in a table have a property. -/
def FunctionTable.Consists (node : Node → Prop) (table : FunctionTable) : Prop :=
  ∀ name function, (name, function) ∈ table.definitions →
    ∀ inner ∈ Form.paramNodes function.params ++ function.body, node inner

/-- A declaration adds no other nodes than its own to the functions. -/
theorem FunctionTable.Consists.define {node : Node → Prop} {table : FunctionTable}
    (h : table.Consists node) {function : Function}
    (hfunction : ∀ inner ∈ Form.paramNodes function.params ++ function.body, node inner) :
    (table.define function).Consists node := by
  intro name other hmem
  rcases Dict.mem_insert hmem with heq | hmem
  · cases heq
    exact hfunction
  · exact h name other hmem

/-- All nodes of functions and of files have a property. -/
structure Machine.Consists (node : Node → Prop) (machine : Machine) : Prop where
  functions (name : String) (function : Function)
    (h : (name, function) ∈ machine.functions.definitions) :
    ∀ inner ∈ Form.paramNodes function.params ++ function.body, node inner
  files (library : Library) (hlibrary : machine.library = some library) (path : Path)
    (contents : String) (h : (path, contents) ∈ library.files) (nodes : List Node)
    (hnodes : parse (readText contents) = .ok nodes) : ∀ inner ∈ nodes, node inner

namespace Machine.Consists

variable {node : Node → Prop} {machine : Machine}

theorem lookup (h : machine.Consists node) {name : String} {function : Function}
    (hfunction : machine.functions.lookup? name = some function) :
    ∀ inner ∈ Form.paramNodes function.params ++ function.body, node inner :=
  h.functions _ function (Dict.mem_of_get? hfunction)

theorem withFunction (h : machine.Consists node) {function : Function}
    (hfunction : ∀ inner ∈ Form.paramNodes function.params ++ function.body, node inner) :
    (machine.withFunction function).Consists node :=
  ⟨FunctionTable.Consists.define h.functions hfunction, h.files⟩

/-- Loading a file changes none of the programs. -/
theorem load (h : machine.Consists node) (path : String) (once : Bool) :
    (machine.withLibrary (Library.loadFrom machine.library path once).2).Consists node := by
  refine ⟨h.functions, fun after hafter => ?_⟩
  cases hlibrary : machine.library with
  | none =>
    rw [hlibrary] at hafter
    cases hafter
  | some library =>
    rw [hlibrary] at hafter
    have hfiles : after.files = library.files :=
      Option.some.inj hafter ▸ Library.files_load library path once
    rw [hfiles]
    exact h.files library hlibrary

/-- The nodes of a file that is loaded are nodes of the library. -/
theorem program (h : machine.Consists node) {path : String} {once : Bool} {resolved : Path}
    {nodes : List Node}
    (hload : (Library.loadFrom machine.library path once).1 = .program resolved (.ok nodes)) :
    ∀ inner ∈ nodes, node inner := by
  cases hlibrary : machine.library with
  | none =>
    rw [hlibrary] at hload
    cases hload
  | some library =>
    rw [hlibrary] at hload
    obtain ⟨found, contents, hmem, hparsed⟩ := Library.mem_files_of_load hload
    exact h.files library hlibrary found contents hmem nodes hparsed.symm

end Machine.Consists

/-! ## Simulations that nest -/

/-- A simulation that carries over into functions and back. -/
structure Simulation.Crosses (S : Simulation) : Prop where
  enter {m₁ m₂ : Machine} (h : S.rel m₁ m₂) : S.rel m₁.entering m₂.entering
  leave {m₁ m₂ caller₁ caller₂ : Machine} (hcaller : S.rel caller₁ caller₂) (h : S.rel m₁ m₂) :
    S.rel (m₁.leaving caller₁) (m₂.leaving caller₂)
  leaveOpen {m₁ m₂ caller₁ caller₂ : Machine} (hcaller : S.rel caller₁ caller₂)
    (h : S.rel m₁ m₂) : S.rel (m₁.leavingOpen caller₁) (m₂.leavingOpen caller₂)

/-- A simulation that loading a file keeps, and in which files consist of admitted nodes. -/
structure Simulation.Loads (S : Simulation) (node : Node → Prop) : Prop where
  library {m₁ m₂ : Machine} (h : S.rel m₁ m₂) : m₁.library = m₂.library
  load {m₁ m₂ : Machine} (path : String) (once : Bool) (h : S.rel m₁ m₂) :
    S.rel (m₁.withLibrary (Library.loadFrom m₁.library path once).2)
      (m₂.withLibrary (Library.loadFrom m₁.library path once).2)
  program {m₁ m₂ : Machine} {path : String} {once : Bool} {resolved : Path} {nodes : List Node}
    (h : S.rel m₁ m₂)
    (hload : (Library.loadFrom m₁.library path once).1 = .program resolved (.ok nodes)) :
    ∀ inner ∈ nodes, node inner

/-- A simulation that calls and inclusions keep, and in which functions and files consist of
    admitted nodes. -/
structure Simulation.Nests (S : Simulation) (node : Node → Prop) : Prop
    extends S.Crosses, S.Loads node where
  body {m₁ m₂ : Machine} {name : String} {function : Function} (h : S.rel m₁ m₂)
    (hfunction : m₁.functions.lookup? name = some function) :
    ∀ inner ∈ Form.paramNodes function.params ++ function.body, node inner
  param {m₁ m₂ : Machine} {name : String} {function : Function} (h : S.rel m₁ m₂)
    (hfunction : m₁.functions.lookup? name = some function) :
    ∀ param ∈ function.params, S.bindable param.name

namespace Simulation

variable {S : Simulation} {node : Node → Prop} {d₁ d₂ : Node → Eval Value} {c₁ c₂ : Config}

/-! ## Statements of functions and files -/

/-- Statements that are run one after another are followed if each of them is. -/
theorem Refines.runStatements {nodes : List Node}
    (h : ∀ inner ∈ nodes, S.Refines S.value (d₁ inner) (d₂ inner)) :
    S.Refines (fun _ => True) (WebScript.runStatements d₁ nodes)
      (WebScript.runStatements d₂ nodes) := by
  induction nodes with
  | nil => exact Refines.ofValue trivial
  | cons first rest ih =>
    refine (h first List.mem_cons_self).andThen fun _ _ => ?_
    exact ih fun inner hinner => h inner (List.mem_cons_of_mem _ hinner)

/-- A default is bound in both runs or, where it has put the scope of its function out of sight, in
    neither. -/
theorem Refines.bindDefault {name : String} {default : Node}
    (h : S.Refines S.value (d₁ default) (d₂ default)) (hname : S.bindable name) :
    S.Refines (fun _ => True) (WebScript.bindDefault d₁ name default)
      (WebScript.bindDefault d₂ name default) := by
  intro m₁ m₂ hrel
  have hends := h m₁ m₂ hrel
  rw [bindDefault_eq, bindDefault_eq]
  simp only [bind, EStateM.bind]
  generalize d₁ default m₁ = ends₁ at hends
  generalize d₂ default m₂ = ends₂ at hends
  cases hends with
  | ok hafter hvalue =>
    simp only [setVariableIn_eq]
    split
    · exact .error hafter fun v hv => by cases hv
    · rename_i hne
      exact .ok (rel_withVariableIn hrel hafter hname hne hvalue) trivial
  | error hafter hreturned => exact .error hafter hreturned
  | excused hexit => exact .excused hexit

/-- Binding parameters is followed if the defaults are and the names may be bound. -/
theorem Refines.bindParams (function : Function) (passed : Nat) {params : List (Param Node)}
    {args : List Value}
    (hdefaults : ∀ inner ∈ Form.paramNodes params, S.Refines S.value (d₁ inner) (d₂ inner))
    (hparams : ∀ param ∈ params, S.bindable param.name) (hargs : ∀ v ∈ args, S.value v) :
    S.Refines (fun _ => True) (WebScript.bindParams d₁ function passed params args)
      (WebScript.bindParams d₂ function passed params args) := by
  induction params generalizing args with
  | nil =>
    unfold WebScript.bindParams
    exact Refines.ofValue trivial
  | cons param rest ih =>
    have hparam := hparams param List.mem_cons_self
    have hrest := fun {args : List Value} => @ih args
      (fun inner hinner => hdefaults inner (List.mem_append_right _ hinner))
      (fun param hmem => hparams param (List.mem_cons_of_mem _ hmem))
    cases args with
    | cons arg args =>
      unfold WebScript.bindParams
      refine (Refines.setVariable hparam (hargs arg List.mem_cons_self)).andThen fun _ _ => ?_
      exact hrest fun v hv => hargs v (List.mem_cons_of_mem _ hv)
    | nil =>
      unfold WebScript.bindParams
      cases hdefault : param.default with
      | none => exact Refines.raise _
      | some default =>
        have hmem : default ∈ Form.paramNodes (param :: rest) :=
          Form.mem_paramNodes List.mem_cons_self hdefault
        refine (Refines.bindDefault (hdefaults default hmem) hparam).andThen fun _ _ => ?_
        exact hrest fun v hv => by cases hv

/-- Both runs stop at the same `return` statement. -/
theorem Refines.runUntilReturn {nodes : List Node}
    (h : ∀ inner ∈ nodes, S.Refines S.value (d₁ inner) (d₂ inner)) :
    S.Refines (fun result => ∀ v, result = some v → S.value v)
      (WebScript.runUntilReturn d₁ nodes) (WebScript.runUntilReturn d₂ nodes) := by
  induction nodes with
  | nil => exact Refines.ofValue fun v hv => by cases hv
  | cons first rest ih =>
    refine (h first List.mem_cons_self).andThen fun value hvalue => ?_
    refine Refines.ite (fun _ => Refines.ofValue fun v hv => ?_) fun _ => ?_
    · cases hv
      exact hvalue
    · exact ih fun inner hinner => h inner (List.mem_cons_of_mem _ hinner)

/-- A returned value that leaves the statements is handed over in both runs. -/
theorem Refines.runToReturn {nodes : List Node} (hexcused : ∀ v, ¬ S.excused (.returned v))
    (h : ∀ inner ∈ nodes, S.Refines S.value (d₁ inner) (d₂ inner)) :
    S.Refines (fun result => ∀ v, result = some v → S.value v)
      (WebScript.runToReturn d₁ nodes) (WebScript.runToReturn d₂ nodes) := by
  intro m₁ m₂ hrel
  have hends := Refines.runStatements h m₁ m₂ hrel
  unfold WebScript.runToReturn
  generalize WebScript.runStatements d₁ nodes m₁ = ends₁ at hends
  generalize WebScript.runStatements d₂ nodes m₂ = ends₂ at hends
  cases hends with
  | ok hafter _ => exact .ok hafter fun v hv => by cases hv
  | @error exit _ _ hafter hreturned =>
    cases exit with
    | returned value =>
      refine .ok hafter fun v hv => ?_
      cases hv
      exact hreturned value rfl
    | fault fault => exact .error hafter fun v hv => by cases hv
  | @excused exit _ _ hexit =>
    cases exit with
    | returned value => exact absurd hexit (hexcused value)
    | fault fault => exact .excused hexit

/-- A body is followed if both runs treat a `return` alike. -/
theorem Refines.runBody {nodes : List Node} (hexcused : ∀ v, ¬ S.excused (.returned v))
    (hswitch : c₁.propagateReturn = c₂.propagateReturn)
    (h : ∀ inner ∈ nodes, S.Refines S.value (d₁ inner) (d₂ inner)) :
    S.Refines (fun result => ∀ v, result = some v → S.value v)
      (WebScript.runBody d₁ c₁ nodes) (WebScript.runBody d₂ c₂ nodes) := by
  unfold WebScript.runBody
  rw [hswitch]
  exact Refines.ite (fun _ => Refines.runToReturn hexcused h) fun _ => Refines.runUntilReturn h

theorem Refines.orReturned {first second : Eval Value} (hexcused : ∀ v, ¬ S.excused (.returned v))
    (h : S.Refines S.value first second) :
    S.Refines S.value (Eval.orReturned first) (Eval.orReturned second) := by
  intro m₁ m₂ hrel
  have hends := h m₁ m₂ hrel
  unfold Eval.orReturned
  generalize first m₁ = ends₁ at hends
  generalize second m₂ = ends₂ at hends
  cases hends with
  | ok hafter hvalue => exact .ok hafter hvalue
  | @error exit _ _ hafter hreturned =>
    cases exit with
    | returned value => exact .ok hafter (hreturned value rfl)
    | fault fault => exact .error hafter fun v hv => by cases hv
  | @excused exit _ _ hexit =>
    cases exit with
    | returned value => exact absurd hexit (hexcused value)
    | fault fault => exact .excused hexit

/-! ## Calls and inclusions -/

/-- A call is simulated if binding the parameters and running the body are. -/
theorem Refines.callFunction_of_body (hcrosses : S.Crosses)
    (hrestore : c₁.restoreScopeOnReturn = c₂.restoreScopeOnReturn) {function : Function}
    {args : List Value} (hparams : ∀ param ∈ function.params, S.bindable param.name)
    (hdefaults : ∀ inner ∈ Form.paramNodes function.params,
      S.Refines S.value (d₁ inner) (d₂ inner))
    (hstatements : S.Refines (fun result => ∀ v, result = some v → S.value v)
      (WebScript.runBody d₁ c₁ function.body) (WebScript.runBody d₂ c₂ function.body))
    (hargs : ∀ v ∈ args, S.value v) :
    S.Refines S.value (WebScript.callFunction d₁ c₁ function args)
      (WebScript.callFunction d₂ c₂ function args) := by
  have hbody : S.Refines (fun result => ∀ v, result = some v → S.value v)
      (callBody d₁ c₁ function args) (callBody d₂ c₂ function args) :=
    (Refines.bindParams function args.length hdefaults hparams hargs).andThen
      fun _ _ => hstatements
  intro m₁ m₂ hrel
  have hcaller : S.rel (m₁.calling function args) (m₂.calling function args) := by
    unfold Machine.calling
    rw [← S.rel_callDepth hrel]
    exact S.rel_events _ hrel
  have hends := hbody _ _ (hcrosses.enter hcaller)
  rw [callFunction_eq, callFunction_eq, hrestore]
  generalize callBody d₁ c₁ function args (m₁.calling function args).entering = ends₁ at hends
  generalize callBody d₂ c₂ function args (m₂.calling function args).entering = ends₂ at hends
  cases hends with
  | @ok result _ _ hafter hresult =>
    cases result with
    | none => exact .ok (hcrosses.leave hcaller hafter) S.null
    | some value =>
      refine .ok ?_ (hresult value rfl)
      cases c₂.restoreScopeOnReturn with
      | true => exact hcrosses.leave hcaller hafter
      | false => exact hcrosses.leaveOpen hcaller hafter
  | error hafter hreturned => exact .error (hcrosses.leave hcaller hafter) hreturned
  | excused hexit => exact .excused hexit

/-- A call is followed if the nodes of the function are. -/
theorem Refines.callFunction (hnests : S.Nests node) (hexcused : ∀ v, ¬ S.excused (.returned v))
    (hreturn : c₁.propagateReturn = c₂.propagateReturn)
    (hrestore : c₁.restoreScopeOnReturn = c₂.restoreScopeOnReturn) {function : Function}
    {args : List Value} (hparams : ∀ param ∈ function.params, S.bindable param.name)
    (hnodes : ∀ inner ∈ Form.paramNodes function.params ++ function.body,
      S.Refines S.value (d₁ inner) (d₂ inner))
    (hargs : ∀ v ∈ args, S.value v) :
    S.Refines S.value (WebScript.callFunction d₁ c₁ function args)
      (WebScript.callFunction d₂ c₂ function args) := by
  refine Refines.callFunction_of_body hnests.toCrosses hrestore hparams (fun inner hinner => ?_)
    (Refines.runBody hexcused hreturn fun inner hinner => ?_) hargs
  · exact hnodes inner (List.mem_append_left _ hinner)
  · exact hnodes inner (List.mem_append_right _ hinner)

/-- What is loaded is followed if its statements are. -/
theorem Refines.runLoaded (hexcused : ∀ v, ¬ S.excused (.returned v)) {path : String}
    {once fatal : Bool} {loaded : Library.Loaded}
    (h : ∀ resolved nodes, loaded = .program resolved (.ok nodes) →
      ∀ inner ∈ nodes, S.Refines S.value (d₁ inner) (d₂ inner)) :
    S.Refines S.value (WebScript.runLoaded d₁ path once fatal loaded)
      (WebScript.runLoaded d₂ path once fatal loaded) := by
  cases loaded with
  | refused limit => exact Refines.ofFault _
  | missing =>
    refine Refines.ite (fun _ => Refines.raise _) fun _ => ?_
    exact (Refines.report _).andThen fun _ _ => Refines.ofValue (S.bool false)
  | skipped => exact (Refines.report _).andThen fun _ _ => Refines.ofValue (S.bool true)
  | program resolved parsed =>
    refine (Refines.report _).andThen fun _ _ => ?_
    cases parsed with
    | error error => exact Refines.ofFault _
    | ok nodes =>
      refine (Refines.report _).andThen fun _ _ => Refines.orReturned hexcused ?_
      exact (Refines.runStatements (h resolved nodes rfl)).andThen fun _ _ => Refines.ofValue S.one

/-- An inclusion is followed if all nodes that a file may consist of are. -/
theorem Refines.includeFile (hloads : S.Loads node) (hexcused : ∀ v, ¬ S.excused (.returned v))
    (hnodes : ∀ inner, node inner → S.Refines S.value (d₁ inner) (d₂ inner)) (path : String)
    (once fatal : Bool) :
    S.Refines S.value (WebScript.includeFile d₁ path once fatal)
      (WebScript.includeFile d₂ path once fatal) := by
  intro m₁ m₂ hrel
  rw [includeFile_eq, includeFile_eq, ← hloads.library hrel]
  refine Refines.runLoaded hexcused (fun resolved nodes hloaded inner hinner => ?_) _ _
    (hloads.load path once hrel)
  exact hnodes inner (hloads.program hrel hloaded inner hinner)

/-! ## Any depth -/

/-- A simulation whose calls and inclusions are simulated one level down carries over to any
    nesting. -/
theorem refines_evalWithin
    (hstep : ∀ d₁ d₂ : Node → Eval Value,
      (∀ inner, node inner → S.Refines S.value (d₁ inner) (d₂ inner)) →
      ∀ inner, node inner → S.Follows c₁ d₁ c₂ d₂ inner) (depth : Nat) :
    ∀ inner, node inner →
      S.Refines S.value (evalWithin c₁ depth inner) (evalWithin c₂ depth inner) := by
  induction depth with
  | zero => exact fun inner _ => Refines.tooDeep inner
  | succ depth ih => exact fun inner hinner => (hstep _ _ ih inner hinner).eval .strict

/-- Nodes are followed under configurations that agree if those are that lie outside them. -/
theorem follows_of_nests (hadmits : S.Admits node) (hnests : S.Nests node)
    (hexcused : ∀ v, ¬ S.excused (.returned v)) (config : Config)
    (hdeeper : ∀ inner, node inner → S.Refines S.value (d₁ inner) (d₂ inner)) (whole : Node)
    (hwhole : node whole) : S.Follows config d₁ config d₂ whole := by
  refine follows_of_agree hadmits (fun _ _ _ => rfl) rfl rfl ?_ ?_ whole hwhole
  · intro line name args m₁ m₂ function values _ hrel hfunction hvalues
    refine Refines.callFunction hnests hexcused rfl rfl (hnests.param hrel hfunction)
      (fun inner hinner => ?_) hvalues
    exact hdeeper inner (hnests.body hrel hfunction inner hinner)
  · intro line path once fatal text _
    exact Refines.includeFile hnests.toLoads hexcused hdeeper text once fatal

end Simulation

/-! ## Whole runs -/

/-- A listing only adds to the output. -/
theorem Machine.writeListing_eq (machine : Machine) (config : Config) (nodes : List Node) :
    ∃ listing, machine.writeListing config nodes = machine.withOutput listing := by
  unfold writeListing
  split
  · exact ⟨listProgram nodes ++ "\n", by simp [withOutput, String.append_assoc]⟩
  · exact ⟨"", by simp [withOutput]⟩

/-- The run of an accepted source evaluates its statements after their listing. -/
theorem runSource_of_parse {source : String} {nodes : List Node} (h : parse source = .ok nodes)
    (config : Config) (library : Library) (path : Option String) :
    runSource config library source path =
      match library.forRun path with
      | .error limit => (.failed (.limit limit), .start (some library))
      | .ok marked =>
        evalProgram config nodes ((Machine.start (some marked)).writeListing config nodes) := by
  unfold runSource
  rw [h]
  rfl

/-! ## Runs that differ in their logs -/

/-- Machines that differ at most in what they have reported. -/
structure Machine.SameButLog (first second : Machine) : Prop where
  scope : first.scope = second.scope
  functions : first.functions = second.functions
  library : first.library = second.library
  output : first.output = second.output
  callDepth : first.callDepth = second.callDepth

namespace Machine.SameButLog

variable {first second caller₁ caller₂ : Machine}

theorem refl (machine : Machine) : machine.SameButLog machine :=
  ⟨rfl, rfl, rfl, rfl, rfl⟩

theorem entering (h : first.SameButLog second) : first.entering.SameButLog second.entering :=
  ⟨rfl, h.functions, h.library, h.output, congrArg (· + 1) h.callDepth⟩

theorem leaving (h : first.SameButLog second) (hcaller : caller₁.SameButLog caller₂) :
    (first.leaving caller₁).SameButLog (second.leaving caller₂) :=
  ⟨hcaller.scope, h.functions, h.library, h.output, hcaller.callDepth⟩

theorem leavingOpen (h : first.SameButLog second) (hcaller : caller₁.SameButLog caller₂) :
    (first.leavingOpen caller₁).SameButLog (second.leavingOpen caller₂) :=
  ⟨congrArg₂ Scope.inPlaceOf h.scope hcaller.scope, h.functions, h.library, h.output,
    hcaller.callDepth⟩

end Machine.SameButLog

/-- The values of the variables in sight. -/
def Machine.values (machine : Machine) : List Value := machine.scope.bindings.map Prod.snd

/-- Binding a variable adds no value but its own. -/
theorem Machine.mem_values_withVariable {machine : Machine} {name : String} {value v : Value}
    (h : v ∈ (machine.withVariable name value).values) : v = value ∨ v ∈ machine.values := by
  obtain ⟨⟨key, found⟩, hmem, rfl⟩ := List.mem_map.mp h
  rcases Dict.mem_insert hmem with heq | hmem
  · cases heq
    exact Or.inl rfl
  · exact Or.inr (List.mem_map.mpr ⟨_, hmem, rfl⟩)

/-- All values of variables and all nodes of functions and files have their properties. -/
structure Machine.Keeps (V : ValueInvariant) (node : Node → Prop) (machine : Machine) : Prop where
  values : ∀ v ∈ machine.values, V.value v
  consists : machine.Consists node

namespace ValueInvariant

variable (V : ValueInvariant) (node : Node → Prop) (excused : Exit → Prop)
  (hlocate : ∀ {exit : Exit} (line : Option Int), excused exit → excused (exit.locate line))

/-- Two runs that report different things at most, all of whose values and nodes have their
    properties. -/
def alongside : Simulation where
  toValueInvariant := V
  rel m₁ m₂ := m₁.SameButLog m₂ ∧ m₁.Keeps V node
  excused := excused
  readable _ := True
  bindable _ := True
  excused_locate := hlocate
  readable_of_bindable _ := trivial
  rel_events events h := ⟨⟨h.1.1, h.1.2, h.1.3, h.1.4, h.1.5⟩, ⟨h.2.1, ⟨h.2.2.1, h.2.2.2⟩⟩⟩
  rel_output text h :=
    ⟨⟨h.1.1, h.1.2, h.1.3, congrArg (· ++ text) h.1.4, h.1.5⟩, ⟨h.2.1, ⟨h.2.2.1, h.2.2.2⟩⟩⟩
  rel_functions h := h.1.functions
  rel_callDepth h := h.1.callDepth
  rel_read {_ _ name} h _ := congrArg (·.get? name) h.1.scope
  rel_generation h hafter := by rw [h.1.scope, hafter.1.scope]
  value_read h _ hv := h.2.values _ (List.mem_map.mpr ⟨_, Dict.mem_of_get? hv, rfl⟩)
  rel_bind := by
    intro m₁ m₂ name v h _ _ hv
    obtain ⟨hsame, hkeeps⟩ := h
    have hscope : (m₁.withVariable name v).scope = (m₂.withVariable name v).scope := by
      unfold Machine.withVariable
      rw [hsame.scope]
    refine ⟨{ hsame with scope := hscope }, ⟨fun w hw => ?_, ⟨hkeeps.2.1, hkeeps.2.2⟩⟩⟩
    rcases Machine.mem_values_withVariable hw with rfl | hw
    · exact hv
    · exact hkeeps.values w hw

/-- A run beside itself, all of whose values and nodes have their properties. -/
def along : Simulation := V.alongside node (fun _ => False) fun _ h => h

variable {V node excused hlocate}

theorem alongside_admits
    (hchild : ∀ {whole child : Node}, node whole → child ∈ whole.children → node child)
    (hint : ∀ {line n}, node ⟨line, .int n⟩ → V.value (.int n)) :
    (V.alongside node excused hlocate).Admits node where
  part h hpart := hchild h (Form.parts_subset_children _ hpart)
  int h := hint h
  readable _ := trivial
  valueVar _ := trivial
  keyVar _ := trivial
  assign _ _ := trivial
  compound _ _ := trivial
  function {line name params body m₁ m₂} h hrel := by
    obtain ⟨hsame, hkeeps⟩ := hrel
    have hfunctions := congrArg (·.define ⟨name, params, body⟩) hsame.functions
    exact ⟨{ hsame with functions := hfunctions },
      ⟨hkeeps.values, hkeeps.consists.withFunction fun inner hinner => hchild h hinner⟩⟩

/-- Functions and files consist of nodes of the kind that is followed. -/
theorem alongside_nests : (V.alongside node excused hlocate).Nests node where
  body h hfunction := h.2.consists.lookup hfunction
  param _ _ _ _ := trivial
  enter h := ⟨h.1.entering, ⟨fun v hv => (by cases hv), ⟨h.2.2.1, h.2.2.2⟩⟩⟩
  leave hcaller h := ⟨h.1.leaving hcaller.1, ⟨hcaller.2.1, ⟨h.2.2.1, h.2.2.2⟩⟩⟩
  leaveOpen hcaller h := ⟨h.1.leavingOpen hcaller.1, ⟨h.2.1, ⟨h.2.2.1, h.2.2.2⟩⟩⟩
  library h := h.1.library
  load path once h := ⟨⟨h.1.1, h.1.2, rfl, h.1.4, h.1.5⟩, ⟨h.2.1, h.2.2.load path once⟩⟩
  program h hload := h.2.consists.program hload

end ValueInvariant

end WebScript
