import WebScript.Proofs.EffectFree
import WebScript.Proofs.GlobalScope

/-!
# Arguments of a call

A call gives its parameters their values one after another: the arguments as long as there are
any, defaults after that. It fails at the first parameter that has neither. The number of arguments
that a function needs counts its parameters up to the last one without a default. So binding
succeeds if and only if there are that many arguments, although it may fail at an earlier parameter
than the last.
-/

namespace WebScript

/-! ## Needed arguments -/

/-- Parameters up to the last one without a default are needed. -/
theorem requiredCount_cons {ν : Type} (param : Param ν) (rest : List (Param ν)) :
    requiredCount (param :: rest) =
      if requiredCount rest = 0 then if param.default.isNone then 1 else 0
      else requiredCount rest + 1 := by
  rw [requiredCount]
  cases requiredCount rest <;> rfl

/-- A number of arguments suffices if and only if all parameters beyond them have defaults. -/
theorem requiredCount_le_iff {ν : Type} (params : List (Param ν)) (count : Nat) :
    requiredCount params ≤ count ↔ ∀ param ∈ params.drop count, param.default.isSome := by
  induction params generalizing count with
  | nil => simp [requiredCount]
  | cons param rest ih =>
    rw [requiredCount_cons]
    cases count with
    | zero =>
      have hrest := ih 0
      rw [List.drop_zero, Nat.le_zero] at hrest
      rw [List.drop_zero, Nat.le_zero, List.forall_mem_cons, ← hrest]
      by_cases hzero : requiredCount rest = 0
      · cases param.default <;> simp [hzero]
      · simp [hzero]
    | succ count =>
      rw [List.drop_succ_cons, ← ih count]
      split_ifs <;> omega

/-- The last of a row is beyond a number of its members unless the others are fewer. -/
theorem forall_mem_drop_snoc {α : Type} {property : α → Prop} {row : List α} {last : α}
    {count : Nat} :
    (∀ member ∈ (row ++ [last]).drop count, property member) ↔
      (∀ member ∈ row.drop count, property member) ∧ (count ≤ row.length → property last) := by
  by_cases h : count ≤ row.length
  · rw [List.drop_append_of_le_length h, List.forall_mem_append, List.forall_mem_singleton]
    simp [h]
  · have hlt := Nat.lt_of_not_le h
    have hnone : (row ++ [last]).drop count = [] :=
      List.drop_eq_nil_of_le (by rw [List.length_append]; exact hlt)
    simp [hnone, List.drop_eq_nil_of_le (Nat.le_of_lt hlt), h]

/-- The parameter at which a call with so many arguments fails: the first one beyond them that has
    no default. -/
structure FirstMissing (params : List (Param Node)) (count : Nat) (first : List (Param Node))
    (param : Param Node) : Prop where
  splits : ∃ rest, params = first ++ param :: rest
  beyond : count ≤ first.length
  supplied : ∀ earlier ∈ first.drop count, earlier.default.isSome
  missing : param.default = none

/-- With too few arguments there is a first parameter that gets neither an argument nor a
    default. -/
theorem exists_firstMissing {params : List (Param Node)} {count : Nat}
    (h : count < requiredCount params) : ∃ first param, FirstMissing params count first param := by
  have hmissing := mt (requiredCount_le_iff params count).mpr (Nat.not_le_of_lt h)
  clear h
  induction params using List.reverseRecOn with
  | nil => exact absurd (by simp) hmissing
  | append_singleton params param ih =>
    rw [forall_mem_drop_snoc, not_and_or] at hmissing
    by_cases hparams : ∀ earlier ∈ params.drop count, earlier.default.isSome
    · have hlast := hmissing.resolve_left (not_not_intro hparams)
      rw [Classical.not_imp, Option.not_isSome_iff_eq_none] at hlast
      exact ⟨params, param, ⟨[], rfl⟩, hlast.1, hparams, hlast.2⟩
    · obtain ⟨first, missing, ⟨rest, rfl⟩, hbeyond, hsupplied, hnone⟩ := ih hparams
      exact ⟨first, missing, ⟨rest ++ [param], by simp⟩, hbeyond, hsupplied, hnone⟩

/-- What is said of a call of a function with too few arguments. -/
theorem message_argumentCount (name param : String) (passed required total : Nat) :
    (Cause.argumentCount name param passed required (required == total)).message =
      "Too few arguments to function " ++ name ++ "(), " ++ toString passed ++ " passed and " ++
        (if required = total then "exactly " else "at least ") ++ toString required ++
        " expected" := by
  have hword : (if (required == total) = true then "exactly " else "at least ") =
      if required = total then "exactly " else "at least " := by
    simp only [beq_iff_eq]
  rw [← hword]
  rfl

/-! ## Binding one parameter after another -/

section Binding

variable {run : Node → Eval Value} {function : Function} {passed : Nat}

/-- Parameters are bound one after another; those further on get the arguments that are left. -/
theorem bindParams_append (first rest : List (Param Node)) (args : List Value) :
    bindParams run function passed (first ++ rest) args =
      bindParams run function passed first args >>= fun _ =>
        bindParams run function passed rest (args.drop first.length) := by
  induction first generalizing args with
  | nil => rfl
  | cons param first ih =>
    cases args with
    | cons arg args =>
      simp only [List.cons_append, bindParams, ih, bind_assoc, List.length_cons,
        List.drop_succ_cons]
    | nil =>
      simp only [List.cons_append, bindParams]
      cases param.default with
      | none => rfl
      | some fallback => simp only [ih, bind_assoc, List.drop_nil]

/-- Arguments beyond the last parameter do not matter. -/
theorem bindParams_take {params : List (Param Node)} {args : List Value}
    (h : params.length ≤ args.length) (other : Nat) :
    bindParams run function passed params args =
      bindParams run function other params (args.take params.length) := by
  induction params generalizing args with
  | nil => rfl
  | cons param params ih =>
    cases args with
    | nil => cases h
    | cons arg args =>
      simp only [List.length_cons, List.take_succ_cons, bindParams,
        ih (Nat.le_of_succ_le_succ h)]

variable {param : Param Node} {machine after : Machine} {value : Value}

theorem bindParams_argument (hname : param.name ≠ reservedName) (args : List Value) :
    bindParams run function passed [param] (value :: args) machine =
      .ok () (machine.withVariable param.name value) := by
  rw [bindParams, Eval.bind_of_ok _ (Simulation.setVariable_of_ne hname value machine)]
  rfl

/-- A parameter without an argument is bound to its default in the scope that was in sight, if that
    still is. -/
theorem bindParams_default (hname : param.name ≠ reservedName) {fallback : Node}
    (hdefault : param.default = some fallback) (hrun : run fallback machine = .ok value after)
    (hsight : after.scope.generation = machine.scope.generation) :
    bindParams run function passed [param] [] machine =
      .ok () (after.withVariable param.name value) := by
  have hbind : bindDefault run param.name fallback machine =
      .ok () (after.withVariable param.name value) := by
    rw [bindDefault_eq, Eval.bind_of_ok _ hrun, Simulation.setVariableIn_eq, if_neg hname,
      Machine.withVariableIn, if_pos hsight]
  simp only [bindParams, hdefault]
  rw [Eval.bind_of_ok _ hbind]
  rfl

theorem bindParams_missing (hdefault : param.default = none) (rest : List (Param Node)) :
    bindParams run function passed (param :: rest) [] machine =
      .error (.fault (.error (.argumentCount function.name param.name passed function.required
        (function.required == function.params.length)) none)) machine := by
  simp only [bindParams, hdefault]
  rfl

end Binding

/-! ## Defaults -/

/-- The default is needed to bind the parameters of a function on a machine: there is no argument
    for its parameter. It is evaluated on the second machine, which has the parameters before. -/
inductive NeedsDefault (run : Node → Eval Value) (function : Function) (args : List Value)
    (start : Machine) : Node → Machine → Prop
  | missing {first rest : List (Param Node)} {param : Param Node} {fallback : Node}
    {before : Machine} (hparams : function.params = first ++ param :: rest)
    (hargs : args.length ≤ first.length) (hdefault : param.default = some fallback)
    (hbound : bindParams run function args.length first args start = .ok () before) :
    NeedsDefault run function args start fallback before

/-- A run that ends with a value keeps the scope in sight and the variables in it, if a
    configuration restores them after a `return`. -/
theorem sight_evalWithin {config : Config} (hrestore : config.restoreScopeOnReturn = true)
    {depth : Nat} {node : Node} {machine after : Machine} {value : Value}
    (h : evalWithin config depth node machine = .ok value after) :
    after.scope.generation = machine.scope.generation ∧
      Dict.keys machine.scope.bindings <+: Dict.keys after.scope.bindings := by
  cases depth with
  | zero => cases h
  | succ depth =>
    have hsees := sees_evalWithin h
    have hsame := hsees.restored hrestore
    exact ⟨hsame, (hsees.keeps hsame).names⟩

/-! ## Runs that report above a common log -/

theorem Machine.SameButLog.withVariable {first second : Machine} (h : first.SameButLog second)
    (name : String) (value : Value) :
    (first.withVariable name value).SameButLog (second.withVariable name value) := by
  have hscope : (first.withVariable name value).scope = (second.withVariable name value).scope := by
    unfold Machine.withVariable
    rw [h.scope]
  exact { h with scope := hscope }

/-- Two runs that have reported the same since they had the given logs, and differ in nothing
    else. -/
def reportsAbove (log₁ log₂ : List Event) : Simulation where
  toValueInvariant := .always
  rel m₁ m₂ := m₁.SameButLog m₂ ∧ ∃ events, m₁.log = events ++ log₁ ∧ m₂.log = events ++ log₂
  excused _ := False
  readable _ := True
  bindable _ := True
  excused_locate _ h := h
  readable_of_bindable _ := trivial
  rel_events := by
    rintro m₁ m₂ events ⟨hsame, earlier, hlog₁, hlog₂⟩
    refine ⟨⟨hsame.1, hsame.2, hsame.3, hsame.4, hsame.5⟩, events ++ earlier, ?_, ?_⟩
    · simp [Machine.withEvents, hlog₁]
    · simp [Machine.withEvents, hlog₂]
  rel_output text h :=
    ⟨{ h.1 with output := congrArg (· ++ text) h.1.output }, h.2⟩
  rel_functions h := h.1.functions
  rel_callDepth h := h.1.callDepth
  rel_read {_ _ name} h _ := congrArg (·.get? name) h.1.scope
  rel_generation h hafter := by rw [h.1.scope, hafter.1.scope]
  value_read _ _ _ := trivial
  rel_bind {_ _ name v} h _ _ _ := ⟨h.1.withVariable name v, h.2⟩

section

variable {log₁ log₂ : List Event}

theorem reportsAbove_admits : (reportsAbove log₁ log₂).Admits fun _ => True where
  part _ _ := trivial
  int _ := trivial
  readable _ := trivial
  valueVar _ := trivial
  keyVar _ := trivial
  assign _ _ := trivial
  compound _ _ := trivial
  function {_ name params body _ _} _ h :=
    ⟨{ h.1 with functions := congrArg (·.define ⟨name, params, body⟩) h.1.functions }, h.2⟩

theorem reportsAbove_nests : (reportsAbove log₁ log₂).Nests fun _ => True where
  body _ _ _ _ := trivial
  param _ _ _ _ := trivial
  enter h := ⟨h.1.entering, h.2⟩
  leave hcaller h := ⟨h.1.leaving hcaller.1, h.2⟩
  leaveOpen hcaller h := ⟨h.1.leavingOpen hcaller.1, h.2⟩
  library h := h.1.library
  load _ _ h := ⟨⟨h.1.1, h.1.2, rfl, h.1.4, h.1.5⟩, h.2⟩
  program _ _ _ _ := trivial

/-- What was reported before a run stays below what the run reports. -/
theorem reportsAbove_evalWithin (config : Config) (depth : Nat) (node : Node) :
    (reportsAbove log₁ log₂).Refines (fun _ => True) (evalWithin config depth node)
      (evalWithin config depth node) :=
  Simulation.refines_within reportsAbove_admits reportsAbove_nests (fun _ h => h) config depth node
    trivial

end

/-! ## Values of parameters -/

/-- The machine on which variables have been given values, one after another. -/
def Machine.withVariables (machine : Machine) (bindings : List (String × Value)) : Machine :=
  bindings.foldl (fun bound binding => bound.withVariable binding.1 binding.2) machine

/-- The last of several bindings is made after the others. -/
theorem Machine.withVariables_snoc (machine : Machine) (bindings : List (String × Value))
    (name : String) (value : Value) :
    machine.withVariables (bindings ++ [(name, value)]) =
      (machine.withVariables bindings).withVariable name value := by
  simp [withVariables, List.foldl_append]

/-- Of several values that a variable has been given, it has the last. -/
theorem Machine.get?_withVariables (machine : Machine) (bindings : List (String × Value))
    (name : String) :
    (machine.withVariables bindings).scope.get? name =
      (bindings.reverse.lookup name).or (machine.scope.get? name) := by
  induction bindings using List.reverseRecOn with
  | nil => rfl
  | append_singleton bindings binding ih =>
    rw [withVariables_snoc, Machine.get?_withVariable, List.reverse_append, List.reverse_singleton,
      List.singleton_append, List.lookup_cons]
    by_cases hname : name = binding.1
    · simp [hname]
    · rw [if_neg hname, ih, beq_eq_false_iff_ne.mpr hname]

theorem Machine.mem_keys_withVariables {machine : Machine} {bindings : List (String × Value)}
    {name : String} :
    name ∈ Dict.keys (machine.withVariables bindings).scope.bindings ↔
      name ∈ bindings.map Prod.fst ∨ name ∈ Dict.keys machine.scope.bindings := by
  induction bindings using List.reverseRecOn with
  | nil => simp [withVariables]
  | append_singleton bindings binding ih =>
    rw [withVariables_snoc, withVariable, Dict.mem_keys_insert, ih, List.map_append,
      List.mem_append, List.map_singleton, List.mem_singleton, ← or_assoc, or_comm (a := _ = _)]

/-- The values that parameters are given on a machine: a parameter is given its argument if there is
    one, and otherwise the value of its default on the machine that has just the parameters before
    it. -/
inductive Receives (run : Node → Eval Value) (args : List Value) (start : Machine) :
    List (Param Node) → List (String × Value) → Prop
  | none : Receives run args start [] []
  | argument {params : List (Param Node)} {bindings : List (String × Value)} {param : Param Node}
    {value : Value} (h : Receives run args start params bindings)
    (harg : args[params.length]? = some value) :
    Receives run args start (params ++ [param]) (bindings ++ [(param.name, value)])
  | default {params : List (Param Node)} {bindings : List (String × Value)} {param : Param Node}
    {fallback : Node} {value : Value} (h : Receives run args start params bindings)
    (hargs : args.length ≤ params.length) (hdefault : param.default = some fallback)
    (hvalue : (run fallback).ending (start.withVariables bindings) = .ok value) :
    Receives run args start (params ++ [param]) (bindings ++ [(param.name, value)])

/-- Each parameter receives one value, under its name. -/
theorem Receives.names_eq {run : Node → Eval Value} {args : List Value} {start : Machine}
    {params : List (Param Node)} {bindings : List (String × Value)}
    (h : Receives run args start params bindings) :
    bindings.map Prod.fst = params.map Param.name := by
  induction h with
  | none => rfl
  | argument h harg ih => rw [List.map_append, List.map_append, ih]; rfl
  | default h hargs hdefault hvalue ih => rw [List.map_append, List.map_append, ih]; rfl

/-- What an effect-free expression evaluates to on a machine it evaluates to on all that differ in
    their logs, and nothing else becomes of them. -/
theorem Node.EffectFree.evalWithin_ok {config : Config} {depth : Nat} {node : Node}
    (h : node.EffectFree) {machine after other : Machine} {value : Value}
    (hrun : evalWithin config depth node machine = .ok value after)
    (hsame : machine.SameButLog other) :
    (evalWithin config depth node).ending other = .ok value ∧ after.SameButLog other := by
  have hending := ((reportsAbove_evalWithin config depth node).ending_eq (fun _ h => h)
    ⟨hsame, [], rfl, rfl⟩).1
  have hvalue : (evalWithin config depth node).ending machine = .ok value := by
    rw [Eval.ending, hrun]
  refine ⟨hending.symm.trans hvalue, ?_⟩
  cases depth with
  | zero => cases hrun
  | succ depth =>
    have hquiet : Eval.Quiet (node.evalAs config (evalWithin config depth) .strict) :=
      h.quiet .strict
    rcases hquiet machine with ⟨found, events, hends⟩ | ⟨fault, events, hends⟩
    · cases hends.symm.trans hrun
      exact ⟨hsame.1, hsame.2, hsame.3, hsame.4, hsame.5⟩
    · cases hends.symm.trans hrun

/-! ## Calls -/

section Calls

variable {config : Config} {depth : Nat} {function : Function} {args : List Value} {start : Machine}
  {first rest : List (Param Node)} (hrestore : config.restoreScopeOnReturn = true)
  (hdefaults : ∀ fallback before,
    NeedsDefault (evalWithin config depth) function args start fallback before →
      ∃ value after, evalWithin config depth fallback before = .ok value after)

include hrestore hdefaults

/-- One more parameter is given its argument, or what its default gives. -/
theorem bindParams_snoc {param : Param Node} (hparams : function.params = first ++ param :: rest)
    (hname : param.name ≠ reservedName)
    (hdefault : args.length ≤ first.length → param.default.isSome) {before : Machine}
    (hbefore : bindParams (evalWithin config depth) function args.length first args start =
      .ok () before) :
    (∃ value, args[first.length]? = some value ∧
      bindParams (evalWithin config depth) function args.length (first ++ [param]) args start =
        .ok () (before.withVariable param.name value)) ∨
    ∃ fallback value after, args.length ≤ first.length ∧ param.default = some fallback ∧
      evalWithin config depth fallback before = .ok value after ∧
      bindParams (evalWithin config depth) function args.length (first ++ [param]) args start =
        .ok () (after.withVariable param.name value) := by
  rw [bindParams_append, Eval.bind_of_ok _ hbefore]
  by_cases hlength : first.length < args.length
  · rw [List.drop_eq_getElem_cons hlength, bindParams_argument hname]
    exact .inl ⟨_, List.getElem?_eq_getElem hlength, rfl⟩
  · have hlength := Nat.le_of_not_lt hlength
    obtain ⟨fallback, hfallback⟩ := Option.isSome_iff_exists.mp (hdefault hlength)
    obtain ⟨value, after, hrun⟩ :=
      hdefaults fallback before (.missing hparams hlength hfallback hbefore)
    rw [List.drop_eq_nil_of_le hlength, bindParams_default hname hfallback hrun
      (sight_evalWithin hrestore hrun).1]
    exact .inr ⟨fallback, value, after, hlength, hfallback, hrun, rfl⟩

variable (hnames : ∀ param ∈ function.params, param.name ≠ reservedName)

include hnames

/-- With effect-free defaults, each parameter receives its argument or the value of its default, and
    nothing else becomes of the machine. -/
theorem exists_receives (hparams : function.params = first ++ rest)
    (hfirst : ∀ param ∈ first.drop args.length, param.default.isSome)
    (heffects : ∀ fallback before,
      NeedsDefault (evalWithin config depth) function args start fallback before →
        fallback.EffectFree) :
    ∃ bindings after, Receives (evalWithin config depth) args start first bindings ∧
      bindParams (evalWithin config depth) function args.length first args start = .ok () after ∧
      after.SameButLog (start.withVariables bindings) := by
  induction first using List.reverseRecOn generalizing rest with
  | nil => exact ⟨[], start, .none, rfl, .refl start⟩
  | append_singleton first param ih =>
    rw [List.append_assoc, List.singleton_append] at hparams
    obtain ⟨hfirst, hdefault⟩ := forall_mem_drop_snoc.mp hfirst
    obtain ⟨bindings, before, hreceives, hbefore, hsame⟩ := ih hparams hfirst
    have hname := hnames param (by simp [hparams])
    rcases bindParams_snoc hrestore hdefaults hparams hname hdefault hbefore with
      ⟨value, harg, hbind⟩ | ⟨fallback, value, after, hlength, hfallback, hrun, hbind⟩
    · refine ⟨_, _, hreceives.argument harg, hbind, ?_⟩
      rw [Machine.withVariables_snoc]
      exact hsame.withVariable param.name value
    · have heffect := heffects fallback before (.missing hparams hlength hfallback hbefore)
      obtain ⟨hvalue, hafter⟩ := heffect.evalWithin_ok hrun hsame
      refine ⟨_, _, hreceives.default hlength hfallback hvalue, hbind, ?_⟩
      rw [Machine.withVariables_snoc]
      exact hafter.withVariable param.name value

/-- Parameters that have arguments or defaults are all bound. -/
theorem exists_bindParams (hparams : function.params = first ++ rest)
    (hfirst : ∀ param ∈ first.drop args.length, param.default.isSome) :
    ∃ after,
      bindParams (evalWithin config depth) function args.length first args start = .ok () after ∧
      ∀ param ∈ first, param.name ∈ Dict.keys after.scope.bindings := by
  induction first using List.reverseRecOn generalizing rest with
  | nil => exact ⟨start, rfl, List.forall_mem_nil _⟩
  | append_singleton first param ih =>
    rw [List.append_assoc, List.singleton_append] at hparams
    obtain ⟨hfirst, hdefault⟩ := forall_mem_drop_snoc.mp hfirst
    obtain ⟨before, hbefore, hbound⟩ := ih hparams hfirst
    have hname := hnames param (by simp [hparams])
    -- Neither evaluating a default nor giving the parameter its value takes a name out of sight.
    have hkeeps {machine : Machine} (value : Value)
        (hkeys : Dict.keys before.scope.bindings <+: Dict.keys machine.scope.bindings) :
        ∀ other ∈ first ++ [param],
          other.name ∈ Dict.keys (machine.withVariable param.name value).scope.bindings := by
      intro other hother
      unfold Machine.withVariable
      rw [Dict.mem_keys_insert]
      rcases List.mem_append.mp hother with hother | hother
      · exact .inr (hkeys.subset (hbound other hother))
      · exact .inl (congrArg Param.name (List.mem_singleton.mp hother))
    rcases bindParams_snoc hrestore hdefaults hparams hname hdefault hbefore with
      ⟨value, -, hbind⟩ | ⟨fallback, value, after, -, -, hrun, hbind⟩
    · exact ⟨_, hbind, hkeeps value (List.prefix_refl _)⟩
    · exact ⟨_, hbind, hkeeps value ((sight_evalWithin hrestore hrun).2)⟩

theorem exists_bindParams_all (h : function.required ≤ args.length) :
    ∃ after,
      bindParams (evalWithin config depth) function args.length function.params args start =
        .ok () after ∧
      ∀ param ∈ function.params, param.name ∈ Dict.keys after.scope.bindings :=
  exists_bindParams hrestore hdefaults hnames (List.append_nil _).symm
    ((requiredCount_le_iff _ _).mp h)

/-- With too few arguments, binding fails at the first parameter that has none and no default. -/
theorem bindParams_fails (h : args.length < function.required) :
    ∃ first param after, FirstMissing function.params args.length first param ∧
      bindParams (evalWithin config depth) function args.length function.params args start =
        .error (.fault (.error (.argumentCount function.name param.name args.length
          function.required (function.required == function.params.length)) none)) after := by
  obtain ⟨first, param, hmissing⟩ := exists_firstMissing h
  obtain ⟨rest, hparams⟩ := hmissing.splits
  obtain ⟨before, hbefore, -⟩ :=
    exists_bindParams hrestore hdefaults hnames hparams hmissing.supplied
  refine ⟨first, param, before, hmissing, ?_⟩
  calc bindParams (evalWithin config depth) function args.length function.params args start
    _ = bindParams (evalWithin config depth) function args.length (first ++ param :: rest) args
        start := by rw [hparams]
    _ = bindParams (evalWithin config depth) function args.length (param :: rest) [] before := by
        rw [bindParams_append, Eval.bind_of_ok _ hbefore,
          List.drop_eq_nil_of_le hmissing.beyond]
    _ = _ := bindParams_missing hmissing.missing rest

/-- Binding succeeds if there are as many arguments as are needed. -/
theorem bindParams_ok_iff :
    (∃ after, bindParams (evalWithin config depth) function args.length function.params args start =
      .ok () after) ↔ function.required ≤ args.length := by
  refine ⟨fun ⟨after, hafter⟩ => Nat.le_of_not_lt fun h => ?_, fun h => ?_⟩
  · obtain ⟨_, _, _, -, hfails⟩ := bindParams_fails hrestore hdefaults hnames h
    cases hfails.symm.trans hafter
  · obtain ⟨after, hafter, -⟩ := exists_bindParams_all hrestore hdefaults hnames h
    exact ⟨after, hafter⟩

end Calls

/-! ## Further arguments -/

/-- A body does not see the arguments beyond its parameters. -/
theorem callBody_take (run : Node → Eval Value) (config : Config) (function : Function)
    (args : List Value) :
    callBody run config function args =
      callBody run config function (args.take function.params.length) := by
  by_cases hlength : function.params.length ≤ args.length
  · unfold callBody
    rw [bindParams_take hlength]
  · rw [List.take_of_length_le (Nat.le_of_not_le hlength)]

/-- Neither the parameters nor the statements of a function depend on what has been reported. -/
theorem reportsAbove_callBody {log₁ log₂ : List Event} (config : Config) (depth : Nat)
    (function : Function) (args : List Value) :
    (reportsAbove log₁ log₂).Refines (fun _ => True)
      (callBody (evalWithin config depth) config function args)
      (callBody (evalWithin config depth) config function args) := by
  refine (Simulation.Refines.bindParams function args.length
    (fun inner _ => reportsAbove_evalWithin config depth inner) (fun _ _ => trivial)
    fun _ _ => trivial).andThen fun _ _ => ?_
  exact (Simulation.Refines.runBody (fun _ h => h) rfl
    fun inner _ => reportsAbove_evalWithin config depth inner).mono fun _ _ => trivial

/-- A call does not depend on the arguments beyond its parameters: it ends as without them and
    leaves the same machine, except that it has reported how many arguments there were. -/
theorem callFunction_take (config : Config) (depth : Nat) (function : Function) (args : List Value)
    (machine : Machine) :
    let used := args.take function.params.length
    let call (args : List Value) : Eval Value :=
      callFunction (evalWithin config depth) config function args
    (call args).ending machine = (call used).ending machine ∧
    ((call args).after machine).SameButLog ((call used).after machine) ∧
    ∃ reported,
      ((call args).after machine).log = reported ++ (machine.calling function args).log ∧
      ((call used).after machine).log = reported ++ (machine.calling function used).log := by
  intro used call
  have hcaller : (machine.calling function args).SameButLog (machine.calling function used) :=
    ⟨rfl, rfl, rfl, rfl, rfl⟩
  have hends := reportsAbove_callBody config depth function used
    (machine.calling function args).entering (machine.calling function used).entering
    ⟨hcaller.entering, [], rfl, rfl⟩
  unfold Eval.ending Eval.after
  simp only [call, callFunction_eq, callBody_take _ config function args]
  generalize callBody (evalWithin config depth) config function used
    (machine.calling function args).entering = ends₁ at hends
  generalize callBody (evalWithin config depth) config function used
    (machine.calling function used).entering = ends₂ at hends
  cases hends with
  | @ok result _ _ hafter _ =>
    obtain ⟨hsame, hlog⟩ := hafter
    cases result with
    | none => exact ⟨rfl, hsame.leaving hcaller, hlog⟩
    | some value =>
      cases config.restoreScopeOnReturn with
      | true => exact ⟨rfl, hsame.leaving hcaller, hlog⟩
      | false => exact ⟨rfl, hsame.leavingOpen hcaller, hlog⟩
  | error hafter _ =>
    obtain ⟨hsame, hlog⟩ := hafter
    exact ⟨rfl, hsame.leaving hcaller, hlog⟩
  | excused hexit => exact hexit.elim

/-! ## Result -/

/-- Binding succeeds if and only if there are as many arguments as the function needs; otherwise it
    fails at the first parameter beyond the arguments that has no default. If it succeeds, all
    parameters are bound. With effect-free defaults nothing else is, and each name has the value
    that the last parameter of the name received. The call itself does not depend on the arguments
    beyond the parameters. -/
theorem arguments_bind_parameters (config : Config)
    (hrestore : config.restoreScopeOnReturn = true) (depth : Nat) (function : Function)
    (hnames : ∀ param ∈ function.params, param.name ≠ reservedName) (args : List Value)
    (machine : Machine)
    (hdefaults : ∀ fallback before,
      NeedsDefault (evalWithin config depth) function args (machine.calling function args).entering
        fallback before →
      ∃ value after, evalWithin config depth fallback before = .ok value after) :
    let run := evalWithin config depth
    let callee := (machine.calling function args).entering
    let binding := bindParams run function args.length function.params args
    let missing (name : String) : Cause := .argumentCount function.name name args.length
      function.required (function.required == function.params.length)
    let call (args : List Value) : Eval Value := callFunction run config function args
    let used := args.take function.params.length
    ((∃ after, binding callee = .ok () after) ↔ function.required ≤ args.length) ∧
    (args.length < function.required → ∃ first param after,
      FirstMissing function.params args.length first param ∧
      binding callee = .error (.fault (.error (missing param.name) none)) after ∧
      (missing param.name).message =
        "Too few arguments to function " ++ function.name ++ "(), " ++ toString args.length ++
          " passed and " ++
          (if function.required = function.params.length then "exactly " else "at least ") ++
          toString function.required ++ " expected") ∧
    (∀ after, binding callee = .ok () after →
      (∀ param ∈ function.params, after.scope.contains param.name) ∧
      ((∀ fallback before, NeedsDefault run function args callee fallback before →
          fallback.EffectFree) →
        ∃ bindings, Receives run args callee function.params bindings ∧
          after.SameButLog (callee.withVariables bindings) ∧
          ∀ name, after.scope.get? name = bindings.reverse.lookup name ∧
            (after.scope.contains name ↔ ∃ param ∈ function.params, param.name = name))) ∧
    (call args).ending machine = (call used).ending machine ∧
    ((call args).after machine).SameButLog ((call used).after machine) ∧
    ∃ reported,
      ((call args).after machine).log = reported ++ (machine.calling function args).log ∧
      ((call used).after machine).log = reported ++ (machine.calling function used).log := by
  intro run callee binding missing call used
  have hiff := bindParams_ok_iff hrestore hdefaults hnames
  refine ⟨hiff, fun h => ?_, fun after hafter => ⟨fun param hparam => ?_, fun heffects => ?_⟩,
    callFunction_take config depth function args machine⟩
  · obtain ⟨first, param, after, hmissing, hfails⟩ := bindParams_fails hrestore hdefaults hnames h
    exact ⟨first, param, after, hmissing, hfails, message_argumentCount _ _ _ _ _⟩
  · obtain ⟨_, hbound, hparams⟩ :=
      exists_bindParams_all hrestore hdefaults hnames (hiff.mp ⟨after, hafter⟩)
    cases hbound.symm.trans hafter
    exact Dict.contains_iff.mpr (hparams param hparam)
  · have hsupplied : ∀ param ∈ function.params.drop args.length, param.default.isSome :=
      (requiredCount_le_iff _ _).mp (hiff.mp ⟨after, hafter⟩)
    have hall : function.params = function.params ++ [] := (List.append_nil _).symm
    obtain ⟨bindings, _, hreceives, hbound, hsame⟩ :=
      exists_receives hrestore hdefaults hnames hall hsupplied heffects
    cases hbound.symm.trans hafter
    refine ⟨bindings, hreceives, hsame, fun name => ⟨?_, ?_⟩⟩
    · rw [hsame.scope, Machine.get?_withVariables]
      exact Option.or_none
    · rw [hsame.scope, Scope.contains, Dict.contains_iff, Machine.mem_keys_withVariables,
        hreceives.names_eq, List.mem_map]
      exact or_iff_left nofun

/-- A function with the parameters `$a = 5, $b, $a = $b` needs two arguments. Called with 1 and 2 it
    has 2 as its `$a`. -/
theorem arguments_bind_parameters_repeated :
    let function : Function := ⟨"f", [⟨none, "a", some ⟨none, .int 5⟩⟩, ⟨none, "b", none⟩,
      ⟨none, "a", some ⟨none, .variable "b"⟩⟩], []⟩
    let args : List Value := [.int 1, .int 2]
    let machine := Machine.start none
    let callee := (machine.calling function args).entering
    function.required = 2 ∧ ∃ after,
      bindParams (evalWithin {} 1) function args.length function.params args callee =
        .ok () after ∧
      after.scope.get? "a" = some (.int 2) ∧ after.scope.contains "b" := by
  intro function args machine callee
  have hnames : ∀ param ∈ function.params, param.name ≠ reservedName := by
    simp [function, reservedName]
  have hdefaults : ∀ fallback before, NeedsDefault (evalWithin {} 1) function args callee fallback
      before → ∃ value after, evalWithin {} 1 fallback before = .ok value after := by
    intro fallback before h
    cases h with
    | @missing first rest param _ _ hparams hargs hdefault hbound =>
      rcases first with _ | ⟨x, _ | ⟨y, _ | ⟨z, first⟩⟩⟩
      · cases hargs
      · exact absurd hargs (Nat.not_succ_le_self 1)
      · cases hparams
        cases hdefault
        cases hbound
        exact ⟨.int 2, _, by cbv⟩
      · simp [function] at hparams
  obtain ⟨hiff, -, hbinds, -⟩ :=
    arguments_bind_parameters {} rfl 1 function hnames args machine hdefaults
  have hrequired : function.required = 2 := rfl
  obtain ⟨after, hafter⟩ := hiff.mpr (Nat.le_of_eq hrequired)
  obtain ⟨hbound, -⟩ := hbinds after hafter
  refine ⟨hrequired, after, hafter, ?_, hbound _ (List.mem_cons_of_mem _ List.mem_cons_self)⟩
  have hbinding : bindParams (evalWithin {} 1) function args.length function.params args callee =
      .ok () (callee.withVariables [("a", .int 1), ("b", .int 2), ("a", .int 2)]) := by
    cbv
  cases hbinding.symm.trans hafter
  rfl

end WebScript
