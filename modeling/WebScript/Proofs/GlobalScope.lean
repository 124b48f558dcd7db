import WebScript.Proofs.Inclusion

/-!
# The variables in sight after a run

A call counts itself for as long as it goes on, and puts its own variables in place of those of its
caller. However it ends, the count is what it was; if a configuration restores variables after a
`return`, the variables in sight are those of the caller again. What is in sight when a run is over
is therefore what was in sight at its start, changed only by what the run did outside of its calls.
Otherwise a scope may have been left in place of another one; its generation is then a later one.
-/

namespace WebScript

/-! ## The number of calls -/

/-- A call is over when it ends, in whichever way. -/
theorem callDepth_callFunction (run : Node → Eval Value) (config : Config) (function : Function)
    (args : List Value) (machine : Machine) :
    ((callFunction run config function args).after machine).callDepth = machine.callDepth := by
  unfold Eval.after
  rw [callFunction_eq]
  cases callBody run config function args (machine.calling function args).entering with
  | error exit after => rfl
  | ok result after =>
    cases result with
    | none => rfl
    | some value => cases config.restoreScopeOnReturn <;> rfl

/-- A run beside itself, at whose start and end the given number of calls is going on. -/
def sameCallDepth (level : Nat) : Simulation where
  toValueInvariant := .always
  rel m₁ m₂ := m₁ = m₂ ∧ m₁.callDepth = level
  excused _ := False
  readable _ := True
  bindable _ := True
  excused_locate _ h := h
  readable_of_bindable _ := trivial
  rel_events events h := ⟨congrArg (·.withEvents events) h.1, h.2⟩
  rel_output text h := ⟨congrArg (·.withOutput text) h.1, h.2⟩
  rel_functions h := congrArg _ h.1
  rel_callDepth h := congrArg _ h.1
  rel_read h _ := by rw [h.1]
  rel_generation h hafter := by rw [h.1, hafter.1]
  value_read _ _ _ := trivial
  rel_bind {_ _ name v} h _ _ _ := ⟨congrArg (·.withVariable name v) h.1, h.2⟩

section

variable {level : Nat} {config : Config}

theorem sameCallDepth_admits : (sameCallDepth level).Admits fun _ => True where
  part _ _ := trivial
  int _ := trivial
  readable _ := trivial
  valueVar _ := trivial
  keyVar _ := trivial
  assign _ _ := trivial
  compound _ _ := trivial
  function _ h := ⟨by rw [h.1], h.2⟩

theorem sameCallDepth_loads : (sameCallDepth level).Loads fun _ => True where
  library h := congrArg _ h.1
  load path once h := ⟨by rw [h.1], h.2⟩
  program _ _ _ _ := trivial

/-- An action after which as many calls are going on as before. -/
theorem sameCallDepth_refines {α : Type} {action : Eval α}
    (h : ∀ machine, (action.after machine).callDepth = machine.callDepth) :
    (sameCallDepth level).Refines (fun _ => True) action action := by
  rintro machine _ ⟨rfl, hlevel⟩
  have hafter := (h machine).trans hlevel
  unfold Eval.after at hafter
  cases hrun : action machine with
  | ok value after =>
    rw [hrun] at hafter
    exact .ok ⟨rfl, hafter⟩ trivial
  | error exit after =>
    rw [hrun] at hafter
    exact .error ⟨rfl, hafter⟩ fun _ _ => trivial

theorem sameCallDepth_evalWithin (depth : Nat) (node : Node) :
    (sameCallDepth level).Refines (fun _ => True) (evalWithin config depth node)
      (evalWithin config depth node) := by
  have hexcused : ∀ v, ¬ (sameCallDepth level).excused (.returned v) := fun _ h => h
  induction depth generalizing node with
  | zero => exact Simulation.Refines.tooDeep node
  | succ depth ih =>
    refine (Simulation.follows_of_agree sameCallDepth_admits (fun _ _ _ => rfl) rfl rfl ?_ ?_ node
      trivial).eval .strict
    · intro line name args m₁ m₂ function values _ _ _ _
      exact sameCallDepth_refines (callDepth_callFunction _ config function values)
    · intro line path once fatal target _
      exact Simulation.Refines.includeFile sameCallDepth_loads hexcused (fun inner _ => ih inner)
        target once fatal

/-- When a program is over, whether it ended with a value, a `return` or an error, as many calls are
    going on as before. -/
theorem callDepth_evalProgram (config : Config) (nodes : List Node) (machine : Machine) :
    (evalProgram config nodes machine).2.callDepth = machine.callDepth := by
  have hstatements : (sameCallDepth machine.callDepth).Refines (fun _ => True)
      ((Activity.statements nodes).run config maxNesting)
      ((Activity.statements nodes).run config maxNesting) :=
    (Simulation.Refines.runStatements fun inner _ => sameCallDepth_evalWithin maxNesting inner).andThen
      fun _ _ => Simulation.Refines.ofValue trivial
  rw [evalProgram_snd]
  exact (hstatements.ending_eq (fun _ h => h) ⟨rfl, rfl⟩).2.2

end

/-! ## The variables -/

/-- The run that starts at the moment gives a variable the value when no more calls are going on
    than at its start. -/
def Moment.GivesOutsideCalls (config : Config) (start : Moment) (name : String) (value : Value) :
    Prop :=
  ∃ moment machine, start.Leads config moment ∧ Binds config moment machine name value ∧
    machine.callDepth = start.machine.callDepth

/-- The machine has the scope in sight that was in sight at the start of a run: the variables that
    there were are still there, in the same order, and what is new in them or beside them was given
    by the run outside of its calls. -/
structure Moment.KeepsInSight (config : Config) (start : Moment) (machine : Machine) : Prop where
  generation : machine.scope.generation = start.machine.scope.generation
  names : Dict.keys start.machine.scope.bindings <+: Dict.keys machine.scope.bindings
  values (name : String) (value : Value) (h : machine.scope.get? name = some value) :
    start.machine.scope.get? name = some value ∨ start.GivesOutsideCalls config name value

namespace Moment.KeepsInSight

variable {config : Config} {start : Moment} {machine : Machine}

theorem refl (config : Config) (start : Moment) : start.KeepsInSight config start.machine :=
  ⟨rfl, List.prefix_refl _, fun _ _ h => Or.inl h⟩

theorem withVariable (h : start.KeepsInSight config machine) {name : String} {value : Value}
    (hgives : start.GivesOutsideCalls config name value) :
    start.KeepsInSight config (machine.withVariable name value) := by
  refine ⟨h.generation, h.names.trans ?_, fun other found hfound => ?_⟩
  · unfold Machine.withVariable
    rw [Dict.keys_insert]
    split
    · exact List.prefix_refl _
    · exact List.prefix_append _ _
  · rw [Machine.get?_withVariable] at hfound
    by_cases hother : other = name
    · subst hother
      rw [if_pos rfl] at hfound
      cases hfound
      exact Or.inr hgives
    · rw [if_neg hother] at hfound
      exact h.values other found hfound

end Moment.KeepsInSight

/-- What is in sight on a machine that the run has reached outside of its calls: the scope of its
    start or, if a configuration does not restore variables after a `return`, a scope of a later
    generation that has been left in its place. -/
structure Moment.Sees (config : Config) (start : Moment) (machine : Machine) : Prop where
  generation_le : start.machine.scope.generation ≤ machine.scope.generation
  restored (h : config.restoreScopeOnReturn = true) :
    machine.scope.generation = start.machine.scope.generation
  keeps (h : machine.scope.generation = start.machine.scope.generation) :
    start.KeepsInSight config machine

namespace Moment.Sees

variable {config : Config} {start : Moment} {machine : Machine}

theorem refl (config : Config) (start : Moment) : start.Sees config start.machine :=
  ⟨Nat.le_refl _, fun _ => rfl, fun _ => .refl config start⟩

theorem of_scope {other : Machine} (h : start.Sees config machine)
    (hscope : other.scope = machine.scope) : start.Sees config other := by
  refine ⟨?_, fun hrestore => ?_, fun hsame => ?_⟩
  · rw [hscope]
    exact h.generation_le
  · rw [hscope]
    exact h.restored hrestore
  · rw [hscope] at hsame
    have hkeeps := h.keeps hsame
    rw [← hscope] at hsame
    exact ⟨hsame, hscope ▸ hkeeps.names, hscope ▸ hkeeps.values⟩

theorem withVariable (h : start.Sees config machine) {name : String} {value : Value}
    (hgives : start.GivesOutsideCalls config name value) :
    start.Sees config (machine.withVariable name value) :=
  ⟨h.generation_le, h.restored, fun hsame => (h.keeps hsame).withVariable hgives⟩

/-- A scope that is left in place of the caller's is of a later generation than the scope of the
    start. -/
theorem leavingOpen {caller : Machine} (h : start.Sees config caller)
    (hopen : config.restoreScopeOnReturn = false) (machine : Machine) :
    start.Sees config (machine.leavingOpen caller) := by
  have hle := h.generation_le
  have hlater : (machine.leavingOpen caller).scope.generation = caller.scope.generation + 1 := rfl
  refine ⟨by omega, fun hrestore => ?_, fun hsame => by omega⟩
  rw [hrestore] at hopen
  cases hopen

end Moment.Sees

/-- What holds of the machines of a run: inside its calls more calls are going on than at its start,
    and outside of them the scope of its start is in sight, or one of a later generation. -/
def RunInvariant.inSight (config : Config) (start : Moment) : RunInvariant config where
  toValueClosure := ValueInvariant.always.toValueClosure
  reached := start.Leads config
  machine m := start.machine.callDepth ≤ m.callDepth ∧
    (m.callDepth = start.machine.callDepth → start.Sees config m)
  exit _ := True
  reached_starts h _ hstarts := h.tail hstarts
  int _ := trivial
  append _ _ _ _ := trivial
  write _ _ _ _ _ _ := trivial
  read _ _ := trivial
  report h _ := ⟨h.1, fun hlevel => (h.2 hlevel).of_scope rfl⟩
  output _ h := ⟨h.1, fun hlevel => (h.2 hlevel).of_scope rfl⟩
  bind hreached hbinds h _ _ :=
    ⟨h.1, fun hlevel => (h.2 hlevel).withVariable ⟨_, _, hreached, hbinds, hlevel⟩⟩
  define _ h := ⟨h.1, fun hlevel => (h.2 hlevel).of_scope rfl⟩
  enter {m} h := by
    refine ⟨Nat.le_succ_of_le h.1, fun hlevel => ?_⟩
    have hentered : m.callDepth + 1 = start.machine.callDepth := hlevel
    omega
  leave hcaller _ := ⟨hcaller.1, fun hlevel => (hcaller.2 hlevel).of_scope rfl⟩
  leaveOpen hopen hcaller _ := ⟨hcaller.1, fun hlevel => (hcaller.2 hlevel).leavingOpen hopen _⟩
  load _ h _ := ⟨h.1, fun hlevel => (h.2 hlevel).of_scope rfl⟩
  error _ _ := trivial
  limit _ := trivial
  source _ := trivial
  ret _ _ := trivial
  returned _ := trivial

theorem RunInvariant.inSight_sound (config : Config) (start : Moment)
    (hvalues : (inSight config start).StartsWell start.activity) :
    (inSight config start).Sound start :=
  ⟨.refl, ⟨Nat.le_refl _, fun _ => .refl config start⟩, hvalues⟩

/-- When a node has been evaluated, the scope of before is in sight, or one of a later generation
    has been left in its place. -/
theorem sees_evalWithin {config : Config} {depth : Nat} {node : Node} {machine after : Machine}
    {value : Value} (h : evalWithin config (depth + 1) node machine = .ok value after) :
    Moment.Sees config ⟨depth, .eval .strict node, machine⟩ after := by
  have hdepth := ((sameCallDepth_evalWithin (depth + 1) node).of_ok ⟨rfl, rfl⟩ h).1.2
  have hsound := RunInvariant.inSight_sound config ⟨depth, .eval .strict node, machine⟩ trivial
  exact (hsound.ends.eval.of_ok h).1.2 hdepth

/-- The default `g()` of `$x` leaves the scope of `g` in sight, so that `$x` is given its value
    where nothing sees it. -/
example :
    let config : Config := { restoreScopeOnReturn := false }
    let node (form : Form Node) : Node := ⟨none, form⟩
    let g : Function := ⟨"g", [], [node (.ret (some (node (.int 1))))]⟩
    let f : Function := ⟨"f", [⟨none, "x", some (node (.call "g" []))⟩], [node (.variable "x")]⟩
    let machine := ((Machine.start none).withFunction g).withFunction f
    (evalNode config (node (.call "f" []))).ending machine =
      .error (.fault (.error (.unboundVariable "x") none)) := by
  cbv

/-- Statements are about to run on a machine of their own. -/
def Moment.ofStatements (nodes : List Node) (machine : Machine) : Moment :=
  ⟨maxNesting, .statements nodes, machine⟩

/-- When a program is over, whether it ended with a value, a `return` or an error, the variables in
    sight are those that were in sight before, if a configuration restores them after a `return`. -/
theorem keepsInSight_evalProgram {config : Config} (hrestore : config.restoreScopeOnReturn = true)
    (nodes : List Node) (machine : Machine) :
    (Moment.ofStatements nodes machine).KeepsInSight config (evalProgram config nodes machine).2 := by
  have hmachine :=
    (RunInvariant.inSight_sound config (.ofStatements nodes machine) trivial).machine_after
  rw [Moment.ofStatements, ← evalProgram_snd] at hmachine
  have hsees := hmachine.2 (callDepth_evalProgram config nodes machine)
  exact hsees.keeps (hsees.restored hrestore)

end WebScript
