import WebScript.Proofs.Inclusion

/-!
# The variable that is never bound

No variable can have the name `this`. Every construct that gives a variable a value does so through
the scope, which refuses the name, so no state of a run binds it. Assignments ask for the name of
their target before they evaluate anything, so one whose target leads to `$this` changes nothing.
-/

namespace WebScript

/-! ## No machine binds it -/

/-- The reserved name is not bound. -/
def Machine.ThisUnbound (machine : Machine) : Prop := machine.scope.get? reservedName = none

theorem Machine.ThisUnbound.withVariable {machine : Machine} (h : machine.ThisUnbound)
    {name : String} (hname : name ≠ reservedName) (value : Value) :
    (machine.withVariable name value).ThisUnbound := by
  unfold ThisUnbound
  rw [Machine.get?_withVariable, if_neg hname.symm]
  exact h

/-- In no run is the reserved name bound. -/
def RunInvariant.thisUnbound (config : Config) : RunInvariant config where
  toValueClosure := ValueInvariant.always.toValueClosure
  reached _ := True
  machine := Machine.ThisUnbound
  exit _ := True
  reached_starts _ _ _ := trivial
  int _ := trivial
  append _ _ _ _ := trivial
  write _ _ _ _ _ _ := trivial
  read _ _ := trivial
  report h _ := h
  output _ h := h
  bind _ _ h hname _ := h.withVariable hname _
  define _ h := h
  enter _ := rfl
  leave hcaller _ := hcaller
  leaveOpen _ _ h := h
  load _ h _ := h
  error _ _ := trivial
  limit _ := trivial
  source _ := trivial
  ret _ _ := trivial
  returned _ := trivial

section

variable {config : Config} {start moment : Moment}

/-- A run that starts where the reserved name is not bound never binds it, whether its activities
    end with a value or an error. -/
theorem thisUnbound_of_leads (hstart : start.machine.ThisUnbound)
    (hleads : start.Leads config moment) :
    moment.machine.ThisUnbound ∧
      ((moment.activity.run config moment.depth).after moment.machine).ThisUnbound := by
  have hsound : (RunInvariant.thisUnbound config).Sound start :=
    ⟨trivial, hstart, RunInvariant.startsWell_of_always (fun _ => trivial) (fun _ => trivial) _⟩
  have hmoment := hsound.leads hleads
  exact ⟨hmoment.machine, hmoment.machine_after⟩

theorem Moment.thisUnbound_ofProgram (config : Config) (library : Library) (nodes : List Node) :
    (Moment.ofProgram config library nodes).machine.ThisUnbound := by
  obtain ⟨listing, hlisting⟩ := (Machine.start (some library)).writeListing_eq config nodes
  simp only [Moment.ofProgram, hlisting]
  rfl

theorem thisUnbound_of_runSource (config : Config) (library : Library) (source : String)
    (path : Option String) : (runSource config library source path).2.ThisUnbound := by
  cases hparse : parse source with
  | error error =>
    rw [runSource, hparse]
    rfl
  | ok nodes =>
    rw [runSource_of_parse hparse]
    cases hmarked : library.forRun path with
    | error limit => rfl
    | ok marked =>
      have hstart := Moment.thisUnbound_ofProgram config marked nodes
      simp only [evalProgram_snd]
      exact (thisUnbound_of_leads hstart .refl).2

end

/-! ## Reading it -/

section

variable {config : Config} {machine : Machine} (depth : Nat)

theorem evalAt_this (h : machine.ThisUnbound) (line : Option Int) :
    Node.evalAt config depth .strict ⟨line, .variable reservedName⟩ machine =
      .error (.fault (.error (.unboundVariable reservedName) line)) machine := by
  have hread : Eval.readVariable reservedName machine =
      .error (.fault (.error (.unboundVariable reservedName) none)) machine := by
    show Eval.ofCause (machine.scope.get reservedName) machine = _
    unfold Scope.get
    rw [show machine.scope.get? reservedName = none from h]
    rfl
  rw [Node.evalAt, Node.evalAs]
  unfold Eval.located
  rw [hread]
  rfl

/-- The default of `$this ?? …` is all that is evaluated, and its value is that of the whole. -/
theorem evalAt_this_coalesce (h : machine.ThisUnbound) (reading : Reading) (line inner : Option Int)
    (fallback : Node) :
    Node.evalAt config depth reading
        ⟨line, .binary .coalesce ⟨inner, .variable reservedName⟩ fallback⟩ machine =
      Eval.located line (fallback.evalAt config depth .strict) machine := by
  have hleft : Node.evalAs config (evalWithin config depth) .lenient
      ⟨inner, .variable reservedName⟩ machine = .ok .null machine := by
    rw [Node.evalAs]
    show EStateM.Result.ok ((machine.scope.get? reservedName).getD .null) machine = _
    rw [show machine.scope.get? reservedName = none from h]
    rfl
  have hcoalesce : ∀ value,
      Eval.ofNoted (BinaryOperator.coalesce.apply .null value) = pure value := by
    intro value
    rfl
  rw [Node.evalAt, Node.evalAs]
  unfold Eval.located
  rw [Eval.bind_of_ok _ hleft]
  simp only [Value.isNull, Bool.not_true, Bool.and_false, Bool.false_eq_true, if_false, hcoalesce,
    bind_pure]

/-! ## Assigning to it -/

theorem targetRoot_of_root? {target : Node} (h : target.root? = some reservedName) :
    target.targetRoot = .error (.reservedName reservedName) := by
  obtain ⟨line, form⟩ := target
  cases form with
  | «variable» name =>
    rw [Node.root?] at h
    cases h
    rfl
  | index base dim =>
    simp only [Node.targetRoot, h]
    rfl
  | _ => cases h

/-- An assignment asks for the variable of its target first. -/
theorem evalAt_assign_this {target : Node} (h : target.root? = some reservedName) (expr : Node)
    (reading : Reading) (line : Option Int) :
    Node.evalAt config depth reading ⟨line, .assign target expr⟩ machine =
      .error (.fault (.error (.reservedName reservedName) line)) machine := by
  rw [Node.evalAt, Node.evalAs, targetRoot_of_root? h]
  rfl

theorem evalAt_compoundAssign_this {target : Node} (h : target.root? = some reservedName)
    (op : BinaryOperator) (expr : Node) (reading : Reading) (line : Option Int) :
    Node.evalAt config depth reading ⟨line, .compoundAssign op target expr⟩ machine =
      .error (.fault (.error (.reservedName reservedName) line)) machine := by
  rw [Node.evalAt, Node.evalAs, targetRoot_of_root? h]
  rfl

end

/-! ## Runs -/

/-- No variable is ever called `this`. In every run of a program, whatever the configuration and the
    files, the name is bound neither when an activity begins nor when it ends, in whichever way; nor
    is it bound when the run of a source is over. So reading `$this` fails, and `$this ?? …` gives
    what its default gives. On any machine at all, an assignment or an update whose target is
    `$this` or leads to an element of it fails and leaves the machine as it is, whatever its keys
    and its right side would do. -/
theorem this_never_bound (config : Config) (library : Library) (nodes : List Node) :
    (∀ moment, (Moment.ofProgram config library nodes).Leads config moment →
      moment.machine.scope.get? reservedName = none ∧
        ((moment.activity.run config moment.depth).after moment.machine).scope.get? reservedName =
          none) ∧
    (∀ source path, (runSource config library source path).2.scope.get? reservedName = none) ∧
    (∀ depth line machine, (Moment.ofProgram config library nodes).Leads config
        ⟨depth, .eval .strict ⟨line, .variable reservedName⟩, machine⟩ →
      Node.evalAt config depth .strict ⟨line, .variable reservedName⟩ machine =
        .error (.fault (.error (.unboundVariable reservedName) line)) machine) ∧
    (∀ depth reading line inner fallback machine, (Moment.ofProgram config library nodes).Leads config
        ⟨depth, .eval reading ⟨line, .binary .coalesce ⟨inner, .variable reservedName⟩ fallback⟩,
          machine⟩ →
      Node.evalAt config depth reading
          ⟨line, .binary .coalesce ⟨inner, .variable reservedName⟩ fallback⟩ machine =
        Eval.located line (fallback.evalAt config depth .strict) machine) ∧
    ∀ depth reading line target op expr machine, target.root? = some reservedName →
      Node.evalAt config depth reading ⟨line, .assign target expr⟩ machine =
          .error (.fault (.error (.reservedName reservedName) line)) machine ∧
        Node.evalAt config depth reading ⟨line, .compoundAssign op target expr⟩ machine =
          .error (.fault (.error (.reservedName reservedName) line)) machine := by
  have hstart := Moment.thisUnbound_ofProgram config library nodes
  refine ⟨fun moment hleads => thisUnbound_of_leads hstart hleads,
    thisUnbound_of_runSource config library, ?_, ?_, ?_⟩
  · intro depth line machine hleads
    exact evalAt_this depth (thisUnbound_of_leads hstart hleads).1 line
  · intro depth reading line inner fallback machine hleads
    have hunbound := (thisUnbound_of_leads hstart hleads).1
    exact evalAt_this_coalesce depth hunbound reading line inner fallback
  · intro depth reading line target op expr machine hroot
    exact ⟨evalAt_assign_this depth hroot expr reading line,
      evalAt_compoundAssign_this depth hroot op expr reading line⟩

/-- A program that gives `$this ?? 2` and then reads `$this`; `$this[f()] = 1` does not call the
    function. -/
theorem this_never_bound_default :
    let this : Node := ⟨some 1, .variable "this"⟩
    let coalesced : Node := ⟨some 1, .binary .coalesce this ⟨some 1, .int 2⟩⟩
    let assigned : Node := ⟨some 2, .assign ⟨some 2, .index this (some ⟨some 2, .call "f" []⟩)⟩
      ⟨some 2, .int 1⟩⟩
    let start := Moment.ofProgram {} (.ofFiles [] []) [coalesced, this]
    start.Leads {} ⟨3332, .eval .strict coalesced, start.machine⟩ ∧
      coalesced.evalAt {} 3332 .strict start.machine = .ok (.int 2) start.machine ∧
      start.Leads {} ⟨3332, .eval .strict this, start.machine⟩ ∧
      this.evalAt {} 3332 .strict start.machine =
        .error (.fault (.error (.unboundVariable "this") (some 1))) start.machine ∧
      assigned.evalAt {} 3332 .strict start.machine =
        .error (.fault (.error (.reservedName "this") (some 2))) start.machine := by
  intro this coalesced assigned start
  obtain ⟨-, -, hread, hcoalesce, hassign⟩ :=
    this_never_bound {} (.ofFiles [] []) [coalesced, this]
  have hfirst : start.Leads {} ⟨3332, .eval .strict coalesced, start.machine⟩ :=
    .single .statementsHead
  have hvalue : coalesced.evalAt {} 3332 .strict start.machine = .ok (.int 2) start.machine :=
    (hcoalesce _ _ _ _ _ _ hfirst).trans rfl
  have hsecond : start.Leads {} ⟨3332, .eval .strict this, start.machine⟩ :=
    (Relation.ReflTransGen.single (.statementsTail hvalue)).tail .statementsHead
  exact ⟨hfirst, hvalue, hsecond, hread _ _ _ hsecond, (hassign _ _ _ _ .plus _ _ rfl).1⟩

end WebScript
