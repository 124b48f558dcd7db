import WebScript.Proofs.Frame
import WebScript.Proofs.Rendering
import WebScript.Proofs.ShortCircuit

/-!
# Updates and their expansions

An update `T op= e` and the assignment `T = T op e` go different ways to the element that `T` names:
the update looks along its keys, the assignment evaluates `T` as an expression. Where the two ways
find different things, there is a value on the way that has no elements, and writing the element
fails. So the two always end alike.
-/

namespace WebScript

/-! ## What successful actions give -/

/-- A run beside one that has reported other things. -/
abbrev logSimulation : Simulation := ValueInvariant.always.along fun _ => True

theorem logSimulation_rel {first second : Machine} (h : first.SameButLog second) :
    logSimulation.rel first second :=
  ⟨h, fun _ _ => trivial, ⟨fun _ _ _ _ _ => trivial, fun _ _ _ _ _ _ _ _ _ => trivial⟩⟩

/-- No evaluation depends on what has been reported. -/
theorem logSimulation_follows (config : Config) (depth : Nat) (node : Node) :
    logSimulation.Follows config (evalWithin config depth) config (evalWithin config depth) node :=
  have hadmits : logSimulation.Admits fun _ => True :=
    ValueInvariant.alongside_admits (fun _ _ => trivial) fun _ => trivial
  have hnests : logSimulation.Nests fun _ => True := ValueInvariant.alongside_nests
  have hexcused : ∀ v, ¬ logSimulation.excused (.returned v) := fun _ h => h
  Simulation.follows_within hadmits hnests hexcused config depth node trivial

/-- The machine as if it had reported nothing. -/
def Machine.withoutLog (machine : Machine) : Machine := { machine with log := [] }

theorem Machine.SameButLog.withoutLog_eq {first second : Machine} (h : first.SameButLog second) :
    first.withoutLog = second.withoutLog := by
  unfold Machine.withoutLog
  rw [h.scope, h.functions, h.library, h.output, h.callDepth]

theorem Machine.sameButLog_of_withoutLog {first second : Machine}
    (h : first.withoutLog = second.withoutLog) : first.SameButLog second := by
  obtain ⟨hscope, hfunctions, hlibrary, houtput, -, hdepth⟩ := Machine.mk.inj h
  exact ⟨hscope, hfunctions, hlibrary, houtput, hdepth⟩

theorem Machine.sameButLog_withEvents (machine : Machine) (events : List Event) :
    (machine.withEvents events).SameButLog machine :=
  ⟨rfl, rfl, rfl, rfl, rfl⟩

namespace Eval

variable {α β : Type}

/-- The value that an action ends with, if it does. -/
def value? (action : Eval α) (machine : Machine) : Option α :=
  match action machine with
  | .ok value _ => some value
  | .error _ _ => none

/-- The value that an action ends with and the machine that it leaves, but for the log. -/
def gives (action : Eval α) (machine : Machine) : Option (α × Machine) :=
  match action machine with
  | .ok value after => some (value, after.withoutLog)
  | .error _ _ => none

theorem value?_eq_map_gives (action : Eval α) (machine : Machine) :
    action.value? machine = (action.gives machine).map Prod.fst := by
  unfold value? gives
  cases action machine <;> rfl

theorem value?_congr {first second : Eval α} {machine : Machine}
    (h : first machine = second machine) : first.value? machine = second.value? machine := by
  unfold value?
  rw [h]

theorem gives_eq_some {action : Eval α} {machine after : Machine} {value : α} :
    action.gives machine = some (value, after) ↔
      action.ending machine = .ok value ∧ (action.after machine).withoutLog = after := by
  unfold gives ending Eval.after
  cases action machine <;> simp

theorem gives_located (line : Option Int) (action : Eval α) (machine : Machine) :
    (located line action).gives machine = action.gives machine := by
  unfold gives located
  cases action machine <;> rfl

theorem value?_located (line : Option Int) (action : Eval α) (machine : Machine) :
    (located line action).value? machine = action.value? machine := by
  rw [value?_eq_map_gives, gives_located, ← value?_eq_map_gives]

theorem value?_ofCause (result : Except Cause α) (machine : Machine) :
    (ofCause result).value? machine = result.toOption := by
  cases result <;> rfl

theorem value?_ofRefusal (result : Except Refusal α) (machine : Machine) :
    (ofRefusal result).value? machine = result.toOption := by
  cases result with
  | ok value => rfl
  | error refusal => cases refusal <;> rfl

/-- An action gives the same wherever only the log differs. -/
def IgnoresLog (action : Eval α) : Prop :=
  ∀ first second : Machine, first.SameButLog second → action.gives first = action.gives second

theorem IgnoresLog.of_refines {action : Eval α} {P : α → Prop}
    (h : logSimulation.Refines P action action) : IgnoresLog action := by
  intro first second hsame
  have hends := h first second (logSimulation_rel hsame)
  unfold gives
  generalize action first = ends₁ at hends
  generalize action second = ends₂ at hends
  cases hends with
  | ok hafter _ => exact congrArg (fun machine => some (_, machine)) hafter.1.withoutLog_eq
  | error _ _ => rfl
  | excused hexit => exact hexit.elim

/-- What is done after a quiet action gives what it gives without it. -/
theorem gives_bind {first : Eval α} {next : α → Eval β} (hfirst : Quiet first)
    (hnext : ∀ value, IgnoresLog (next value)) (machine : Machine) :
    (first >>= next).gives machine =
      (first.value? machine).bind fun value => (next value).gives machine := by
  rcases hfirst machine with ⟨value, events, hrun⟩ | ⟨fault, events, hrun⟩
  · have hvalue : first.value? machine = some value := by simp only [value?, hrun]
    have hbind : (first >>= next).gives machine = (next value).gives (machine.withEvents events) := by
      simp only [gives, bind_of_ok next hrun]
    rw [hvalue, hbind]
    exact hnext value _ _ (machine.sameButLog_withEvents events)
  · have hvalue : first.value? machine = none := by simp only [value?, hrun]
    rw [hvalue]
    simp only [gives, bind_of_error next hrun, Option.bind_none]

theorem value?_bind {first : Eval α} {next : α → Eval β} (hfirst : Quiet first)
    (hnext : ∀ value, IgnoresLog (next value)) (machine : Machine) :
    (first >>= next).value? machine =
      (first.value? machine).bind fun value => (next value).value? machine := by
  simp only [value?_eq_map_gives (first >>= next), gives_bind hfirst hnext]
  cases first.value? machine with
  | none => rfl
  | some value => exact (value?_eq_map_gives _ _).symm

end Eval

/-! ## Elements of a variable -/

/-- A variable `$name` or an element `$name[k₁]...[kₙ]` of it, with effect-free keys. -/
inductive Node.ElementOf (name : String) : Node → Prop
  | root (line : Option Int) : ElementOf name ⟨line, .variable name⟩
  | element (line : Option Int) {base dim : Node} (hbase : base.ElementOf name)
    (hdim : dim.EffectFree) : ElementOf name ⟨line, .index base (some dim)⟩

namespace Node.ElementOf

variable {name : String} {target : Node}

theorem effectFree (h : target.ElementOf name) : target.EffectFree := by
  induction h with
  | root line =>
    intro part hpart
    rcases Node.within_mk.mp hpart with rfl | ⟨inner, hinner, -⟩
    · rfl
    · cases hinner
  | element line hbase hdim ih =>
    intro part hpart
    rcases Node.within_mk.mp hpart with rfl | ⟨inner, hinner, hwithin⟩
    · rfl
    · simp only [Form.parts, Form.children, Option.toList_some, List.mem_cons, List.not_mem_nil,
        or_false] at hinner
      rcases hinner with rfl | rfl
      · exact ih part hwithin
      · exact hdim part hwithin

theorem root?_eq (h : target.ElementOf name) : target.root? = some name := by
  induction h with
  | root line => rfl
  | element line hbase hdim ih =>
    rw [Node.root?]
    exact ih

theorem hasAppend_eq (h : target.ElementOf name) : target.hasAppend = false := by
  induction h with
  | root line => rfl
  | element line hbase hdim ih =>
    rw [Node.hasAppend]
    exact ih

theorem targetRoot_eq (h : target.ElementOf name) :
    target.targetRoot =
      if name = reservedName then .error (.reservedName name) else .ok name := by
  have hroot := h.root?_eq
  cases h with
  | root line => rfl
  | element line hbase hdim =>
    simp only [Node.targetRoot, hroot]
    rfl

end Node.ElementOf

/-! ## Reading one element -/

/-- Whether what is missing reads as null. -/
def Reading.absentOk : Reading → Bool
  | .strict => false
  | .lenient => true

/-- The element of a value that an expression reads. -/
def Value.elementAs (reading : Reading) (base dim : Value) : Except Refusal Value :=
  match reading with
  | .strict => base.element dim
  | .lenient => base.elementOrNull dim

/-- Whether elements of a value can be written. -/
def Value.holdsElements : Value → Bool
  | .null | .array _ => true
  | _ => false

/-- The element that an update reads along keys; a variable without a value is `none`. -/
def readFrom (absentOk : Bool) (container : Option Value) (keys : List Key) : Option Value :=
  match container with
  | some value => (readPath absentOk value keys).toOption
  | none => if absentOk then some .null else none

theorem readElement_value? (absentOk : Bool) (name : String) (keys : List Key) (machine : Machine) :
    (Eval.readElement absentOk name keys).value? machine =
      readFrom absentOk (machine.scope.get? name) keys := by
  rw [Eval.value?_congr (readElement_eq absentOk name keys machine), Eval.value?_ofCause]
  unfold readFrom
  cases machine.scope.get? name with
  | none => cases absentOk <;> rfl
  | some value => rfl

/-- Going on from the element that was read is going along all keys at once. -/
theorem readPath_append (absentOk : Bool) (container : Value) (keys more : List Key) :
    readPath absentOk container (keys ++ more) =
      readPath absentOk container keys >>= fun inner => readPath absentOk inner more := by
  have hnull : readPath true .null more = .ok .null := by cases more <;> rfl
  induction keys generalizing container with
  | nil => rfl
  | cons key rest ih =>
    cases container with
    | array table =>
      simp only [List.cons_append, readPath]
      cases table.get? key with
      | some inner => exact ih inner
      | none =>
        cases absentOk with
        | true => exact hnull.symm
        | false => rfl
    | null =>
      cases absentOk with
      | true => exact hnull.symm
      | false => rfl
    | _ => rfl

/-- One key more reads one element further. -/
theorem readFrom_append (absentOk : Bool) (container : Option Value) (keys : List Key) (key : Key) :
    readFrom absentOk container (keys ++ [key]) =
      (readFrom absentOk container keys).bind fun inner =>
        (readPath absentOk inner [key]).toOption := by
  cases container with
  | none => cases absentOk <;> rfl
  | some value =>
    simp only [readFrom, readPath_append]
    cases readPath absentOk value keys <;> rfl

/-- What is there is found whether or not it may be missing. -/
theorem readPath_lenient {container found : Value} {keys : List Key}
    (h : readPath false container keys = .ok found) : readPath true container keys = .ok found := by
  induction keys generalizing container with
  | nil => exact h
  | cons key rest ih =>
    cases container with
    | array table =>
      simp only [readPath] at h ⊢
      cases hget : table.get? key with
      | some inner =>
        rw [hget] at h
        exact ih h
      | none =>
        rw [hget] at h
        cases h
    | _ => cases h

/-- What can be read strictly is read leniently. -/
theorem readFrom_lenient {absentOk : Bool} {container : Option Value} {keys : List Key}
    {found : Value} (h : readFrom absentOk container keys = some found) :
    readFrom true container keys = some found := by
  cases absentOk with
  | true => exact h
  | false =>
    cases container with
    | none => cases h
    | some value =>
      cases hread : readPath false value keys with
      | error cause =>
        simp only [readFrom, hread] at h
        cases h
      | ok inner =>
        simp only [readFrom, hread] at h
        simp only [readFrom, readPath_lenient hread]
        exact h

/-- An expression and an update read the same element of a value that can hold elements. -/
theorem elementAs_of_holdsElements {base dim : Value} {key : Key} (reading : Reading)
    (hbase : base.holdsElements = true) (hkey : dim.toKey = .ok key) :
    (base.elementAs reading dim).toOption = (readPath reading.absentOk base [key]).toOption := by
  cases base with
  | null => cases reading <;> rfl
  | array table =>
    cases reading with
    | strict =>
      simp only [Value.elementAs, Value.element, hkey, readPath, Reading.absentOk]
      show (match table.get? key with
        | some value => pure value
        | none => Except.error (Refusal.cause (.indexNotFound key))).toOption = _
      cases table.get? key <;> rfl
    | lenient =>
      simp only [Value.elementAs, Value.elementOrNull, hkey, readPath, Reading.absentOk]
      show some ((table.get? key).getD .null) = _
      cases table.get? key <;> rfl
  | _ => cases hbase

/-- An update reads no element of a value that cannot hold elements. -/
theorem readPath_of_not_holdsElements {base : Value} (absentOk : Bool) (key : Key)
    (hbase : base.holdsElements = false) : (readPath absentOk base [key]).toOption = none := by
  cases base with
  | null => cases hbase
  | array table => cases hbase
  | _ => rfl

/-! ## Elements that cannot be written -/

/-- Nothing can be written at, or below, the element along the keys. -/
def Blocked (container : Option Value) (keys : List Key) : Prop :=
  ∀ (value : Value) (more : List (Option Key)),
    ∃ cause, writePath container value (keys.map some ++ more) = .error cause

/-- No element of an element that cannot be written can be written. -/
theorem Blocked.append {container : Option Value} {keys : List Key} (h : Blocked container keys)
    (key : Key) : Blocked container (keys ++ [key]) := by
  intro value more
  obtain ⟨cause, hcause⟩ := h value (some key :: more)
  refine ⟨cause, ?_⟩
  rw [List.map_append, List.append_assoc]
  exact hcause

theorem tableToWrite_of_not_holdsElements {base : Value} (h : base.holdsElements = false) :
    ∃ cause, tableToWrite (some base) = .error cause := by
  cases base with
  | null => cases h
  | array table => cases h
  | _ => exact ⟨_, rfl⟩

/-- A value without elements on the way keeps everything below it from being written. -/
theorem blocked_of_readFrom {container : Option Value} {keys : List Key} {inner : Value}
    (hread : readFrom true container keys = some inner) (hinner : inner.holdsElements = false)
    (key : Key) : Blocked container (keys ++ [key]) := by
  intro value more
  induction keys generalizing container with
  | nil =>
    cases container with
    | none =>
      cases hread
      cases hinner
    | some found =>
      cases hread
      obtain ⟨cause, hcause⟩ := tableToWrite_of_not_holdsElements hinner
      refine ⟨cause, ?_⟩
      show (tableToWrite (some inner) >>= _) = _
      rw [hcause]
      rfl
  | cons first rest ih =>
    cases container with
    | none =>
      cases hread
      cases hinner
    | some found =>
      cases found with
      | array table =>
        cases hget : table.get? first with
        | none =>
          simp only [readFrom, readPath, hget] at hread
          cases hread
          cases hinner
        | some child =>
          simp only [readFrom, readPath, hget] at hread
          obtain ⟨cause, hcause⟩ := @ih (some child) hread
          refine ⟨cause, ?_⟩
          simp only [List.cons_append, List.map_cons, writePath_array_some, hget, hcause]
          rfl
      | null =>
        cases hread
        cases hinner
      | _ => cases hread

/-- Nothing is written into an element that cannot be written. -/
theorem Blocked.gives_write {machine : Machine} {name : String} {keys : List Key}
    (h : Blocked (machine.scope.get? name) keys) (value : Value) :
    (do Eval.writeElement name (keys.map some) value; pure value).gives machine = none := by
  obtain ⟨cause, hcause⟩ := h value []
  rw [List.append_nil] at hcause
  have hwrite : Eval.writeElement name (keys.map some) value machine =
      .error (.fault (.error cause none)) machine := by
    show (Eval.ofCause (writePath (machine.scope.get? name) value (keys.map some)) >>=
      Eval.setVariable name) machine = _
    rw [hcause]
    rfl
  simp only [Eval.gives, Eval.bind_of_error _ hwrite]

/-! ## Reading a target -/

section Target

open Eval

variable {config : Config} {depth : Nat} {name : String} {target : Node}

/-- How evaluating a target and looking along its keys compare: they find the same element, or the
    second finds none, and then the first does not either or the element cannot be written. -/
def ReadsAlike (container : Option Value) (keys : List Key) (looked evaluated : Option Value) :
    Prop :=
  looked = evaluated ∨ looked = none ∧ Blocked container keys

theorem Quiet.evalKeys (h : target.ElementOf name) :
    Quiet (target.evalKeys config (evalWithin config depth)) := by
  induction h with
  | root line =>
    rw [Node.evalKeys]
    · exact Quiet.ofValue []
    all_goals nofun
  | element line hbase hdim ih =>
    rw [Node.evalKeys]
    exact ih.andThen fun _ => (hdim.quiet .strict).andThen fun _ =>
      (Quiet.ofRefusal _).andThen fun _ => Quiet.ofValue _

theorem ignoresLog_ofRefusal {α : Type} (result : Except Refusal α) :
    IgnoresLog (Eval.ofRefusal result) :=
  IgnoresLog.of_refines (Simulation.Refines.ofRefusal (P := fun _ => True) fun _ _ => trivial)

/-- The value of an element that is read is that of its base and its index. -/
theorem value?_element (line : Option Int) {base dim : Node} (hbase : base.ElementOf name)
    (hdim : dim.EffectFree) (reading : Reading) (machine : Machine) :
    (Node.evalAt config depth reading ⟨line, .index base (some dim)⟩).value? machine =
      ((base.evalAt config depth reading).value? machine).bind fun baseValue =>
        ((dim.evalAt config depth .strict).value? machine).bind fun dimValue =>
          (baseValue.elementAs reading dimValue).toOption := by
  have hnext : ∀ baseValue : Value, IgnoresLog (do
      Eval.ofRefusal (baseValue.elementAs reading (← dim.evalAt config depth .strict))) := by
    intro baseValue
    refine IgnoresLog.of_refines (P := fun _ => True) ?_
    refine ((logSimulation_follows config depth dim).eval .strict).andThen fun _ _ => ?_
    exact Simulation.Refines.ofRefusal fun _ _ => trivial
  have hread : (base.evalAt config depth reading >>= fun baseValue => do
      Eval.ofRefusal (baseValue.elementAs reading (← dim.evalAt config depth .strict))).value?
        machine = _ := value?_bind (hbase.effectFree.quiet reading) hnext machine
  have hdims : ∀ baseValue : Value, (do
      Eval.ofRefusal (baseValue.elementAs reading (← dim.evalAt config depth .strict))).value?
        machine = _ := fun baseValue => value?_bind (hdim.quiet .strict)
          (fun dimValue => ignoresLog_ofRefusal (baseValue.elementAs reading dimValue)) machine
  simp only [hdims, value?_ofRefusal] at hread
  cases reading with
  | strict =>
    rw [Node.evalAt, Node.evalAs, value?_located]
    exact hread
  | lenient =>
    rw [Node.evalAt, Node.evalAs]
    exact hread

/-- The keys of an element are those of its base and one more. -/
theorem value?_keys_element (line : Option Int) {base dim : Node} (hbase : base.ElementOf name)
    (hdim : dim.EffectFree) (machine : Machine) :
    (Node.evalKeys config (evalWithin config depth) ⟨line, .index base (some dim)⟩).value? machine =
      ((base.evalKeys config (evalWithin config depth)).value? machine).bind fun keys =>
        ((dim.evalAt config depth .strict).value? machine).bind fun dimValue =>
          dimValue.toKey.toOption.map fun key => keys ++ [some key] := by
  have hlast : ∀ (keys : List (Option Key)) (dimValue : Value), (do
      pure (keys ++ [some (← Eval.ofRefusal dimValue.toKey)]) : Eval _).value? machine =
        dimValue.toKey.toOption.map fun key => keys ++ [some key] := by
    intro keys dimValue
    cases dimValue.toKey with
    | ok key => rfl
    | error refusal => cases refusal <;> rfl
  have hrefines : ∀ (keys : List (Option Key)) (dimValue : Value),
      logSimulation.Refines (fun _ => True)
        (do pure (keys ++ [some (← Eval.ofRefusal dimValue.toKey)]))
        (do pure (keys ++ [some (← Eval.ofRefusal dimValue.toKey)])) := by
    intro keys dimValue
    refine (Simulation.Refines.ofRefusal (P := fun _ => True) fun _ _ => trivial).andThen
      fun _ _ => ?_
    exact Simulation.Refines.ofValue trivial
  rw [Node.evalKeys, value?_bind (Quiet.evalKeys hbase)]
  · refine congrArg (Option.bind _) (funext fun keys => ?_)
    rw [value?_bind (hdim.quiet .strict)]
    · simp only [hlast]
    · exact fun dimValue => IgnoresLog.of_refines (hrefines keys dimValue)
  · intro keys
    refine IgnoresLog.of_refines (P := fun _ => True) ?_
    exact ((logSimulation_follows config depth dim).eval .strict).andThen fun dimValue _ =>
      hrefines keys dimValue

/-- Once its keys have been evaluated, a target read as an expression and along its keys compare. -/
theorem Node.ElementOf.readsAlike (h : target.ElementOf name) (reading : Reading)
    {machine : Machine} {path : List (Option Key)}
    (hpath : (target.evalKeys config (evalWithin config depth)).value? machine = some path) :
    ∃ keys : List Key, path = keys.map some ∧
      ReadsAlike (machine.scope.get? name) keys
        (readFrom reading.absentOk (machine.scope.get? name) keys)
        ((target.evalAt config depth reading).value? machine) := by
  induction h generalizing path with
  | root line =>
    rw [Node.evalKeys] at hpath
    · cases hpath
      refine ⟨[], rfl, Or.inl ?_⟩
      cases reading with
      | strict =>
        rw [Node.evalAt, Node.evalAs, value?_located]
        show _ = (Eval.ofCause (machine.scope.get name)).value? machine
        rw [value?_ofCause, Scope.get]
        cases machine.scope.get? name <;> rfl
      | lenient =>
        rw [Node.evalAt, Node.evalAs]
        show _ = some ((machine.scope.get? name).getD .null)
        cases machine.scope.get? name <;> rfl
    all_goals simp
  | @element line base dim hbase hdim ih =>
    rw [value?_keys_element line hbase hdim, Option.bind_eq_some_iff] at hpath
    obtain ⟨outer, houter, hpath⟩ := hpath
    obtain ⟨keys, rfl, halike⟩ := ih houter
    rw [Option.bind_eq_some_iff] at hpath
    obtain ⟨dimValue, hdimValue, hpath⟩ := hpath
    rw [Option.map_eq_some_iff] at hpath
    obtain ⟨key, hkey, rfl⟩ := hpath
    have hkey : dimValue.toKey = .ok key := by
      cases htoKey : dimValue.toKey with
      | ok found =>
        rw [htoKey] at hkey
        cases hkey
        rfl
      | error refusal =>
        rw [htoKey] at hkey
        cases hkey
    refine ⟨keys ++ [key], by simp, ?_⟩
    rw [value?_element line hbase hdim, readFrom_append]
    rcases halike with halike | ⟨hnone, hblocked⟩
    · rw [← halike]
      cases hread : readFrom reading.absentOk (machine.scope.get? name) keys with
      | none => exact Or.inl rfl
      | some inner =>
        simp only [Option.bind_some, hdimValue]
        cases hholds : inner.holdsElements with
        | true => exact Or.inl (elementAs_of_holdsElements reading hholds hkey).symm
        | false =>
          refine Or.inr ⟨readPath_of_not_holdsElements _ key hholds, ?_⟩
          exact blocked_of_readFrom (readFrom_lenient hread) hholds key
    · rw [hnone]
      exact Or.inr ⟨rfl, hblocked.append key⟩

/-! ## Both ways in steps -/

/-- Writes an element and gives what was written. -/
def Eval.store (name : String) (path : List (Option Key)) (value : Value) : Eval Value := do
  Eval.writeElement name path value
  pure value

theorem refines_store (name : String) (path : List (Option Key)) (value : Value) :
    logSimulation.Refines (fun _ => True) (Eval.store name path value)
      (Eval.store name path value) :=
  (Simulation.Refines.writeElement trivial (fun _ _ => trivial) trivial).andThen
    fun _ _ => Simulation.Refines.ofValue trivial

theorem ignoresLog_store (name : String) (path : List (Option Key)) (value : Value) :
    IgnoresLog (Eval.store name path value) :=
  IgnoresLog.of_refines (refines_store name path value)

/-- Combining two values and writing the result. -/
theorem gives_combine (op : BinaryOperator) (name : String) (path : List (Option Key))
    (current right : Value) (machine : Machine) :
    (do Eval.store name path (← Eval.ofNoted (op.apply current right))).gives machine =
      (op.apply current right).result.toOption.bind fun value =>
        (Eval.store name path value).gives machine := by
  rw [gives_bind (Quiet.ofNoted _) (fun value => ignoresLog_store name path value)]
  congr 1
  exact value?_ofRefusal _ _

theorem refines_combine (op : BinaryOperator) (name : String) (path : List (Option Key))
    (current right : Value) :
    logSimulation.Refines (fun _ => True)
      (do Eval.store name path (← Eval.ofNoted (op.apply current right)))
      (do Eval.store name path (← Eval.ofNoted (op.apply current right))) :=
  (Simulation.Refines.ofNoted (P := fun _ => True) fun _ _ => trivial).andThen
    fun value _ => refines_store name path value

theorem quiet_readElement (absentOk : Bool) (name : String) (keys : List Key) :
    Quiet (Eval.readElement absentOk name keys) := by
  intro machine
  rw [readElement_eq]
  exact Quiet.ofCause _ machine

variable {expr : Node} {op : BinaryOperator}

/-- What an update does to the element at a path, unless the operator is `??`. -/
def Node.combineInto (config : Config) (depth : Nat) (op : BinaryOperator) (expr : Node)
    (name : String) (path : List (Option Key)) : Eval Value := do
  let right ← expr.evalAt config depth .strict
  let current ← Eval.readElement false name (path.filterMap id)
  Eval.store name path (← Eval.ofNoted (op.apply current right))

/-- What an update with `??` does to the element at a path. -/
def Node.coalesceInto (config : Config) (depth : Nat) (expr : Node) (name : String)
    (path : List (Option Key)) : Eval Value := do
  let current ← Eval.readElement true name (path.filterMap id)
  if config.shortCircuit && !current.isNull then pure current
  else
    let right ← expr.evalAt config depth .strict
    Eval.store name path (← Eval.ofNoted (BinaryOperator.coalesce.apply current right))

theorem refines_combineInto (name : String) (path : List (Option Key)) :
    logSimulation.Refines (fun _ => True) (expr.combineInto config depth op name path)
      (expr.combineInto config depth op name path) := by
  refine ((logSimulation_follows config depth expr).eval .strict).andThen fun right _ => ?_
  exact (Simulation.Refines.readElement trivial).andThen
    fun current _ => refines_combine op name path current right

theorem refines_coalesceInto (name : String) (path : List (Option Key)) :
    logSimulation.Refines (fun _ => True) (expr.coalesceInto config depth name path)
      (expr.coalesceInto config depth name path) := by
  refine (Simulation.Refines.readElement trivial).andThen fun current _ => ?_
  refine Simulation.Refines.ite (fun _ => Simulation.Refines.ofValue trivial) fun _ => ?_
  exact ((logSimulation_follows config depth expr).eval .strict).andThen
    fun right _ => refines_combine .coalesce name path current right

/-- An update that reads, combines and stores, in terms of values. -/
theorem gives_combineInto (hexpr : expr.EffectFree) (name : String) (path : List (Option Key))
    (machine : Machine) :
    (expr.combineInto config depth op name path).gives machine =
      ((expr.evalAt config depth .strict).value? machine).bind fun right =>
        (readFrom false (machine.scope.get? name) (path.filterMap id)).bind fun current =>
          (op.apply current right).result.toOption.bind fun value =>
            (Eval.store name path value).gives machine := by
  unfold Node.combineInto
  rw [gives_bind (hexpr.quiet .strict) fun right => IgnoresLog.of_refines
    ((Simulation.Refines.readElement trivial).andThen
      fun current _ => refines_combine op name path current right)]
  refine congrArg (Option.bind _) (funext fun right => ?_)
  rw [gives_bind (quiet_readElement _ _ _)
    fun current => IgnoresLog.of_refines (refines_combine op name path current right),
    readElement_value?]
  exact congrArg (Option.bind _) (funext fun current => gives_combine op name path current right _)

/-- An update that stores unless the element is there, in terms of values. -/
theorem gives_coalesceInto (hexpr : expr.EffectFree) (name : String) (path : List (Option Key))
    (machine : Machine) :
    (expr.coalesceInto config depth name path).gives machine =
      (readFrom true (machine.scope.get? name) (path.filterMap id)).bind fun current =>
        if config.shortCircuit && !current.isNull then some (current, machine.withoutLog)
        else ((expr.evalAt config depth .strict).value? machine).bind fun right =>
          (BinaryOperator.coalesce.apply current right).result.toOption.bind fun value =>
            (Eval.store name path value).gives machine := by
  unfold Node.coalesceInto
  rw [gives_bind (quiet_readElement _ _ _), readElement_value?]
  · refine congrArg (Option.bind _) (funext fun current => ?_)
    by_cases hcurrent : (config.shortCircuit && !current.isNull) = true
    · rw [if_pos hcurrent, if_pos hcurrent]
      rfl
    · rw [if_neg hcurrent, if_neg hcurrent, gives_bind (hexpr.quiet .strict)
        fun right => IgnoresLog.of_refines (refines_combine .coalesce name path current right)]
      exact congrArg (Option.bind _)
        (funext fun right => gives_combine .coalesce name path current right _)
  · intro current
    refine IgnoresLog.of_refines (P := fun _ => True) ?_
    refine Simulation.Refines.ite (fun _ => Simulation.Refines.ofValue trivial) fun _ => ?_
    exact ((logSimulation_follows config depth expr).eval .strict).andThen
      fun right _ => refines_combine .coalesce name path current right

/-- An update evaluates its keys and then changes the element. -/
theorem gives_update (line : Option Int) (htarget : target.ElementOf name)
    (hname : name ≠ reservedName) (machine : Machine) :
    (Node.evalAt config depth .strict ⟨line, .compoundAssign op target expr⟩).gives machine =
      ((target.evalKeys config (evalWithin config depth)).value? machine).bind fun path =>
        if op = .coalesce then (expr.coalesceInto config depth name path).gives machine
        else (expr.combineInto config depth op name path).gives machine := by
  have hroot : target.targetRoot = .ok name := by rw [htarget.targetRoot_eq, if_neg hname]
  have hsplit : Node.evalAt config depth .strict ⟨line, .compoundAssign op target expr⟩ =
      Eval.located line (target.evalKeys config (evalWithin config depth) >>= fun path =>
        if op = .coalesce then expr.coalesceInto config depth name path
        else expr.combineInto config depth op name path) := by
    rw [Node.evalAt, Node.evalAs, hroot, htarget.hasAppend_eq]
    by_cases hop : op = .coalesce
    · subst hop
      rfl
    · simp only [hop, if_false]
      rfl
  rw [hsplit, gives_located, gives_bind (Quiet.evalKeys htarget)]
  · refine congrArg (Option.bind _) (funext fun path => ?_)
    split <;> rfl
  · intro path
    split
    · exact IgnoresLog.of_refines (refines_coalesceInto name path)
    · exact IgnoresLog.of_refines (refines_combineInto name path)

/-- An assignment of an effect-free expression evaluates its keys, then the expression, and then
    writes the element. -/
theorem gives_assign (line : Option Int) (htarget : target.ElementOf name)
    (hname : name ≠ reservedName) (hexpr : expr.EffectFree) (machine : Machine) :
    (Node.evalAt config depth .strict ⟨line, .assign target expr⟩).gives machine =
      ((target.evalKeys config (evalWithin config depth)).value? machine).bind fun path =>
        ((expr.evalAt config depth .strict).value? machine).bind fun value =>
          (Eval.store name path value).gives machine := by
  have hroot : target.targetRoot = .ok name := by rw [htarget.targetRoot_eq, if_neg hname]
  have hsplit : Node.evalAt config depth .strict ⟨line, .assign target expr⟩ =
      Eval.located line (target.evalKeys config (evalWithin config depth) >>= fun path =>
        expr.evalAt config depth .strict >>= fun value => Eval.store name path value) := by
    rw [Node.evalAt, Node.evalAs, hroot]
    rfl
  rw [hsplit, gives_located, gives_bind (Quiet.evalKeys htarget)]
  · refine congrArg (Option.bind _) (funext fun path => ?_)
    exact gives_bind (hexpr.quiet .strict) (fun value => ignoresLog_store name path value) machine
  · intro path
    exact IgnoresLog.of_refines (((logSimulation_follows config depth expr).eval .strict).andThen
      fun value _ => refines_store name path value)

theorem value?_ofNoted {α : Type} (noted : Noted α) (machine : Machine) :
    (Eval.ofNoted noted).value? machine = noted.result.toOption :=
  value?_ofRefusal noted.result _

theorem ignoresLog_ofNoted {α : Type} (noted : Noted α) : IgnoresLog (Eval.ofNoted noted) :=
  IgnoresLog.of_refines (Simulation.Refines.ofNoted (P := fun _ => True) fun _ _ => trivial)

variable {left right : Node}

/-- The value of an operator that is never decided by its left operand. -/
theorem value?_binary (line : Option Int) (hop : op ≠ .coalesce)
    (hdecided : ∀ value, op.decided? value = none) (hleft : left.EffectFree)
    (hright : right.EffectFree) (machine : Machine) :
    (Node.evalAt config depth .strict ⟨line, .binary op left right⟩).value? machine =
      ((left.evalAt config depth .strict).value? machine).bind fun leftValue =>
        ((right.evalAt config depth .strict).value? machine).bind fun rightValue =>
          (op.apply leftValue rightValue).result.toOption := by
  have hsplit : Node.evalAt config depth .strict ⟨line, .binary op left right⟩ =
      Eval.located line (left.evalAt config depth .strict >>= fun leftValue =>
        right.evalAt config depth .strict >>= fun rightValue =>
          Eval.ofNoted (op.apply leftValue rightValue)) := by
    rw [Node.evalAt, Node.evalAs]
    · simp only [hdecided, ite_self]
    · exact hop
  rw [hsplit, value?_located, value?_bind (hleft.quiet .strict)]
  · refine congrArg (Option.bind _) (funext fun leftValue => ?_)
    rw [value?_bind (hright.quiet .strict) fun _ => ignoresLog_ofNoted _]
    simp only [value?_ofNoted]
  · intro leftValue
    refine IgnoresLog.of_refines (P := fun _ => True) ?_
    exact ((logSimulation_follows config depth right).eval .strict).andThen
      fun _ _ => Simulation.Refines.ofNoted fun _ _ => trivial

/-- The value of an operator that takes its left operand unless that is null. -/
theorem value?_coalesce (line : Option Int) (hleft : left.EffectFree) (hright : right.EffectFree)
    (machine : Machine) :
    (Node.evalAt config depth .strict ⟨line, .binary .coalesce left right⟩).value? machine =
      ((left.evalAt config depth .lenient).value? machine).bind fun leftValue =>
        if config.shortCircuit && !leftValue.isNull then some leftValue
        else ((right.evalAt config depth .strict).value? machine).bind fun rightValue =>
          (BinaryOperator.coalesce.apply leftValue rightValue).result.toOption := by
  rw [Node.evalAt, Node.evalAs, value?_located, value?_bind (hleft.quiet .lenient)]
  · refine congrArg (Option.bind _) (funext fun leftValue => ?_)
    by_cases hvalue : (config.shortCircuit && !leftValue.isNull) = true
    · rw [if_pos hvalue, if_pos hvalue]
      rfl
    · rw [if_neg hvalue, if_neg hvalue,
        value?_bind (hright.quiet .strict) fun _ => ignoresLog_ofNoted _]
      simp only [value?_ofNoted]
  · intro leftValue
    refine IgnoresLog.of_refines (P := fun _ => True) ?_
    refine Simulation.Refines.ite (fun _ => Simulation.Refines.ofValue trivial) fun _ => ?_
    exact ((logSimulation_follows config depth right).eval .strict).andThen
      fun _ _ => Simulation.Refines.ofNoted fun _ _ => trivial

/-! ## Both ways compared -/

/-- None of the operators that can update is decided by its left operand. -/
theorem decided?_of_compound (hop : op ∈ compoundOperators) (value : Value) :
    op.decided? value = none := by
  simp only [compoundOperators, List.mem_cons, List.not_mem_nil, or_false] at hop
  rcases hop with rfl | rfl | rfl | rfl | rfl | rfl | rfl | rfl | rfl | rfl | rfl | rfl | rfl <;> rfl

theorem Node.EffectFree.binary (line : Option Int) (op : BinaryOperator) (hleft : left.EffectFree)
    (hright : right.EffectFree) : (⟨line, .binary op left right⟩ : Node).EffectFree := by
  intro part hpart
  rcases Node.within_mk.mp hpart with rfl | ⟨inner, hinner, hwithin⟩
  · rfl
  · simp only [Form.parts, Form.children, List.mem_cons, List.not_mem_nil, or_false] at hinner
    rcases hinner with rfl | rfl
    · exact hleft part hwithin
    · exact hright part hwithin

/-- Writing back the element that was read for an update changes nothing. -/
theorem gives_store_of_read {machine : Machine} {keys : List Key} {current : Value}
    (hvalues : ∀ v ∈ machine.values, v.Sound) (hname : name ≠ reservedName)
    (hread : readFrom true (machine.scope.get? name) keys = some current)
    (hnull : current.isNull = false) :
    (Eval.store name (keys.map some) current).gives machine =
      some (current, machine.withoutLog) := by
  have hread : Eval.readElement true name keys machine = .ok current machine := by
    rw [← readElement_value?] at hread
    rcases readElement_cases true name keys machine with ⟨found, hfound⟩ | ⟨fault, hfault⟩
    · simp only [Eval.value?, hfound] at hread
      cases hread
      exact hfound
    · simp only [Eval.value?, hfault] at hread
      cases hread
  obtain ⟨value, hget, hwrite⟩ := writeElement_readElement hvalues hnull hread rfl
  rw [Simulation.setVariable_eq, if_neg hname, withVariable_of_get? hget] at hwrite
  simp only [Eval.gives, Eval.store, Eval.bind_of_ok _ hwrite]
  rfl

theorem bind_store_of_blocked {machine : Machine} {keys : List Key}
    (h : Blocked (machine.scope.get? name) keys) (found : Option Value) :
    (found.bind fun value => (Eval.store name (keys.map some) value).gives machine) = none := by
  cases found with
  | none => rfl
  | some value => exact h.gives_write value

/-- An update and its expansion give the same, with an operator other than `??`. -/
theorem gives_combine_eq {machine : Machine} {keys : List Key} {evaluated : Option Value}
    (hexpr : expr.EffectFree)
    (h : ReadsAlike (machine.scope.get? name) keys
      (readFrom false (machine.scope.get? name) keys) evaluated) :
    (expr.combineInto config depth op name (keys.map some)).gives machine =
      (evaluated.bind fun current =>
        ((expr.evalAt config depth .strict).value? machine).bind fun right =>
          (op.apply current right).result.toOption).bind fun value =>
            (Eval.store name (keys.map some) value).gives machine := by
  have hkeys : (keys.map some).filterMap id = keys := by simp
  rw [gives_combineInto hexpr, hkeys]
  rcases h with h | ⟨hnone, hblocked⟩
  · rw [h]
    -- The operands are evaluated in another order, which makes no difference.
    cases evaluated with
    | none => cases (expr.evalAt config depth .strict).value? machine <;> rfl
    | some current => cases (expr.evalAt config depth .strict).value? machine <;> rfl
  · rw [hnone, bind_store_of_blocked hblocked]
    cases (expr.evalAt config depth .strict).value? machine <;> rfl

/-- An update and its expansion give the same, with the operator `??`. -/
theorem gives_coalesce_eq {machine : Machine} {keys : List Key} {evaluated : Option Value}
    (hvalues : ∀ v ∈ machine.values, v.Sound) (hname : name ≠ reservedName)
    (hexpr : expr.EffectFree)
    (h : ReadsAlike (machine.scope.get? name) keys
      (readFrom true (machine.scope.get? name) keys) evaluated) :
    (expr.coalesceInto config depth name (keys.map some)).gives machine =
      (evaluated.bind fun current =>
        if config.shortCircuit && !current.isNull then some current
        else ((expr.evalAt config depth .strict).value? machine).bind fun right =>
          (BinaryOperator.coalesce.apply current right).result.toOption).bind fun value =>
            (Eval.store name (keys.map some) value).gives machine := by
  have hkeys : (keys.map some).filterMap id = keys := by simp
  rw [gives_coalesceInto hexpr, hkeys]
  rcases h with h | ⟨hnone, hblocked⟩
  · rw [← h]
    cases hread : readFrom true (machine.scope.get? name) keys with
    | none => rfl
    | some current =>
      simp only [Option.bind_some]
      by_cases hcurrent : (config.shortCircuit && !current.isNull) = true
      · rw [if_pos hcurrent, if_pos hcurrent, Option.bind_some]
        have hnull : current.isNull = false := by
          rw [Bool.and_eq_true, Bool.not_eq_true'] at hcurrent
          exact hcurrent.2
        exact (gives_store_of_read hvalues hname hread hnull).symm
      · rw [if_neg hcurrent, if_neg hcurrent, Option.bind_assoc]
  · rw [hnone, bind_store_of_blocked hblocked]
    rfl

theorem targetRoot_of_reserved (htarget : target.ElementOf reservedName) :
    target.targetRoot = .error (.reservedName reservedName) := by
  rw [htarget.targetRoot_eq, if_pos rfl]

/-- A reserved name is refused before anything is read. -/
theorem gives_update_of_reserved (htarget : target.ElementOf reservedName) (line : Option Int)
    (machine : Machine) :
    (Node.evalAt config depth .strict ⟨line, .compoundAssign op target expr⟩).gives machine =
      none := by
  rw [Node.evalAt, Node.evalAs, gives_located, targetRoot_of_reserved htarget]
  rfl

theorem gives_assign_of_reserved (htarget : target.ElementOf reservedName) (line : Option Int)
    (machine : Machine) :
    (Node.evalAt config depth .strict ⟨line, .assign target expr⟩).gives machine = none := by
  rw [Node.evalAt, Node.evalAs, gives_located, targetRoot_of_reserved htarget]
  rfl

/-- The update and the assignment have the same value and leave the same machine, up to the log. -/
theorem gives_update_eq {machine : Machine} (hvalues : ∀ v ∈ machine.values, v.Sound)
    (hop : op ∈ compoundOperators) (htarget : target.ElementOf name) (hexpr : expr.EffectFree)
    (line₁ line₂ line₃ : Option Int) :
    (Node.evalAt config depth .strict ⟨line₁, .compoundAssign op target expr⟩).gives machine =
      (Node.evalAt config depth .strict
        ⟨line₂, .assign target ⟨line₃, .binary op target expr⟩⟩).gives machine := by
  by_cases hname : name = reservedName
  · subst hname
    rw [gives_update_of_reserved htarget, gives_assign_of_reserved htarget]
  rw [gives_update line₁ htarget hname,
    gives_assign line₂ htarget hname (.binary line₃ op htarget.effectFree hexpr)]
  cases hpath : (target.evalKeys config (evalWithin config depth)).value? machine with
  | none => rfl
  | some path =>
    simp only [Option.bind_some]
    by_cases hcoalesce : op = .coalesce
    · subst hcoalesce
      obtain ⟨keys, rfl, halike⟩ := htarget.readsAlike .lenient hpath
      rw [if_pos rfl, value?_coalesce line₃ htarget.effectFree hexpr]
      exact gives_coalesce_eq hvalues hname hexpr halike
    · obtain ⟨keys, rfl, halike⟩ := htarget.readsAlike .strict hpath
      rw [if_neg hcoalesce,
        value?_binary line₃ hcoalesce (decided?_of_compound hop) htarget.effectFree hexpr]
      exact gives_combine_eq hexpr halike

end Target

/-- An update `T op= e` ends without an error if and only if the assignment `T = T op e` does, and
    then both give the same value and leave the same variables, functions, files and output. The
    keys of `T` and `e` must be effect-free, and the arrays in the variables sound; the variable may
    be missing or reserved, and anything may be in the way to the element. -/
theorem update_agrees_with_expansion (config : Config) (machine : Machine)
    (hvalues : ∀ v ∈ machine.values, v.Sound) (op : BinaryOperator) (hop : op ∈ compoundOperators)
    (name : String) (target expr : Node) (htarget : target.ElementOf name)
    (hexpr : expr.EffectFree) (line₁ line₂ line₃ : Option Int) :
    let update : Node := ⟨line₁, .compoundAssign op target expr⟩
    let expansion : Node := ⟨line₂, .assign target ⟨line₃, .binary op target expr⟩⟩
    ((∃ value, (evalNode config update).ending machine = .ok value) ↔
      ∃ value, (evalNode config expansion).ending machine = .ok value) ∧
    ∀ value, (evalNode config update).ending machine = .ok value →
      (evalNode config expansion).ending machine = .ok value ∧
      ((evalNode config update).after machine).SameButLog
        ((evalNode config expansion).after machine) := by
  intro update expansion
  have hgives : (evalNode config update).gives machine = (evalNode config expansion).gives machine :=
    gives_update_eq hvalues hop htarget hexpr line₁ line₂ line₃
  have hsame : ∀ value, (evalNode config update).ending machine = .ok value →
      (evalNode config expansion).ending machine = .ok value ∧
      ((evalNode config update).after machine).SameButLog
        ((evalNode config expansion).after machine) := by
    intro value hending
    have hupdate := Eval.gives_eq_some.mpr ⟨hending, rfl⟩
    rw [hgives] at hupdate
    obtain ⟨hexpansion, hafter⟩ := Eval.gives_eq_some.mp hupdate
    exact ⟨hexpansion, Machine.sameButLog_of_withoutLog hafter.symm⟩
  refine ⟨⟨?_, ?_⟩, hsame⟩
  · rintro ⟨value, hending⟩
    exact ⟨value, (hsame value hending).1⟩
  · rintro ⟨value, hending⟩
    have hexpansion := Eval.gives_eq_some.mpr ⟨hending, rfl⟩
    rw [← hgives] at hexpansion
    exact ⟨value, (Eval.gives_eq_some.mp hexpansion).1⟩

/-- `$a["k"][0] .= "!"` and `$a["k"][0] = $a["k"][0] . "!"` both leave `"hi!"` in the element; the
    array inside `$a` keeps its other entry. -/
theorem update_agrees_with_expansion_nested :
    let target : Node := ⟨none, .index
      ⟨none, .index ⟨none, .variable "a"⟩ (some ⟨none, .str "k"⟩)⟩ (some ⟨none, .int 0⟩)⟩
    let mark : Node := ⟨none, .str "!"⟩
    let update : Node := ⟨none, .compoundAssign .concat target mark⟩
    let expansion : Node := ⟨none, .assign target ⟨none, .binary .concat target mark⟩⟩
    let inner (text : String) : Table Value :=
      (Table.empty.set (.int 0) (.str text)).set (.int 5) .null
    let machine (text : String) : Machine :=
      ⟨⟨[("a", .array (Table.empty.set (.str "k") (.array (inner text))))], 0⟩, .empty, none, "", [], 0⟩
    (evalNode {} update).ending (machine "hi") = .ok (.str "hi!") ∧
      (evalNode {} update).after (machine "hi") = machine "hi!" ∧
      (evalNode {} expansion).ending (machine "hi") = .ok (.str "hi!") ∧
      (machine "hi!").SameButLog ((evalNode {} expansion).after (machine "hi")) := by
  intro target mark update expansion inner machine
  have htarget : target.ElementOf "a" :=
    .element none (.element none (.root none) (.of_leaf rfl rfl)) (.of_leaf rfl rfl)
  have hsound : ∀ v ∈ (machine "hi").values, v.Sound := by
    intro v hv
    cases List.mem_singleton.mp hv
    have hempty : (Value.array .empty).Sound := ValueInvariant.sound.empty
    have hkey : (Key.str "k").Normal := by
      unfold Key.Normal
      cbv
    have hzero : (Key.int 0).Normal := rfl
    have hfive : (Key.int 5).Normal := rfl
    have htext : (Value.str "hi").Sound := ValueInvariant.sound.str "hi"
    exact hempty.set hkey ((hempty.set hzero htext).set hfive ValueInvariant.sound.null)
  have hending : (evalNode {} update).ending (machine "hi") = .ok (.str "hi!") := by cbv
  have hafter : (evalNode {} update).after (machine "hi") = machine "hi!" := by cbv
  have hmark : mark.EffectFree := .of_leaf rfl rfl
  obtain ⟨-, hsame⟩ := update_agrees_with_expansion {} (machine "hi") hsound .concat (by decide) "a"
    target mark htarget hmark none none none
  obtain ⟨hexpansion, hlog⟩ := hsame _ hending
  exact ⟨hending, hafter, hexpansion, hafter ▸ hlog⟩

end WebScript
