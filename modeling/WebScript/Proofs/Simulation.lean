import Mathlib
import WebScript.Eval.Node
import WebScript.Proofs.ValueInvariant

/-!
# Two runs side by side

Most facts about whole runs compare two runs of the evaluator step by step: two configurations, two
sets of variables, or one run with itself, which gives the invariants of a single run. A
`Simulation` says which machines correspond and what holds of all values; `Simulation.Refines` says
that one action does whatever another does from corresponding machines. The rules below follow the
operations of which evaluation is composed.
-/

namespace WebScript

/-! ## Ends of actions -/

section

variable {α : Type}

/-- How an action ends: with a value or with an exit. -/
def Eval.ending (action : Eval α) (machine : Machine) : Except Exit α :=
  match action machine with
  | .ok value _ => .ok value
  | .error exit _ => .error exit

/-- The machine that an action leaves, however it ends. -/
def Eval.after (action : Eval α) (machine : Machine) : Machine :=
  match action machine with
  | .ok _ after => after
  | .error _ after => after

namespace Eval

variable {β : Type}

/-- What comes after an action that ends with a value starts on the machine that it leaves. -/
theorem bind_of_ok {action : Eval α} {machine after : Machine} {value : α} (next : α → Eval β)
    (h : action machine = .ok value after) : (action >>= next) machine = next value after := by
  simp only [bind, EStateM.bind, h]

/-- What comes after an action that does not end with a value is not started. -/
theorem bind_of_error {action : Eval α} {machine after : Machine} {exit : Exit} (next : α → Eval β)
    (h : action machine = .error exit after) : (action >>= next) machine = .error exit after := by
  simp only [bind, EStateM.bind, h]

end Eval

end

/-! ## Values known without evaluating operands -/

namespace ValueClosure

variable {V : ValueClosure}

/-- The values of the constants `true`, `false` and `null` are as values should be. -/
theorem value_constant? {name : String} {v : Value} (h : constant? name = some v) : V.value v := by
  unfold constant? at h
  split at h
  · cases h
    exact V.bool true
  · cases h
    exact V.bool false
  · cases h
    exact V.null
  · cases h

/-- A result that the left operand decides is a boolean. -/
theorem value_decided? {op : BinaryOperator} {left v : Value} (h : op.decided? left = some v) :
    V.value v := by
  cases op with
  | booleanAnd | logicalAnd =>
    simp only [BinaryOperator.decided?] at h
    split at h
    · cases h
    · cases h
      exact V.bool false
  | booleanOr | logicalOr =>
    simp only [BinaryOperator.decided?] at h
    split at h
    · cases h
      exact V.bool true
    · cases h
  | _ => cases h

end ValueClosure

/-! ## Reading an element -/

/-- Reading an element looks at its variable once and leaves the machine as it is. -/
theorem readElement_eq (absentOk : Bool) (name : String) (keys : List Key) (machine : Machine) :
    Eval.readElement absentOk name keys machine =
      Eval.ofCause (match machine.scope.get? name with
        | some value => readPath absentOk value keys
        | none => if absentOk then .ok .null else .error (.unboundVariable name)) machine := by
  simp only [Eval.readElement, bind, EStateM.bind, get, getThe, MonadStateOf.get, EStateM.get]
  cases machine.scope.get? name with
  | some value => rfl
  | none => cases absentOk <;> rfl

/-- Reading an element gives a value or fails, on the machine as it was. -/
theorem readElement_cases (absentOk : Bool) (name : String) (keys : List Key) (machine : Machine) :
    (∃ current, Eval.readElement absentOk name keys machine = .ok current machine) ∨
      ∃ fault, Eval.readElement absentOk name keys machine = .error (.fault fault) machine := by
  rw [readElement_eq]
  generalize (match machine.scope.get? name with
    | some value => readPath absentOk value keys
    | none => if absentOk then .ok .null else .error (.unboundVariable name)) = found
  cases found with
  | ok current => exact Or.inl ⟨current, rfl⟩
  | error cause => exact Or.inr ⟨_, rfl⟩

theorem machine_of_readElement {absentOk : Bool} {name : String} {keys : List Key}
    {machine after : Machine} {value : Value}
    (h : Eval.readElement absentOk name keys machine = .ok value after) : after = machine := by
  rcases readElement_cases absentOk name keys machine with ⟨current, hread⟩ | ⟨fault, hread⟩
  · rw [hread] at h
    cases h
    rfl
  · rw [hread] at h
    cases h

/-! ## Corresponding machines -/

/-- The machine that has reported more, the latest first. -/
def Machine.withEvents (machine : Machine) (events : List Event) : Machine :=
  { machine with log := events ++ machine.log }

/-- The machine in which a variable has been given a value. -/
def Machine.withVariable (machine : Machine) (name : String) (value : Value) : Machine :=
  { machine with
    scope := { machine.scope with bindings := Dict.insert name value machine.scope.bindings } }

/-- The machine in which a variable of an earlier scope has been given a value, if that scope is
    still in sight. -/
def Machine.withVariableIn (machine : Machine) (generation : Nat) (name : String) (value : Value) :
    Machine :=
  if machine.scope.generation = generation then machine.withVariable name value else machine

/-- The machine that has printed more. -/
def Machine.withOutput (machine : Machine) (text : String) : Machine :=
  { machine with output := machine.output ++ text }

/-- The machine in which a function has been declared. -/
def Machine.withFunction (machine : Machine) (function : Function) : Machine :=
  { machine with functions := machine.functions.define function }

/-- Which machines of two runs correspond, and what holds of all values of the first run. Variables
    are only looked at if they are `readable` and only given values if they are `bindable`. Whether
    another scope has come into sight from one moment to a later one is the same in both runs. Exits
    of the first run that are `excused` free the second run from any obligation. -/
structure Simulation extends ValueInvariant where
  rel : Machine → Machine → Prop
  excused : Exit → Prop
  readable : String → Prop
  bindable : String → Prop
  excused_locate {exit : Exit} (line : Option Int) (h : excused exit) : excused (exit.locate line)
  readable_of_bindable {name : String} (h : bindable name) : readable name
  rel_events {m₁ m₂ : Machine} (events : List Event) (h : rel m₁ m₂) :
    rel (m₁.withEvents events) (m₂.withEvents events)
  rel_output {m₁ m₂ : Machine} (text : String) (h : rel m₁ m₂) :
    rel (m₁.withOutput text) (m₂.withOutput text)
  rel_functions {m₁ m₂ : Machine} (h : rel m₁ m₂) : m₁.functions = m₂.functions
  rel_callDepth {m₁ m₂ : Machine} (h : rel m₁ m₂) : m₁.callDepth = m₂.callDepth
  rel_read {m₁ m₂ : Machine} {name : String} (h : rel m₁ m₂) (hname : readable name) :
    m₁.scope.get? name = m₂.scope.get? name
  rel_generation {m₁ m₂ after₁ after₂ : Machine} (h : rel m₁ m₂) (hafter : rel after₁ after₂) :
    after₁.scope.generation = m₁.scope.generation ↔ after₂.scope.generation = m₂.scope.generation
  value_read {m₁ m₂ : Machine} {name : String} {v : Value} (h : rel m₁ m₂)
    (hname : readable name) (hv : m₁.scope.get? name = some v) : value v
  rel_bind {m₁ m₂ : Machine} {name : String} {v : Value} (h : rel m₁ m₂)
    (hname : bindable name) (hne : name ≠ reservedName) (hv : value v) :
    rel (m₁.withVariable name v) (m₂.withVariable name v)

namespace Simulation

variable (S : Simulation) {α β : Type}

/-- How the ends of two corresponding actions correspond; `P` holds of the value. -/
inductive Outcomes (P : α → Prop) :
    EStateM.Result Exit Machine α → EStateM.Result Exit Machine α → Prop
  | ok {value : α} {m₁ m₂ : Machine} (h : S.rel m₁ m₂) (hvalue : P value) :
    Outcomes P (.ok value m₁) (.ok value m₂)
  | error {exit : Exit} {m₁ m₂ : Machine} (h : S.rel m₁ m₂)
    (hreturned : ∀ v, exit = .returned v → S.value v) :
    Outcomes P (.error exit m₁) (.error exit m₂)
  | excused {exit : Exit} {m₁ : Machine} {second : EStateM.Result Exit Machine α}
    (h : S.excused exit) : Outcomes P (.error exit m₁) second

/-- From corresponding machines, the second action ends as the first one does. -/
def Refines (P : α → Prop) (first second : Eval α) : Prop :=
  ∀ m₁ m₂, S.rel m₁ m₂ → S.Outcomes P (first m₁) (second m₂)

variable {S} {P : α → Prop} {Q : β → Prop}

/-- Where no exit is excused, corresponding actions end alike. -/
theorem Refines.ending_eq {first second : Eval α} (h : S.Refines P first second)
    (hexcused : ∀ exit, ¬ S.excused exit) {m₁ m₂ : Machine} (hrel : S.rel m₁ m₂) :
    first.ending m₁ = second.ending m₂ ∧ S.rel (first.after m₁) (second.after m₂) := by
  have hends := h m₁ m₂ hrel
  unfold Eval.ending Eval.after
  generalize first m₁ = ends₁ at hends
  generalize second m₂ = ends₂ at hends
  cases hends with
  | ok hafter _ => exact ⟨rfl, hafter⟩
  | error hafter _ => exact ⟨rfl, hafter⟩
  | excused hexit => exact absurd hexit (hexcused _)

/-! ## Composed actions -/

theorem Refines.ofValue {value : α} (h : P value) :
    S.Refines P (pure value) (pure value) :=
  fun _ _ hrel => .ok hrel h

/-- What comes after corresponding actions corresponds if it does for every value that they can
    give. -/
theorem Refines.andThen {first second : Eval α} {next₁ next₂ : α → Eval β}
    (h : S.Refines P first second)
    (hnext : ∀ value, P value → S.Refines Q (next₁ value) (next₂ value)) :
    S.Refines Q (first >>= next₁) (second >>= next₂) := by
  intro m₁ m₂ hrel
  have hends := h m₁ m₂ hrel
  simp only [bind, EStateM.bind]
  generalize first m₁ = ends₁ at hends
  generalize second m₂ = ends₂ at hends
  cases hends with
  | ok hafter hvalue => exact hnext _ hvalue _ _ hafter
  | error hafter hreturned => exact .error hafter hreturned
  | excused hexit => exact .excused hexit

/-- A simulated action stays simulated if less is asked of its value. -/
theorem Refines.mono {first second : Eval α} {better : α → Prop}
    (h : S.Refines better first second) (hgood : ∀ value, better value → P value) :
    S.Refines P first second := by
  intro m₁ m₂ hrel
  have hends := h m₁ m₂ hrel
  generalize first m₁ = ends₁ at hends
  generalize second m₂ = ends₂ at hends
  cases hends with
  | ok hafter hvalue => exact .ok hafter (hgood _ hvalue)
  | error hafter hreturned => exact .error hafter hreturned
  | excused hexit => exact .excused hexit

/-- An action that leaves at once is simulated; a value that it returns has to be as it should. -/
theorem Refines.ofExit {exit : Exit} (h : ∀ v, exit = .returned v → S.value v) :
    S.Refines P (throw exit) (throw exit) :=
  fun _ _ hrel => .error hrel h

theorem Refines.ofFault (fault : Fault) :
    S.Refines P (throw (.fault fault)) (throw (.fault fault)) :=
  Refines.ofExit fun v h => by cases h

theorem Refines.raise (cause : Cause) : S.Refines P (Eval.raise cause) (Eval.raise cause) :=
  Refines.ofFault (.error cause none)

/-- Two runs that test the same condition take the same branch. -/
theorem Refines.ite {condition : Prop} [Decidable condition] {then₁ then₂ else₁ else₂ : Eval α}
    (hthen : condition → S.Refines P then₁ then₂)
    (helse : ¬ condition → S.Refines P else₁ else₂) :
    S.Refines P (if condition then then₁ else else₁) (if condition then then₂ else else₂) := by
  by_cases h : condition
  · rw [if_pos h, if_pos h]
    exact hthen h
  · rw [if_neg h, if_neg h]
    exact helse h

theorem returned_of_locate {exit : Exit} {line : Option Int} {v : Value}
    (h : exit.locate line = .returned v) : exit = .returned v := by
  unfold Exit.locate at h
  split at h
  · cases h
  · exact h

/-- Giving errors a line changes neither which exits are excused nor what is returned. -/
theorem Refines.located {first second : Eval α} (line : Option Int)
    (h : S.Refines P first second) :
    S.Refines P (Eval.located line first) (Eval.located line second) := by
  intro m₁ m₂ hrel
  have hends := h m₁ m₂ hrel
  unfold Eval.located
  generalize first m₁ = ends₁ at hends
  generalize second m₂ = ends₂ at hends
  cases hends with
  | ok hafter hvalue => exact .ok hafter hvalue
  | error hafter hreturned =>
    exact .error hafter (fun v hv => hreturned v (returned_of_locate hv))
  | excused hexit => exact .excused (S.excused_locate line hexit)

/-! ## Operations on values -/

/-- An operation on values gives the same in both runs, for it does not look at the machine. -/
theorem Refines.ofCause {result : Except Cause α} (h : ∀ value, result = .ok value → P value) :
    S.Refines P (Eval.ofCause result) (Eval.ofCause result) := by
  cases result with
  | ok value => exact Refines.ofValue (h value rfl)
  | error cause => exact Refines.raise cause

theorem Refines.ofRefusal {result : Except Refusal α}
    (h : ∀ value, result = .ok value → P value) :
    S.Refines P (Eval.ofRefusal result) (Eval.ofRefusal result) := by
  cases result with
  | ok value => exact Refines.ofValue (h value rfl)
  | error refusal =>
    cases refusal with
    | cause cause => exact Refines.raise cause
    | limit limit => exact Refines.ofFault (.limit limit)

theorem Refines.report (event : Event) :
    S.Refines (fun _ => True) (Eval.report event) (Eval.report event) :=
  fun _ _ hrel => .ok (S.rel_events [event] hrel) trivial

theorem Refines.write (text : String) :
    S.Refines (fun _ => True) (Eval.write text) (Eval.write text) :=
  fun _ _ hrel => .ok (S.rel_output text hrel) trivial

/-- Both runs report the warnings of an operation and then have its result. -/
theorem Refines.ofNoted {noted : Noted α} (h : ∀ value, noted.result = .ok value → P value) :
    S.Refines P (Eval.ofNoted noted) (Eval.ofNoted noted) := by
  have hlog : S.Refines (fun _ => True)
      (modify fun machine =>
        { machine with log := (noted.warnings.map Event.warning).reverse ++ machine.log })
      (modify fun machine =>
        { machine with log := (noted.warnings.map Event.warning).reverse ++ machine.log }) :=
    fun _ _ hrel => .ok (S.rel_events _ hrel) trivial
  exact hlog.andThen fun _ _ => Refines.ofRefusal h

/-! ## Variables -/

/-- A readable variable has one value in both runs. -/
theorem Refines.readVariable {name : String} (hname : S.readable name) :
    S.Refines S.value (Eval.readVariable name) (Eval.readVariable name) := by
  intro m₁ m₂ hrel
  have hsame := S.rel_read hrel hname
  show S.Outcomes S.value (Eval.ofCause (m₁.scope.get name) m₁) (Eval.ofCause (m₂.scope.get name) m₂)
  unfold Scope.get
  rw [← hsame]
  refine Refines.ofCause (fun v hv => ?_) m₁ m₂ hrel
  cases hfound : m₁.scope.get? name with
  | none =>
    rw [hfound] at hv
    cases hv
  | some found =>
    rw [hfound] at hv
    cases hv
    exact S.value_read hrel hname hfound

theorem Refines.readOrNull {name : String} (hname : S.readable name) :
    S.Refines S.value (do pure (((← get).scope.get? name).getD .null))
      (do pure (((← get).scope.get? name).getD .null)) := by
  intro m₁ m₂ hrel
  have hsame := S.rel_read hrel hname
  show S.Outcomes S.value (.ok ((m₁.scope.get? name).getD .null) m₁)
    (.ok ((m₂.scope.get? name).getD .null) m₂)
  rw [← hsame]
  cases hfound : m₁.scope.get? name with
  | none => exact .ok hrel S.null
  | some v => exact .ok hrel (S.value_read hrel hname hfound)

/-- Giving a variable a value fails for the reserved name alone. -/
theorem setVariable_eq (name : String) (v : Value) (machine : Machine) :
    Eval.setVariable name v machine =
      if name = reservedName then .error (.fault (.error (.reservedName name) none)) machine
      else .ok () (machine.withVariable name v) := by
  unfold Eval.setVariable Scope.set
  by_cases hname : name = reservedName
  · rw [if_pos hname]
    simp only [hname, if_true]
    rfl
  · rw [if_neg hname]
    simp only [hname, if_false]
    rfl

theorem setVariable_of_ne {name : String} (hname : name ≠ reservedName) (v : Value)
    (machine : Machine) : Eval.setVariable name v machine = .ok () (machine.withVariable name v) := by
  rw [setVariable_eq, if_neg hname]

/-- Giving a variable of an earlier scope a value fails for the reserved name alone, whether or not
    that scope is in sight. -/
theorem setVariableIn_eq (generation : Nat) (name : String) (v : Value) (machine : Machine) :
    Eval.setVariableIn generation name v machine =
      if name = reservedName then .error (.fault (.error (.reservedName name) none)) machine
      else .ok () (machine.withVariableIn generation name v) := by
  unfold Eval.setVariableIn Scope.set Machine.withVariableIn
  by_cases hname : name = reservedName
  · simp only [hname, if_true]
    rfl
  · simp only [hname, if_false]
    show (if machine.scope.generation = generation then _ else _ : Eval Unit) machine = _
    split <;> rfl

/-- Writing an element gives its variable the value that the path makes of it. -/
theorem writeElement_of_written {name : String} {keys : List (Option Key)} {v written : Value}
    {machine : Machine} (hname : name ≠ reservedName)
    (hwritten : writePath (machine.scope.get? name) v keys = .ok written) :
    Eval.writeElement name keys v machine = .ok () (machine.withVariable name written) := by
  show (Eval.ofCause (writePath (machine.scope.get? name) v keys) >>= Eval.setVariable name)
    machine = _
  rw [hwritten]
  exact setVariable_of_ne hname written machine

theorem eq_withVariable_of_setVariable {name : String} {v : Value} {machine after : Machine}
    (h : Eval.setVariable name v machine = .ok () after) : after = machine.withVariable name v := by
  rw [setVariable_eq] at h
  split at h
  · cases h
  · cases h
    rfl

/-- A bindable variable is given its value in both runs, or refused in both. -/
theorem Refines.setVariable {name : String} {v : Value} (hname : S.bindable name)
    (hv : S.value v) :
    S.Refines (fun _ => True) (Eval.setVariable name v) (Eval.setVariable name v) := by
  intro m₁ m₂ hrel
  rw [setVariable_eq, setVariable_eq]
  by_cases hreserved : name = reservedName
  · rw [if_pos hreserved, if_pos hreserved]
    exact .error hrel (fun v h => by cases h)
  · rw [if_neg hreserved, if_neg hreserved]
    exact .ok (S.rel_bind hrel hname hreserved hv) trivial

/-- A variable is given a value in both runs or, where its scope is out of sight, in neither. -/
theorem rel_withVariableIn {m₁ m₂ after₁ after₂ : Machine} {name : String} {v : Value}
    (hrel : S.rel m₁ m₂) (hafter : S.rel after₁ after₂) (hname : S.bindable name)
    (hne : name ≠ reservedName) (hv : S.value v) :
    S.rel (after₁.withVariableIn m₁.scope.generation name v)
      (after₂.withVariableIn m₂.scope.generation name v) := by
  have hsame := S.rel_generation hrel hafter
  unfold Machine.withVariableIn
  by_cases hsight : after₁.scope.generation = m₁.scope.generation
  · rw [if_pos hsight, if_pos (hsame.mp hsight)]
    exact S.rel_bind hafter hname hne hv
  · rw [if_neg hsight, if_neg fun h => hsight (hsame.mpr h)]
    exact hafter

/-- Writing an element reads its variable and gives it a value, so the name has to be bindable. -/
theorem Refines.writeElement {name : String} {keys : List (Option Key)} {v : Value}
    (hname : S.bindable name) (hkeys : S.path keys) (hv : S.value v) :
    S.Refines (fun _ => True) (Eval.writeElement name keys v) (Eval.writeElement name keys v) := by
  intro m₁ m₂ hrel
  have hsame := S.rel_read hrel (S.readable_of_bindable hname)
  show S.Outcomes _
    ((Eval.ofCause (writePath (m₁.scope.get? name) v keys) >>= Eval.setVariable name) m₁)
    ((Eval.ofCause (writePath (m₂.scope.get? name) v keys) >>= Eval.setVariable name) m₂)
  rw [← hsame]
  have hcontainer : ∀ found, m₁.scope.get? name = some found → S.value found :=
    fun found hfound => S.value_read hrel (S.readable_of_bindable hname) hfound
  refine Refines.andThen (Refines.ofCause (P := S.value) fun written hwritten => ?_)
    (fun written hwritten => Refines.setVariable hname hwritten) m₁ m₂ hrel
  exact S.writePath hcontainer hv hkeys hwritten

/-- An element of a readable variable is the same in both runs. -/
theorem Refines.readElement {absentOk : Bool} {name : String} {keys : List Key}
    (hname : S.readable name) :
    S.Refines S.value (Eval.readElement absentOk name keys)
      (Eval.readElement absentOk name keys) := by
  intro m₁ m₂ hrel
  have hsame := S.rel_read hrel hname
  simp only [Eval.readElement, bind, EStateM.bind, get, getThe, MonadStateOf.get, EStateM.get]
  rw [← hsame]
  cases hfound : m₁.scope.get? name with
  | none =>
    cases absentOk with
    | true => exact .ok hrel S.null
    | false => exact Refines.raise _ m₁ m₂ hrel
  | some found =>
    have hvalue := S.value_read hrel hname hfound
    exact Refines.ofCause (fun v hv => S.readPath hvalue hv) m₁ m₂ hrel

end Simulation

end WebScript
