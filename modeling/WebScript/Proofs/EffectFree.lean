import WebScript.Proofs.NodeTree
import WebScript.Proofs.Simulation

/-!
# Expressions without effects

Evaluating an expression that is built from literals, variables, constants, elements, array literals
and operators changes nothing on the machine but the log, and ends with a value or a fault.
-/

namespace WebScript

/-! ## Quiet actions -/

theorem Machine.withEvents_withEvents (machine : Machine) (first second : List Event) :
    (machine.withEvents first).withEvents second = machine.withEvents (second ++ first) := by
  simp [Machine.withEvents]

/-- The exit of a run that fails. -/
def Exit.IsFault (exit : Exit) : Prop := ∃ fault, exit = .fault fault

theorem Exit.IsFault.locate {exit : Exit} (line : Option Int) (h : exit.IsFault) :
    (exit.locate line).IsFault := by
  obtain ⟨fault, rfl⟩ := h
  unfold Exit.locate
  split
  · exact ⟨_, rfl⟩
  · exact ⟨_, rfl⟩

namespace Eval

variable {α β : Type}

/-- The line of a node does not show in a value. -/
theorem located_of_ok {action : Eval α} {machine after : Machine} {value : α} (line : Option Int)
    (h : action machine = .ok value after) : located line action machine = .ok value after := by
  simp only [located, h]

/-- A fault stays a fault with the line of the node that it leaves. -/
theorem located_of_fault {action : Eval α} {machine after : Machine} {fault : Fault}
    (line : Option Int) (h : action machine = .error (.fault fault) after) :
    ∃ lined, located line action machine = .error (.fault lined) after := by
  obtain ⟨lined, hlined⟩ := Exit.IsFault.locate line ⟨fault, rfl⟩
  exact ⟨lined, by simp only [located, h, hlined]⟩

/-- An action that only reports, and that does not return from a function. -/
def Quiet (action : Eval α) : Prop :=
  ∀ machine : Machine,
    (∃ value events, action machine = .ok value (machine.withEvents events)) ∨
    ∃ fault events, action machine = .error (.fault fault) (machine.withEvents events)

theorem Quiet.ofValue (value : α) : Quiet (pure value) :=
  fun _ => Or.inl ⟨value, [], rfl⟩

theorem Quiet.ofFault (fault : Fault) : Quiet (throw (.fault fault) : Eval α) :=
  fun _ => Or.inr ⟨fault, [], rfl⟩

theorem Quiet.raise (cause : Cause) : Quiet (Eval.raise cause : Eval α) :=
  Quiet.ofFault _

/-- A quiet action after another one is quiet; the events of both are reported. -/
theorem Quiet.andThen {first : Eval α} {next : α → Eval β} (h : Quiet first)
    (hnext : ∀ value, Quiet (next value)) : Quiet (first >>= next) := by
  intro machine
  rcases h machine with ⟨value, events, hfirst⟩ | ⟨fault, events, hfirst⟩
  · rw [bind_of_ok next hfirst]
    rcases hnext value (machine.withEvents events) with ⟨result, more, hsecond⟩ |
      ⟨fault, more, hsecond⟩
    · exact Or.inl ⟨result, more ++ events, by rw [← Machine.withEvents_withEvents]; exact hsecond⟩
    · exact Or.inr ⟨fault, more ++ events, by rw [← Machine.withEvents_withEvents]; exact hsecond⟩
  · rw [bind_of_error next hfirst]
    exact Or.inr ⟨fault, events, rfl⟩

theorem Quiet.ite {condition : Prop} [Decidable condition] {first second : Eval α}
    (hfirst : Quiet first) (hsecond : Quiet second) :
    Quiet (if condition then first else second) := by
  split
  · exact hfirst
  · exact hsecond

theorem Quiet.located {action : Eval α} (line : Option Int) (h : Quiet action) :
    Quiet (Eval.located line action) := by
  intro machine
  rcases h machine with ⟨value, events, hrun⟩ | ⟨fault, events, hrun⟩
  · exact Or.inl ⟨value, events, located_of_ok line hrun⟩
  · obtain ⟨lined, hlined⟩ := located_of_fault line hrun
    exact Or.inr ⟨lined, events, hlined⟩

theorem Quiet.ofCause (result : Except Cause α) : Quiet (Eval.ofCause result) := by
  cases result with
  | ok value => exact Quiet.ofValue value
  | error cause => exact Quiet.raise cause

theorem Quiet.ofRefusal (result : Except Refusal α) : Quiet (Eval.ofRefusal result) := by
  cases result with
  | ok value => exact Quiet.ofValue value
  | error refusal =>
    cases refusal with
    | cause cause => exact Quiet.raise cause
    | limit limit => exact Quiet.ofFault _

/-- An operation on values only reports warnings, and no value of it is a `return`. -/
theorem Quiet.ofNoted (noted : Noted α) : Quiet (Eval.ofNoted noted) := by
  have hlog : Quiet (modify fun machine : Machine =>
      { machine with log := (noted.warnings.map Event.warning).reverse ++ machine.log }) :=
    fun _ => Or.inl ⟨(), (noted.warnings.map Event.warning).reverse, rfl⟩
  exact hlog.andThen fun _ => Quiet.ofRefusal noted.result

theorem Quiet.readVariable (name : String) : Quiet (Eval.readVariable name) :=
  fun machine => Quiet.ofCause (machine.scope.get name) machine

theorem Quiet.readOrNull (name : String) :
    Quiet (do pure (((← get).scope.get? name).getD .null) : Eval Value) :=
  fun _ => Or.inl ⟨_, [], rfl⟩

end Eval

/-! ## Effect-free expressions -/

/-- Kinds of nodes whose evaluation has no effects of its own. -/
def Form.isEffectFree {ν : Type} : Form ν → Bool
  | .str _ | .int _ | .float _ | .variable _ | .constant _ | .index .. | .arrayLiteral _
  | .unary .. | .binary .. => true
  | _ => false

/-- An expression built only from literals, variables, constants, elements, array literals and
    operators. -/
def Node.EffectFree (node : Node) : Prop :=
  ∀ part : Node, part.Within node → part.form.isEffectFree = true

theorem Node.EffectFree.part {node part : Node} (h : node.EffectFree) (hpart : part ∈ node.parts) :
    part.EffectFree :=
  fun inner hinner => h inner (hinner.of_part hpart)

/-- A node without parts is effect-free if its own kind is. -/
theorem Node.EffectFree.of_leaf {line : Option Int} {form : Form Node}
    (hform : form.isEffectFree = true) (hparts : form.parts = []) :
    (⟨line, form⟩ : Node).EffectFree := by
  intro part hpart
  rcases Node.within_mk.mp hpart with rfl | ⟨inner, hinner, -⟩
  · exact hform
  · rw [hparts] at hinner
    cases hinner

section

open Eval

variable {config : Config} {deeper : Node → Eval Value}

/-- An array literal is quiet if its values and keys are. -/
theorem Eval.Quiet.evalItems {items : List (ArrayItem Node)}
    (h : ∀ node ∈ Form.itemNodes items, Quiet (node.evalAs config deeper .strict))
    (table : Table Value) : Quiet (WebScript.evalItems config deeper table items) := by
  induction items generalizing table with
  | nil =>
    rw [WebScript.evalItems]
    exact Quiet.ofValue _
  | cons item rest ih =>
    obtain ⟨line, value, key⟩ := item
    have hrest := ih fun node hnode => h node (List.mem_append_right _ hnode)
    have hvalue := h value (List.mem_append_left _ List.mem_cons_self)
    cases key with
    | none =>
      rw [WebScript.evalItems]
      exact hvalue.andThen fun _ => hrest _
    | some key =>
      have hkey := h key (List.mem_append_left _ (List.mem_cons_of_mem _ List.mem_cons_self))
      rw [WebScript.evalItems]
      exact hvalue.andThen fun _ => hkey.andThen fun _ => (Quiet.ofRefusal _).andThen
        fun _ => hrest _

/-- Effect-free expressions are evaluated quietly, under every configuration. -/
theorem Node.EffectFree.quiet {node : Node} (h : node.EffectFree) (reading : Reading) :
    Quiet (node.evalAs config deeper reading) := by
  induction node using Node.inductionOnChildren generalizing reading with
  | step node ih =>
    have hpart : ∀ part ∈ node.parts, ∀ reading, Quiet (part.evalAs config deeper reading) :=
      fun part hpart => ih part (Form.parts_subset_children _ hpart) (h.part hpart)
    have hkind := h node (.refl node)
    obtain ⟨line, form⟩ := node
    cases form with
    | str | int | float =>
      rw [Node.evalAs]
      exact Quiet.ofValue _
    | «variable» name =>
      cases reading with
      | strict =>
        rw [Node.evalAs]
        exact Quiet.located line (Quiet.readVariable name)
      | lenient =>
        rw [Node.evalAs]
        exact Quiet.readOrNull name
    | constant name =>
      rw [Node.evalAs]
      refine Quiet.located line ?_
      cases constant? name with
      | none => exact Quiet.raise _
      | some value => exact Quiet.ofValue value
    | index base dim =>
      have hbase := hpart base List.mem_cons_self
      cases dim with
      | none =>
        rw [Node.evalAs]
        exact Quiet.located line ((hbase .strict).andThen fun _ => Quiet.raise _)
      | some dim =>
        have hdim := hpart dim (List.mem_cons_of_mem _ List.mem_cons_self)
        cases reading with
        | strict =>
          rw [Node.evalAs]
          exact Quiet.located line
            ((hbase .strict).andThen fun _ => (hdim .strict).andThen fun _ => Quiet.ofRefusal _)
        | lenient =>
          rw [Node.evalAs]
          exact (hbase .lenient).andThen fun _ => (hdim .strict).andThen fun _ => Quiet.ofRefusal _
    | arrayLiteral items =>
      rw [Node.evalAs]
      have hitems := Quiet.evalItems (fun node hnode => hpart node hnode .strict) .empty
      exact Quiet.located line (hitems.andThen fun _ => Quiet.ofValue _)
    | unary op operand =>
      rw [Node.evalAs]
      exact Quiet.located line
        ((hpart operand List.mem_cons_self .strict).andThen fun _ => Quiet.ofNoted _)
    | binary op left right =>
      have hleft := hpart left List.mem_cons_self
      have hright := hpart right (List.mem_cons_of_mem _ List.mem_cons_self) .strict
      by_cases hop : op = .coalesce
      · subst hop
        rw [Node.evalAs]
        exact Quiet.located line ((hleft .lenient).andThen fun _ =>
          Quiet.ite (Quiet.ofValue _) (hright.andThen fun _ => Quiet.ofNoted _))
      · rw [Node.evalAs]
        · refine Quiet.located line ((hleft .strict).andThen fun value => ?_)
          cases (if config.shortCircuit then op.decided? value else none) with
          | none => exact hright.andThen fun _ => Quiet.ofNoted _
          | some decided => exact Quiet.ofValue decided
        · exact hop
    | _ => cases hkind

end

end WebScript
