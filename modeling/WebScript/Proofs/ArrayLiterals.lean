import WebScript.Proofs.Expansion
import WebScript.Proofs.Loops

/-!
# Array literals and stores

`$t = [k => v, w];` gives `$t` the array that `$t = []; $t[k] = v; $t[] = w;` gives it. A literal
evaluates the value of an element before its key, and a store the key before the value; as neither
changes anything, both come to what `Table.filled?` computes from the values of the nodes.
-/

namespace WebScript

open Eval (Quiet bind_of_ok bind_of_error located_of_ok located_of_fault value?)

/-! ## Tables filled from elements -/

/-- Gives a key a value; without a key, adds the value under the next integer key. -/
def Table.store {ν : Type} (table : Table ν) (key : Option Key) (value : ν) : Table ν :=
  match key with
  | some key => table.set key value
  | none => table.append value

/-- The key of an element, given the values of nodes; no key is needed where none is written. -/
def ArrayItem.key? (valueOf : Node → Option Value) (item : ArrayItem Node) : Option (Option Key) :=
  match item.key with
  | some key => (valueOf key).bind fun value => value.toKey.toOption.map some
  | none => some none

/-- The table with an element added, given the values of nodes. -/
def Table.withItem? (valueOf : Node → Option Value) (table : Table Value) (item : ArrayItem Node) :
    Option (Table Value) :=
  (item.key? valueOf).bind fun key => (valueOf item.value).map (table.store key)

/-- The table with elements added in order, given the values of nodes. -/
def Table.filled? (valueOf : Node → Option Value) (table : Table Value) :
    List (ArrayItem Node) → Option (Table Value)
  | [] => some table
  | item :: rest => (table.withItem? valueOf item).bind fun filled => filled.filled? valueOf rest

/-- Whether the key or the value of an element comes first makes no difference. -/
theorem Table.filled?_cons (valueOf : Node → Option Value) (table : Table Value)
    (item : ArrayItem Node) (rest : List (ArrayItem Node)) :
    table.filled? valueOf (item :: rest) =
      (valueOf item.value).bind fun value => (item.key? valueOf).bind fun key =>
        (table.store key value).filled? valueOf rest := by
  rw [filled?, withItem?, Option.bind_comm]
  cases item.key? valueOf with
  | none => rfl
  | some key => cases valueOf item.value <;> rfl

/-- Writing one key deep is storing in the table. -/
theorem writePath_store (table : Table Value) (key : Option Key) (value : Value) :
    writePath (some (.array table)) value [key] = .ok (.array (table.store key value)) := by
  cases key <;> rfl

/-- Adding an element is writing the element under its key. -/
theorem Table.map_withItem? (valueOf : Node → Option Value) (table : Table Value)
    (item : ArrayItem Node) :
    (table.withItem? valueOf item).map .array =
      ((item.key? valueOf).bind fun key => some [key]).bind fun keys =>
        (valueOf item.value).bind fun value =>
          (writePath (some (.array table)) value keys).toOption := by
  unfold withItem?
  cases item.key? valueOf with
  | none => rfl
  | some key =>
    simp only [Option.bind_some, writePath_store]
    cases valueOf item.value <;> rfl

/-! ## Actions that only report -/

/-- From a machine, an action only reports: it ends with a value or fails where there is none. -/
inductive Eval.Finds {α : Type} (action : Eval α) (machine : Machine) : Option α → Prop
  | value {value : α} {events : List Event}
    (h : action machine = .ok value (machine.withEvents events)) : Finds action machine (some value)
  | nothing {fault : Fault} {events : List Event}
    (h : action machine = .error (.fault fault) (machine.withEvents events)) :
    Finds action machine none

/-- From a machine, an action gives a variable a value and does nothing else but report, or it fails
    where there is no value. -/
inductive Eval.Assigns {α : Type} (action : Eval α) (name : String) (machine : Machine) :
    Option Value → Prop
  | value {result : α} {value : Value} {events : List Event}
    (h : action machine = .ok result ((machine.withVariable name value).withEvents events)) :
    Assigns action name machine (some value)
  | nothing {fault : Fault} {after : Machine} (h : action machine = .error (.fault fault) after) :
    Assigns action name machine none

namespace Eval

variable {α β : Type} {machine : Machine}

/-- An action that only reports finds its value on the machine where it starts. -/
theorem Quiet.finds {action : Eval α} (h : Quiet action) (machine : Machine) :
    action.Finds machine (action.value? machine) := by
  unfold value?
  rcases h machine with ⟨value, events, hrun⟩ | ⟨fault, events, hrun⟩
  · rw [hrun]
    exact .value hrun
  · rw [hrun]
    exact .nothing hrun

theorem Finds.ofValue (value : α) : (pure value : Eval α).Finds machine (some value) :=
  have hrun : (pure value : Eval α) machine = .ok value (machine.withEvents []) := rfl
  .value hrun

theorem Finds.ofRefusal (result : Except Refusal α) :
    (Eval.ofRefusal result).Finds machine result.toOption := by
  rw [← value?_ofRefusal result machine]
  exact (Quiet.ofRefusal result).finds machine

/-- Actions one after another find what the second one does of the value of the first. -/
theorem Finds.andThen {first : Eval α} {next : α → Eval β} {found : Option α}
    {result : α → Option β} (h : first.Finds machine found)
    (hnext : ∀ value events, (next value).Finds (machine.withEvents events) (result value)) :
    (first >>= next).Finds machine (found.bind result) := by
  cases h with
  | nothing hfirst => exact .nothing (bind_of_error next hfirst)
  | @value value events hfirst =>
    have hrest := hnext value events
    rw [Option.bind_some]
    generalize result value = found at hrest
    cases hrest with
    | value hrun =>
      rw [← bind_of_ok next hfirst, Machine.withEvents_withEvents] at hrun
      exact .value hrun
    | nothing hrun =>
      rw [← bind_of_ok next hfirst, Machine.withEvents_withEvents] at hrun
      exact .nothing hrun

theorem Finds.located {action : Eval α} {found : Option α} (line : Option Int)
    (h : action.Finds machine found) : (Eval.located line action).Finds machine found := by
  cases h with
  | value hrun => exact .value (located_of_ok line hrun)
  | nothing hrun =>
    obtain ⟨lined, hlined⟩ := located_of_fault line hrun
    exact .nothing hlined

end Eval

/-! ## Machines that differ in a variable -/

/-- Whether something is reported before or after a variable is bound does not matter. -/
theorem Machine.withVariable_withEvents (machine : Machine) (events : List Event) (name : String)
    (value : Value) :
    (machine.withEvents events).withVariable name value =
      (machine.withVariable name value).withEvents events :=
  rfl

/-- The second of two values of a variable stays. -/
theorem Machine.withVariable_withVariable (machine : Machine) (name : String)
    (value other : Value) :
    (machine.withVariable name value).withVariable name other = machine.withVariable name other :=
  congrArg (fun bindings => { machine with scope := { machine.scope with bindings := bindings } })
    (Dict.insert_insert name value other machine.scope.bindings)

/-- Machines that differ at most in a variable and in what has been printed and reported. -/
structure Machine.AlikeBut (name : String) (first second : Machine) : Prop where
  bindings (other : String) (hother : other ≠ name) :
    first.scope.get? other = second.scope.get? other
  generation : first.scope.generation = second.scope.generation
  functions : first.functions = second.functions
  callDepth : first.callDepth = second.callDepth

namespace Machine.AlikeBut

variable {name : String} {first second : Machine}

theorem refl (name : String) (machine : Machine) : machine.AlikeBut name machine :=
  ⟨fun _ _ => rfl, rfl, rfl, rfl⟩

theorem withEvents (h : first.AlikeBut name second) (events : List Event) :
    first.AlikeBut name (second.withEvents events) :=
  ⟨h.bindings, h.generation, h.functions, h.callDepth⟩

theorem withVariable (h : first.AlikeBut name second) (value : Value) :
    first.AlikeBut name (second.withVariable name value) := by
  refine ⟨fun other hother => ?_, h.generation, h.functions, h.callDepth⟩
  rw [get?_withVariable, if_neg hother, h.bindings other hother]

end Machine.AlikeBut

/-- Two runs that give no variable a value, beside one another on machines that differ in one. -/
def unreadSimulation (name : String) : Simulation where
  toValueInvariant := .always
  rel first second := first.AlikeBut name second
  excused _ := False
  readable other := other ≠ name
  bindable _ := False
  excused_locate _ h := h
  readable_of_bindable h := h.elim
  rel_events _ h := ⟨h.bindings, h.generation, h.functions, h.callDepth⟩
  rel_output _ h := ⟨h.bindings, h.generation, h.functions, h.callDepth⟩
  rel_functions h := h.functions
  rel_callDepth h := h.callDepth
  rel_read h hname := h.bindings _ hname
  rel_generation h hafter := by rw [h.generation, hafter.generation]
  value_read _ _ _ := trivial
  rel_bind _ h := h.elim

theorem unreadSimulation_admits (name : String) :
    (unreadSimulation name).Admits fun node => node.EffectFree ∧ ¬ node.Mentions name where
  part h hpart := ⟨h.1.part hpart, fun hmentions => h.2 (hmentions.of_part hpart)⟩
  int _ := trivial
  readable {line _} h hname := h.2 (Or.inr ⟨line, hname ▸ .refl _⟩)
  valueVar h := nomatch h.1 _ (.refl _)
  keyVar h := nomatch h.1 _ (.refl _)
  assign h _ := nomatch h.1 _ (.refl _)
  compound h _ := nomatch h.1 _ (.refl _)
  function h _ := nomatch h.1 _ (.refl _)

section

variable {config : Config} {deeper : Node → Eval Value} {machine other : Machine} {name : String}

/-- Effect-free expressions do not depend on a variable that they do not mention. -/
theorem Node.EffectFree.value?_alike {node : Node} (hfree : node.EffectFree)
    (hunread : ¬ node.Mentions name) (hlike : machine.AlikeBut name other) :
    (node.evalAs config deeper .strict).value? other =
      (node.evalAs config deeper .strict).value? machine := by
  have hfollows : (unreadSimulation name).Follows config deeper config deeper node :=
    Simulation.follows_of_agree (unreadSimulation_admits name)
      (fun _ _ h => nomatch h.1 _ (.refl _)) rfl rfl
      (fun _ _ _ _ _ _ _ h => nomatch h.1 _ (.refl _))
      (fun _ _ _ _ _ h => nomatch h.1 _ (.refl _)) node ⟨hfree, hunread⟩
  have hends := hfollows.eval .strict machine other hlike
  unfold value?
  generalize node.evalAs config deeper .strict machine = ends at hends
  generalize node.evalAs config deeper .strict other = otherEnds at hends
  cases hends with
  | ok _ _ => rfl
  | error _ _ => rfl
  | excused hexit => exact hexit.elim

/-- What a node stands for on a machine. -/
def Node.valueOn (config : Config) (deeper : Node → Eval Value) (machine : Machine) (node : Node) :
    Option Value :=
  (node.evalAs config deeper .strict).value? machine

/-- An expression that may be evaluated before or after `name` is given a value. -/
structure Node.Independent (name : String) (node : Node) : Prop where
  effectFree : node.EffectFree
  unread : ¬ node.Mentions name

/-- A node that does not read a variable finds the same, whatever that variable holds. -/
theorem Node.Independent.finds {node : Node} (h : node.Independent name)
    (hlike : machine.AlikeBut name other) :
    (node.evalAs config deeper .strict).Finds other (node.valueOn config deeper machine) := by
  unfold Node.valueOn
  rw [← h.effectFree.value?_alike h.unread hlike]
  exact (h.effectFree.quiet .strict).finds other

/-! ## Keys -/

/-- Evaluates the key of an element, if it has one. -/
def evalKey (config : Config) (deeper : Node → Eval Value) : Option Node → Eval (Option Key)
  | some key => do
    let value ← key.evalAs config deeper .strict
    let key ← Eval.ofRefusal value.toKey
    pure (some key)
  | none => pure none

/-- An array literal evaluates an element and its key, stores it and goes on with the rest. -/
theorem evalItems_cons (table : Table Value) (item : ArrayItem Node)
    (rest : List (ArrayItem Node)) :
    evalItems config deeper table (item :: rest) =
      (item.value.evalAs config deeper .strict >>= fun value =>
        evalKey config deeper item.key >>= fun key =>
          evalItems config deeper (table.store key value) rest) := by
  obtain ⟨line, value, key⟩ := item
  cases key with
  | none =>
    rw [evalItems]
    rfl
  | some key =>
    rw [evalItems]
    simp only [evalKey, bind_assoc, pure_bind]
    rfl

/-- The keys of a target that is one element deep are its one key. -/
theorem evalKeys_element (line rootLine : Option Int) (name : String) (key : Option Node) :
    Node.evalKeys config deeper ⟨line, .index ⟨rootLine, .variable name⟩ key⟩ =
      (evalKey config deeper key >>= fun key => pure [key]) := by
  cases key with
  | none => rfl
  | some key =>
    rw [Node.evalKeys]
    simp only [evalKey, bind_assoc, pure_bind]
    rfl

/-- A key that does not read the variable finds the same. -/
theorem evalKey_finds {item : ArrayItem Node}
    (h : ∀ key, item.key = some key → key.Independent name)
    (hlike : machine.AlikeBut name other) :
    (evalKey config deeper item.key).Finds other
      (item.key? (Node.valueOn config deeper machine)) := by
  unfold ArrayItem.key?
  cases hkey : item.key with
  | none => exact .ofValue none
  | some key =>
    refine (Node.Independent.finds (h key hkey) hlike).andThen fun value events => ?_
    rw [Option.map_eq_bind]
    exact (Eval.Finds.ofRefusal _).andThen fun key events => .ofValue (some key)

/-- A literal finds the table that its elements fill. -/
theorem evalItems_finds {items : List (ArrayItem Node)}
    (h : ∀ node ∈ Form.itemNodes items, node.Independent name) (table : Table Value)
    (hlike : machine.AlikeBut name other) :
    (evalItems config deeper table items).Finds other
      (table.filled? (Node.valueOn config deeper machine) items) := by
  induction items generalizing table other with
  | nil =>
    rw [evalItems]
    exact .ofValue table
  | cons item rest ih =>
    have hvalue := h item.value (List.mem_append_left _ List.mem_cons_self)
    have hkey : ∀ key, item.key = some key → key.Independent name := fun key hkey =>
      h key (List.mem_append_left _ (List.mem_cons_of_mem _ (by simp [hkey])))
    have hrest : ∀ node ∈ Form.itemNodes rest, node.Independent name :=
      fun node hnode => h node (List.mem_append_right _ hnode)
    rw [evalItems_cons, Table.filled?_cons]
    refine (hvalue.finds hlike).andThen fun value events => ?_
    refine (evalKey_finds hkey (hlike.withEvents events)).andThen fun key more => ?_
    exact ih hrest (table.store key value) ((hlike.withEvents events).withEvents more)

/-! ## Assignments -/

theorem Eval.Assigns.located {α : Type} {action : Eval α} {found : Option Value}
    (line : Option Int) (h : action.Assigns name machine found) :
    (Eval.located line action).Assigns name machine found := by
  cases h with
  | value hrun => exact .value (located_of_ok line hrun)
  | nothing hrun =>
    obtain ⟨lined, hlined⟩ := located_of_fault line hrun
    exact .nothing hlined

/-- An assignment after an action that only reports assigns what it makes of the value found. -/
theorem Eval.Finds.thenAssigns {α β : Type} {first : Eval α} {next : α → Eval β}
    {found : Option α} {result : α → Option Value} (h : first.Finds machine found)
    (hnext : ∀ value events,
      (next value).Assigns name (machine.withEvents events) (result value)) :
    (first >>= next).Assigns name machine (found.bind result) := by
  cases h with
  | nothing hfirst => exact .nothing (bind_of_error next hfirst)
  | @value value events hfirst =>
    have hrest := hnext value events
    rw [Option.bind_some]
    generalize result value = assigned at hrest
    cases hrest with
    | value hrun =>
      rw [← bind_of_ok next hfirst, Machine.withVariable_withEvents,
        Machine.withEvents_withEvents] at hrun
      exact .value hrun
    | nothing hrun =>
      rw [← bind_of_ok next hfirst] at hrun
      exact .nothing hrun

/-- Writing an element gives the variable what writing along the path comes to. -/
theorem writeElement_assigns (hname : name ≠ reservedName) (keys : List (Option Key))
    (value : Value) :
    (Eval.writeElement name keys value >>= fun _ => pure value).Assigns name machine
      (writePath (machine.scope.get? name) value keys).toOption := by
  have hsplit : Eval.writeElement name keys value machine =
      (Eval.ofCause (writePath (machine.scope.get? name) value keys) >>= Eval.setVariable name)
        machine := rfl
  cases hwritten : writePath (machine.scope.get? name) value keys with
  | ok written =>
    have hwrite : Eval.writeElement name keys value machine =
        .ok () ((machine.withVariable name written).withEvents []) :=
      Simulation.writeElement_of_written hname hwritten
    exact .value (bind_of_ok _ hwrite)
  | error cause =>
    rw [hwritten] at hsplit
    exact .nothing (bind_of_error _ hsplit)

/-- An assignment to a target binds its variable to what the path makes of it. -/
theorem assign_assigns (line : Option Int) {target expr : Node}
    {keys : Option (List (Option Key))} {found : Option Value} (hname : name ≠ reservedName)
    (hroot : target.targetRoot = .ok name)
    (hkeys : (target.evalKeys config deeper).Finds machine keys)
    (hexpr : ∀ events,
      (expr.evalAs config deeper .strict).Finds (machine.withEvents events) found) :
    (Node.evalAs config deeper .strict ⟨line, .assign target expr⟩).Assigns name machine
      (keys.bind fun keys => found.bind fun value =>
        (writePath (machine.scope.get? name) value keys).toOption) := by
  rw [Node.evalAs, hroot]
  refine Eval.Assigns.located line (hkeys.thenAssigns fun keys events => ?_)
  exact (hexpr events).thenAssigns fun value more => writeElement_assigns hname keys value

/-- `$t = [items];`. -/
inductive Node.AssignsLiteral (name : String) (items : List (ArrayItem Node)) : Node → Prop
  | intro (line targetLine literalLine : Option Int) :
    AssignsLiteral name items
      ⟨line, .assign ⟨targetLine, .variable name⟩ ⟨literalLine, .arrayLiteral items⟩⟩

/-- `$t[key] = value;` for an element with a key, `$t[] = value;` for one without. -/
inductive Node.StoresItem (name : String) (item : ArrayItem Node) : Node → Prop
  | intro (line targetLine rootLine : Option Int) :
    StoresItem name item
      ⟨line, .assign ⟨targetLine, .index ⟨rootLine, .variable name⟩ item.key⟩ item.value⟩

/-- An assignment of an array literal binds the variable to the table filled from its elements. -/
theorem Node.AssignsLiteral.assigns {node : Node} {items : List (ArrayItem Node)}
    (hnode : node.AssignsLiteral name items) (hname : name ≠ reservedName)
    (h : ∀ node ∈ Form.itemNodes items, node.Independent name) :
    (node.evalAs config deeper .strict).Assigns name machine
      ((Table.empty.filled? (Node.valueOn config deeper machine) items).map .array) := by
  obtain ⟨line, targetLine, literalLine⟩ := hnode
  have hroot : Node.targetRoot ⟨targetLine, .variable name⟩ = .ok name := if_neg hname
  have hliteral : ∀ events, (Node.evalAs config deeper .strict
      ⟨literalLine, .arrayLiteral items⟩).Finds (machine.withEvents events)
      ((Table.empty.filled? (Node.valueOn config deeper machine) items).map .array) := by
    intro events
    rw [Node.evalAs, Option.map_eq_bind]
    refine Eval.Finds.located literalLine (Eval.Finds.andThen ?_ fun table _ => .ofValue _)
    exact evalItems_finds h .empty ((Machine.AlikeBut.refl name machine).withEvents events)
  have hassign := assign_assigns line hname hroot (.ofValue []) hliteral
  cases hfilled : Table.empty.filled? (Node.valueOn config deeper machine) items with
  | none => rwa [hfilled] at hassign
  | some table => rwa [hfilled] at hassign

/-- An assignment to an element binds the variable to the table with one element more. -/
theorem Node.StoresItem.assigns {node : Node} {item : ArrayItem Node} {table : Table Value}
    (hnode : node.StoresItem name item) (hname : name ≠ reservedName)
    (h : ∀ node ∈ Form.itemNodes [item], node.Independent name)
    (hlike : machine.AlikeBut name other)
    (htable : other.scope.get? name = some (.array table)) :
    (node.evalAs config deeper .strict).Assigns name other
      ((table.withItem? (Node.valueOn config deeper machine) item).map .array) := by
  obtain ⟨line, targetLine, rootLine⟩ := hnode
  have hroot : Node.targetRoot ⟨targetLine, .index ⟨rootLine, .variable name⟩ item.key⟩ =
      .ok name := if_neg hname
  have hkey : (evalKey config deeper item.key).Finds other
      (item.key? (Node.valueOn config deeper machine)) :=
    evalKey_finds (fun key hkey => h key (by simp [Form.itemNodes, hkey])) hlike
  have hkeys : (Node.evalKeys config deeper
      ⟨targetLine, .index ⟨rootLine, .variable name⟩ item.key⟩).Finds other
        ((item.key? (Node.valueOn config deeper machine)).bind fun key => some [key]) := by
    rw [evalKeys_element]
    exact hkey.andThen fun key _ => .ofValue [key]
  have hvalue : item.value.Independent name := h _ (by simp [Form.itemNodes])
  have hassign := assign_assigns line hname hroot hkeys
    fun events => hvalue.finds (hlike.withEvents events)
  rw [htable] at hassign
  rw [Table.map_withItem?]
  exact hassign

/-- Assignments one after another: the second starts from the table that the first has bound. -/
theorem Eval.Assigns.andThen {α : Type} {first : Eval α} {next : Eval Unit}
    {found : Option (Table Value)} {result : Table Value → Option Value}
    (h : first.Assigns name machine (found.map .array))
    (hnext : ∀ table events, found = some table → next.Assigns name
      ((machine.withVariable name (.array table)).withEvents events) (result table)) :
    (first >>= fun _ => next).Assigns name machine (found.bind result) := by
  cases found with
  | none =>
    obtain ⟨⟩ | hfirst := h
    exact .nothing (bind_of_error _ hfirst)
  | some table =>
    obtain hfirst | ⟨⟩ := h
    rename_i events
    have hrest := hnext table events rfl
    rw [Option.bind_some]
    generalize result table = assigned at hrest
    cases hrest with
    | value hrun =>
      rw [Machine.withVariable_withEvents, Machine.withVariable_withVariable,
        Machine.withEvents_withEvents] at hrun
      exact .value ((bind_of_ok _ hfirst).trans hrun)
    | nothing hrun => exact .nothing ((bind_of_ok _ hfirst).trans hrun)

/-- A row of stores gives the variable the table that the elements fill. -/
theorem evalBlock_stores {items : List (ArrayItem Node)} {stores : List Node}
    {table : Table Value} (hstores : List.Forall₂ (Node.StoresItem name) items stores)
    (hname : name ≠ reservedName) (h : ∀ node ∈ Form.itemNodes items, node.Independent name)
    (hlike : machine.AlikeBut name other)
    (htable : other.scope.get? name = some (.array table)) :
    (evalBlock config deeper stores).Assigns name other
      ((table.filled? (Node.valueOn config deeper machine) items).map .array) := by
  induction hstores generalizing table other with
  | nil =>
    have hnothing : evalBlock config deeper [] other =
        .ok () ((other.withVariable name (.array table)).withEvents []) := by
      rw [evalBlock, withVariable_of_get? htable]
      rfl
    exact .value hnothing
  | @cons item store rest stores hstore hstores ih =>
    have hitem : ∀ node ∈ Form.itemNodes [item], node.Independent name :=
      fun node hnode => h node (List.mem_append_left _ (by simpa [Form.itemNodes] using hnode))
    have hrest : ∀ node ∈ Form.itemNodes rest, node.Independent name :=
      fun node hnode => h node (List.mem_append_right _ hnode)
    rw [evalBlock, Table.filled?, Option.map_bind]
    refine (hstore.assigns hname hitem hlike htable).andThen fun filled events _ => ?_
    refine ih hrest ((hlike.withVariable _).withEvents events) ?_
    exact (Machine.get?_withVariable other name name _).trans (if_pos rfl)

/-- A literal and a row of stores into an empty array give the variable the same. -/
theorem evalBlock_clear_stores {clear : Node} {items : List (ArrayItem Node)} {stores : List Node}
    (hclear : clear.AssignsLiteral name [])
    (hstores : List.Forall₂ (Node.StoresItem name) items stores)
    (hname : name ≠ reservedName) (h : ∀ node ∈ Form.itemNodes items, node.Independent name) :
    (evalBlock config deeper (clear :: stores)).Assigns name machine
      ((Table.empty.filled? (Node.valueOn config deeper machine) items).map .array) := by
  have hempty : (clear.evalAs config deeper .strict).Assigns name machine
      ((some Table.empty).map .array) :=
    hclear.assigns hname fun node hnode => nomatch hnode
  have hrun : (clear.evalAs config deeper .strict >>= fun _ =>
      evalBlock config deeper stores).Assigns name machine ((some Table.empty).bind fun table =>
        (table.filled? (Node.valueOn config deeper machine) items).map .array) := by
    refine hempty.andThen fun table events hcleared => ?_
    cases hcleared
    refine evalBlock_stores hstores hname h
      (((Machine.AlikeBut.refl name machine).withVariable _).withEvents events) ?_
    exact (Machine.get?_withVariable machine name name _).trans (if_pos rfl)
  rw [evalBlock]
  exact hrun

end

/-- An array literal whose elements have no effects of their own, and the stores of its elements
    into an empty array one after another, either both leave the same machine, but for what has been
    reported, with the same array in the variable, or both fail. -/
theorem array_literal_stores (config : Config) (deeper : Node → Eval Value) (machine : Machine)
    (t : String) (items : List (ArrayItem Node)) (literal clear : Node) (stores : List Node)
    (ht : t ≠ reservedName)
    (hitems : ∀ node ∈ Form.itemNodes items, node.EffectFree ∧ ¬ node.Mentions t)
    (hliteral : literal.AssignsLiteral t items) (hclear : clear.AssignsLiteral t [])
    (hstores : List.Forall₂ (Node.StoresItem t) items stores) :
    (∃ table events₁ events₂,
      evalBlock config deeper [literal] machine =
        .ok () ((machine.withVariable t (.array table)).withEvents events₁) ∧
      evalBlock config deeper (clear :: stores) machine =
        .ok () ((machine.withVariable t (.array table)).withEvents events₂)) ∨
    ∃ fault₁ fault₂ after₁ after₂,
      evalBlock config deeper [literal] machine = .error (.fault fault₁) after₁ ∧
      evalBlock config deeper (clear :: stores) machine = .error (.fault fault₂) after₂ := by
  have hindependent : ∀ node ∈ Form.itemNodes items, node.Independent t :=
    fun node hnode => ⟨(hitems node hnode).1, (hitems node hnode).2⟩
  have hwhole : (literal.evalAs config deeper .strict).Assigns t machine _ :=
    hliteral.assigns ht hindependent
  have hrow : (evalBlock config deeper (clear :: stores)).Assigns t machine _ :=
    evalBlock_clear_stores hclear hstores ht hindependent
  cases hfilled : Table.empty.filled? (Node.valueOn config deeper machine) items with
  | some table =>
    rw [hfilled] at hwhole hrow
    obtain hwhole | ⟨⟩ := hwhole
    obtain hrow | ⟨⟩ := hrow
    exact Or.inl ⟨table, _, _, evalBlock_cons hwhole, hrow⟩
  | none =>
    rw [hfilled] at hwhole hrow
    obtain ⟨⟩ | hwhole := hwhole
    obtain ⟨⟩ | hrow := hrow
    have hblock := bind_of_error (fun _ => evalBlock config deeper []) hwhole
    rw [← evalBlock] at hblock
    exact Or.inr ⟨_, _, _, _, hblock, hrow⟩

/-- In `$t = ['1' => 'a', -5 => $x, 'c', 1 => 'd'];` the last element takes the place of the first,
    and the one without a key comes after the key 1. -/
theorem array_literal_stores_repeated_key :
    let str (text : String) : Node := ⟨none, .str text⟩
    let int (n : Int) : Node := ⟨none, .int n⟩
    let var (name : String) : Node := ⟨none, .variable name⟩
    let items : List (ArrayItem Node) :=
      [⟨none, str "a", some (str "1")⟩, ⟨none, var "x", some ⟨none, .unary .minus (int 5)⟩⟩,
        ⟨none, str "c", none⟩, ⟨none, str "d", some (int 1)⟩]
    let assign (items : List (ArrayItem Node)) : Node :=
      ⟨none, .assign (var "t") ⟨none, .arrayLiteral items⟩⟩
    let stores : List Node := items.map fun item =>
      ⟨none, .assign ⟨none, .index (var "t") item.key⟩ item.value⟩
    let machine : Machine := ⟨⟨[("x", .int 7)], 0⟩, .empty, none, "", [], 0⟩
    let table : Table Value :=
      ⟨[(.int 1, .str "d"), (.int (-5), .int 7), (.int 2, .str "c")], 3⟩
    evalBlock {} (evalWithin {} 0) [assign items] machine =
        .ok () (machine.withVariable "t" (.array table)) ∧
      ∃ after, evalBlock {} (evalWithin {} 0) (assign [] :: stores) machine = .ok () after ∧
        after.scope.get? "t" = some (.array table) := by
  intro str int var items assign stores machine table
  have hliteral : evalBlock {} (evalWithin {} 0) [assign items] machine =
      .ok () (machine.withVariable "t" (.array table)) := by cbv
  have hparts : ∀ node ∈ Form.itemNodes items, ∀ part : Node, part.Within node →
      part ∈ [str "a", str "1", var "x", ⟨none, .unary .minus (int 5)⟩, int 5, str "c", str "d",
        int 1] := by
    intro node hnode part hpart
    simp only [items, Form.itemNodes, List.flatMap_cons, List.flatMap_nil, Option.toList_some,
      Option.toList_none, List.cons_append, List.nil_append, List.mem_cons, List.not_mem_nil,
      or_false] at hnode
    rcases hnode with rfl | rfl | rfl | rfl | rfl | rfl | rfl <;>
      simp_all [str, int, var, Node.within_mk, Form.parts, Form.children]
    rcases hpart with rfl | rfl <;> simp
  have hitems : ∀ node ∈ Form.itemNodes items, node.EffectFree ∧ ¬ node.Mentions "t" := by
    intro node hnode
    refine ⟨fun part hpart => ?_, ?_⟩
    · have := hparts node hnode part hpart
      fin_cases this <;> rfl
    · rintro (⟨part, hpart, hhere⟩ | ⟨line, hpart⟩)
      · have := hparts node hnode part hpart
        fin_cases this <;> cases hhere
      · have := hparts node hnode _ hpart
        simp [str, int, var] at this
  have hstores : List.Forall₂ (Node.StoresItem "t") items stores := by
    refine List.forall₂_map_right_iff.mpr (List.forall₂_same.mpr fun item _ => ?_)
    exact .intro none none none
  rcases array_literal_stores {} (evalWithin {} 0) machine "t" items (assign items) (assign [])
    stores (by decide) hitems (.intro none none none) (.intro none none none) hstores with
    ⟨other, events₁, events₂, hsame, hrow⟩ | ⟨_, _, _, _, hfails, _⟩
  · have hafter := (EStateM.Result.ok.inj (hliteral.symm.trans hsame)).2
    have hscope := congrArg (fun machine : Machine => machine.scope.get? "t") hafter
    exact ⟨hliteral, _, hrow, hscope.symm⟩
  · cases hliteral.symm.trans hfails

end WebScript
