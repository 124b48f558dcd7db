import WebScript.Proofs.Nesting
import WebScript.Proofs.ParsedShape

/-!
# How evaluation ends

Which exits evaluation can end with depends on the shape of what is evaluated. Only statements let a
`return` out, and a program that has been checked cannot fail because of its shape. `Eval.Ends` says
how an action ends on machines whose functions have been checked; there is one rule for each
operation of which evaluation is composed, and one lemma for each kind of node.
-/

namespace WebScript

/-! ## Errors of operations on values -/

/-- Whether an error means that a program has not the shape of one. -/
def Cause.isShapeError : Cause → Bool
  | .misuse .appendRead | .misuse (.badTarget _) | .misuse .temporaryTarget | .unknownNode _ => true
  | _ => false

/-- Whether a refusal means that a program has not the shape of one. -/
def Refusal.isShapeError : Refusal → Bool
  | .cause found => found.isShapeError
  | .limit _ => false

namespace Noted

variable {α β : Type}

/-- The operation is not refused because of the shape of the program. -/
def Proper (noted : Noted α) : Prop :=
  ∀ refusal, noted.result = .error refusal → refusal.isShapeError = false

theorem Proper.ofValue (value : α) : Proper (pure value) := nofun

theorem Proper.warn (warning : Warning) : Proper (Noted.warn warning) := nofun

theorem Proper.refuse {cause : Cause} (h : cause.isShapeError = false) :
    Proper (Noted.refuse cause : Noted α) := by
  rintro refusal ⟨⟩
  exact h

theorem Proper.ofLimit (result : Except Limit α) : Proper (Noted.ofLimit result) := by
  intro refusal hrefusal
  cases result <;> cases hrefusal
  rfl

theorem Proper.andThen {first : Noted α} {next : α → Noted β} (h : first.Proper)
    (hnext : ∀ value, (next value).Proper) : (first >>= next).Proper := by
  intro refusal hrefusal
  change (Noted.bind first next).result = .error refusal at hrefusal
  unfold Noted.bind at hrefusal
  split at hrefusal
  · exact hnext _ refusal hrefusal
  · rename_i hfound
    cases hrefusal
    exact h refusal hfound

end Noted

section

open Noted

theorem Value.proper_text (value : Value) : value.text.Proper := by
  unfold Value.text
  split
  · exact (Proper.warn _).andThen fun _ => .ofValue _
  · exact .ofValue _

theorem proper_joinTexts (values : List Value) : (joinTexts values).Proper := by
  induction values with
  | nil => exact .ofValue _
  | cons value rest ih => exact value.proper_text.andThen fun _ => ih.andThen fun _ => .ofValue _

theorem Value.proper_toNumber (value : Value) : value.toNumber.Proper := by
  unfold Value.toNumber
  split
  · exact .ofValue _
  · exact .ofValue _
  · exact .ofValue _
  · exact .ofValue _
  · split
    · exact .ofLimit _
    · split
      · exact (Proper.warn _).andThen fun _ => .ofLimit _
      · exact .ofValue _
  · exact .ofValue _

theorem proper_numericPair (op : BinaryOperator) (left right : Value) :
    (numericPair op left right).Proper := by
  refine left.proper_toNumber.andThen fun _ => right.proper_toNumber.andThen fun _ => ?_
  split
  · exact .ofValue _
  · exact .refuse rfl

theorem proper_intPair (op : BinaryOperator) (left right : Value) :
    (intPair op left right).Proper := by
  have htoInt : ∀ value : Value, value.toInt.Proper :=
    fun value => value.proper_toNumber.andThen fun _ => .ofValue _
  refine (htoInt left).andThen fun _ => (htoInt right).andThen fun _ => ?_
  split
  · exact .ofValue _
  · exact .refuse rfl

theorem proper_applyArithmetic (op : BinaryOperator) (onInts : Int → Int → Int)
    (onFloats : Float → Float → Float) (left right : Value) :
    (applyArithmetic op onInts onFloats left right).Proper :=
  (proper_numericPair op left right).andThen fun _ => (Proper.ofLimit _).andThen fun _ => .ofValue _

theorem proper_applyBitwise (op : BinaryOperator) (onChars : Nat → Nat → Nat)
    (onWords : BitVec 64 → BitVec 64 → BitVec 64) (pad : Bool) (left right : Value) :
    (applyBitwise op onChars onWords pad left right).Proper := by
  unfold applyBitwise
  split
  · exact .ofLimit _
  · exact (proper_intPair op _ _).andThen fun _ => .ofValue _

theorem proper_applyShift (op : BinaryOperator) (shift : Int → Nat → Int) (left right : Value) :
    (applyShift op shift left right).Proper := by
  refine (proper_intPair op left right).andThen fun pair => ?_
  obtain ⟨a, b⟩ := pair
  simp only
  split
  · exact .refuse rfl
  · exact .ofValue _

theorem proper_applyDiv (left right : Value) : (applyDiv left right).Proper := by
  refine (proper_numericPair .div left right).andThen fun pair => ?_
  obtain ⟨x, y⟩ := pair
  simp only
  split
  · exact .refuse rfl
  · exact (Proper.ofLimit _).andThen fun _ => .ofValue _

theorem proper_applyMod (left right : Value) : (applyMod left right).Proper := by
  refine (proper_intPair .mod left right).andThen fun pair => ?_
  obtain ⟨a, b⟩ := pair
  simp only
  split
  · exact .refuse rfl
  · exact .ofValue _

/-- No binary operator complains about the shape of a program. -/
theorem BinaryOperator.proper_apply (op : BinaryOperator) (left right : Value) :
    (op.apply left right).Proper := by
  cases op with
  | concat =>
    exact left.proper_text.andThen fun _ => right.proper_text.andThen fun _ => .ofValue _
  | smaller | smallerOrEqual | greater | greaterOrEqual | spaceship | equal | notEqual =>
    exact .ofLimit _
  | identical | notIdentical | booleanAnd | logicalAnd | booleanOr | logicalOr | logicalXor =>
    exact .ofValue _
  | plus =>
    simp only [BinaryOperator.apply, applyPlus]
    split
    · exact .ofValue _
    · exact proper_applyArithmetic _ _ _ _ _
  | minus | mul => exact proper_applyArithmetic _ _ _ _ _
  | div => exact proper_applyDiv left right
  | mod => exact proper_applyMod left right
  | pow =>
    exact (proper_numericPair .pow left right).andThen fun _ =>
      (Proper.ofLimit _).andThen fun _ => .ofValue _
  | bitwiseAnd | bitwiseOr | bitwiseXor => exact proper_applyBitwise _ _ _ _ _ _
  | coalesce =>
    simp only [BinaryOperator.apply]
    split <;> exact .ofValue _
  | shiftLeft | shiftRight => exact proper_applyShift _ _ _ _

/-- No unary operator complains about the shape of a program. -/
theorem UnaryOperator.proper_apply (op : UnaryOperator) (operand : Value) :
    (op.apply operand).Proper := by
  have hnumeric : (numericOperand op operand).Proper := by
    refine operand.proper_toNumber.andThen fun _ => ?_
    split
    · exact .ofValue _
    · exact .refuse rfl
  cases op with
  | not => exact .ofValue _
  | minus => exact hnumeric.andThen fun _ => (Proper.ofLimit _).andThen fun _ => .ofValue _
  | plus => exact hnumeric.andThen fun _ => .ofValue _
  | bitwiseNot =>
    simp only [UnaryOperator.apply]
    split
    · exact .ofValue _
    · exact .ofValue _
    · exact .ofValue _
    · exact .refuse rfl

end

theorem Value.isShapeError_toKey {value : Value} {refusal : Refusal}
    (h : value.toKey = .error refusal) : refusal.isShapeError = false := by
  cases value with
  | str s =>
    simp only [Value.toKey] at h
    cases hkey : Key.ofString s <;> rw [hkey] at h <;> cases h
    rfl
  | array table =>
    cases h
    rfl
  | _ => cases h

theorem isShapeError_characterAt {text : String} {dim : Value} {refusal : Refusal}
    (h : characterAt text dim = .error refusal) : refusal.isShapeError = false := by
  rcases characterAt_cases text dim with ⟨c, hat⟩ | ⟨offset, hat⟩ | ⟨type, hat⟩ | ⟨limit, hat⟩ <;>
    cases hat.symm.trans h <;>
    rfl

theorem Value.isShapeError_element {base dim : Value} {refusal : Refusal}
    (h : base.element dim = .error refusal) : refusal.isShapeError = false := by
  cases base with
  | array table =>
    simp only [Value.element, bind, Except.bind] at h
    split at h
    · rename_i hkey
      cases h
      exact Value.isShapeError_toKey hkey
    · split at h <;> cases h
      rfl
  | str text => exact isShapeError_characterAt h
  | _ =>
    cases h
    rfl

theorem Value.isShapeError_elementOrNull {base dim : Value} {refusal : Refusal}
    (h : base.elementOrNull dim = .error refusal) : refusal.isShapeError = false := by
  cases base with
  | array table =>
    simp only [Value.elementOrNull, bind, Except.bind] at h
    split at h
    · rename_i hkey
      cases h
      exact Value.isShapeError_toKey hkey
    · cases h
  | str text =>
    simp only [Value.elementOrNull] at h
    split at h
    · cases h
    · rename_i hcharacter
      split at h <;> cases h
      exact isShapeError_characterAt hcharacter
  | _ => cases h

/-- A scope refuses a name for being reserved, which is no matter of shape. -/
theorem Scope.isShapeError_set {scope : Scope} {name : String} {value : Value} {cause : Cause}
    (h : scope.set name value = .error cause) : cause.isShapeError = false := by
  unfold Scope.set at h
  split at h <;> cases h
  rfl

/-- Writing along a path fails for what is found there, which is no matter of shape. -/
theorem isShapeError_writePath {container : Option Value} {v : Value} {keys : List (Option Key)}
    {cause : Cause} (h : writePath container v keys = .error cause) :
    cause.isShapeError = false := by
  have htable : ∀ {container : Option Value} {cause : Cause},
      tableToWrite container = .error cause → cause.isShapeError = false := by
    intro container cause h
    unfold tableToWrite at h
    split at h <;> cases h
    rfl
  induction keys generalizing container cause with
  | nil => cases h
  | cons key rest ih =>
    simp only [writePath, bind, Except.bind] at h
    split at h
    · rename_i hfound
      cases h
      exact htable hfound
    · split at h
      · split at h
        · rename_i hinner
          cases h
          exact ih hinner
        · cases h
      · split at h
        · rename_i hinner
          cases h
          exact ih hinner
        · cases h

/-- Reading along a path fails for what is found there, which is no matter of shape. -/
theorem isShapeError_readPath {absentOk : Bool} {container : Value} {keys : List Key}
    {cause : Cause} (h : readPath absentOk container keys = .error cause) :
    cause.isShapeError = false := by
  induction keys generalizing container with
  | nil => cases h
  | cons key rest ih =>
    unfold readPath at h
    split at h
    · cases h
      rfl
    · split at h
      · exact ih h
      · split at h <;> cases h
        rfl
    · split at h <;> cases h
      rfl
    · cases h
      rfl

/-! ## Checked programs -/

/-- What parsing makes sure of: the nodes fit their roles, and if `appends` is not set, no element
    that `[]` would append is read. -/
structure Node.Checked (appends : Bool) (role : Role) (node : Node) : Prop where
  shape : node.ShapedAs role
  reads : appends = false → node.appendRead? (decide (role = .target)) = none

/-- The defaults and statements of a function have been checked. -/
structure Function.Checked (appends : Bool) (function : Function) : Prop where
  defaults : ∀ node ∈ Form.paramNodes function.params, node.Checked appends .operand
  body : ∀ node ∈ function.body, node.Checked appends .statement

/-- All functions have been checked. -/
def FunctionTable.Checked (appends : Bool) (table : FunctionTable) : Prop :=
  ∀ entry ∈ table.definitions, entry.2.Checked appends

theorem Spot.mem_below_of_placed {line : Option Int} {form : Form Node} {role : Role}
    {child : Node} (h : (role, child) ∈ form.placed) (hrole : role ≠ .target) :
    ⟨false, child⟩ ∈ (Spot.mk false ⟨line, form⟩).below := by
  have hchild : child ∈ form.children := by
    rw [← Form.map_snd_placed]
    exact List.mem_map_of_mem h
  cases form with
  | assign target expr =>
    simp only [Form.placed, List.mem_cons, Prod.mk.injEq, List.not_mem_nil, or_false] at h
    rcases h with ⟨rfl, -⟩ | ⟨-, rfl⟩
    · exact absurd rfl hrole
    · simp [Spot.below]
  | _ => exact List.mem_map_of_mem hchild

/-- What stands in a checked node has been checked, unless it is assigned to. -/
theorem Node.Checked.placed {appends : Bool} {role inner : Role} {line : Option Int}
    {form : Form Node} {child : Node} (h : Node.Checked appends role ⟨line, form⟩)
    (hrole : role ≠ .target) (hchild : (inner, child) ∈ form.placed) (hinner : inner ≠ .target) :
    child.Checked appends inner := by
  refine ⟨Node.shaped_mk.mp h.shape.shaped (inner, child) hchild, fun happends => ?_⟩
  have hnone : Node.appendRead? false ⟨line, form⟩ = none := by
    simpa [hrole] using h.reads happends
  have hbelow := ((Spot.appendRead?_eq_none_iff ⟨false, ⟨line, form⟩⟩).mp hnone).2
  simpa [hinner] using hbelow _ (Spot.mem_below_of_placed hchild hinner)

theorem Node.Checked.assigned {appends : Bool} {role : Role} {line : Option Int}
    {target expr : Node} (h : Node.Checked appends role ⟨line, .assign target expr⟩) :
    target.Checked appends .target := by
  refine ⟨Node.shaped_mk.mp h.shape.shaped (.target, target) (by simp [Form.placed]), ?_⟩
  intro happends
  have hnone := h.reads happends
  simp only [Node.appendRead?, Option.or_eq_none_iff] at hnone
  exact hnone.1

/-- What is not read off a spine is not read on it. -/
theorem Node.appendRead?_of_false {node : Node} (h : node.appendRead? false = none) :
    node.appendRead? true = none ∧ node.hasAppend = false := by
  induction node using Node.isTarget.induct with
  | case1 line name => exact ⟨by simp [Node.appendRead?], rfl⟩
  | case2 line base dim ih =>
    cases dim with
    | none => simp [Node.appendRead?] at h
    | some dim =>
      simp only [Node.appendRead?, Option.or_eq_none_iff] at h
      obtain ⟨hbase, happend⟩ := ih h.1
      simp [Node.appendRead?, Node.hasAppend, hbase, happend, h.2]
  | case3 node hvariable hindex =>
    obtain ⟨line, form⟩ := node
    cases form with
    | index base dim => exact absurd rfl (hindex line base dim)
    | _ =>
      refine ⟨(Spot.appendRead?_eq_none_iff ⟨true, ⟨line, _⟩⟩).mpr ⟨fun _ _ => rfl, ?_⟩, rfl⟩
      exact ((Spot.appendRead?_eq_none_iff ⟨false, ⟨line, _⟩⟩).mp h).2

theorem Node.Checked.updated {appends : Bool} {role : Role} {line : Option Int}
    {op : BinaryOperator} {target expr : Node}
    (h : Node.Checked appends role ⟨line, .compoundAssign op target expr⟩) :
    target.Checked appends .target ∧ (appends = false → target.hasAppend = false) := by
  have hreads : appends = false → target.appendRead? true = none ∧ target.hasAppend = false := by
    intro happends
    have hnone := h.reads happends
    simp only [Node.appendRead?, Option.or_eq_none_iff] at hnone
    exact Node.appendRead?_of_false hnone.1
  have htarget := Node.shaped_mk.mp h.shape.shaped (.target, target) (by simp [Form.placed])
  exact ⟨⟨htarget, fun happends => (hreads happends).1⟩, fun happends => (hreads happends).2⟩

/-- The dimensions on the spine of a checked target have been checked. -/
theorem Node.Checked.spine {appends : Bool} {line : Option Int} {base : Node} {dim : Option Node}
    (h : Node.Checked appends .target ⟨line, .index base dim⟩) :
    base.Checked appends .target ∧ ∀ node ∈ dim, node.Checked appends .operand := by
  have hplaced := Node.shaped_mk.mp h.shape.shaped
  have hbase : base.isTarget = true := by
    have hfits := h.shape.fits
    rwa [Node.fits, Node.isTarget] at hfits
  cases dim with
  | none =>
    refine ⟨⟨⟨hbase, (hplaced (.operand, base) (by simp [Form.placed])).shaped⟩, ?_⟩,
      fun node hnode => absurd hnode (Option.not_mem_none node)⟩
    intro happends
    simpa [Node.appendRead?] using h.reads happends
  | some dim =>
    have hreads : appends = false → base.appendRead? true = none ∧ dim.appendRead? false = none := by
      intro happends
      simpa [Node.appendRead?] using h.reads happends
    refine ⟨⟨⟨hbase, (hplaced (.operand, base) (by simp [Form.placed])).shaped⟩, ?_⟩, ?_⟩
    · exact fun happends => (hreads happends).1
    · rintro node ⟨⟩
      exact ⟨hplaced (.operand, dim) (by simp [Form.placed]), fun happends => (hreads happends).2⟩

/-- Everything that parsing gives has been checked. -/
theorem checked_of_parse {source : String} {nodes : List Node} (h : parse source = .ok nodes)
    (appends : Bool) : ∀ node ∈ nodes, node.Checked appends .statement := by
  intro node hnode
  refine ⟨allStatements_of_parse h node hnode, fun _ => ?_⟩
  exact appendReadList?_eq_none_iff.mp (parse_eq_ok h).2 node hnode

/-! ## Rules for actions -/

/-- Which exits can be met: a `return` only if `returns` is set, and of the errors of shape only the
    reading of an appended element, if `appends` is set. -/
def Exit.Allowed (appends returns : Bool) : Exit → Prop
  | .returned _ => returns = true
  | .fault (.error cause _) =>
    cause.isShapeError = true → cause = .misuse .appendRead ∧ appends = true
  | .fault (.limit _) | .fault (.source _) => True

/-- A line does not make an exit one that is not allowed. -/
theorem Exit.Allowed.locate {appends returns : Bool} {exit : Exit}
    (h : exit.Allowed appends returns) (line : Option Int) :
    (exit.locate line).Allowed appends returns := by
  unfold Exit.locate
  split
  · exact h
  · exact h

/-- On machines whose functions have been checked, the action ends with a value or an allowed exit,
    and keeps the functions checked. -/
def Eval.Ends {α : Type} (appends returns : Bool) (action : Eval α) : Prop :=
  ∀ machine : Machine, machine.functions.Checked appends →
    match action machine with
    | .ok _ after => after.functions.Checked appends
    | .error exit after => after.functions.Checked appends ∧ exit.Allowed appends returns

namespace Eval.Ends

variable {α β : Type} {appends returns : Bool}

theorem ofValue (value : α) : Ends appends returns (pure value) := fun _ hmachine => hmachine

/-- Actions one after another end well if each of them does, whatever value the first one gives. -/
theorem andThen {first : Eval α} {next : α → Eval β} (h : Ends appends returns first)
    (hnext : ∀ value, Ends appends returns (next value)) :
    Ends appends returns (first >>= next) := by
  intro machine hmachine
  have hends := h machine hmachine
  simp only [bind, EStateM.bind]
  generalize first machine = ends at hends
  cases ends with
  | ok value after => exact hnext value after hends
  | error exit after => exact hends

/-- An action that ends well where nothing may be returned does so where something may be. -/
theorem mono {stricter : Bool} {action : Eval α} (h : Ends appends stricter action)
    (hreturns : stricter = true → returns = true) : Ends appends returns action := by
  intro machine hmachine
  have hends := h machine hmachine
  generalize action machine = ends at hends
  cases ends with
  | ok value after => exact hends
  | error exit after =>
    refine ⟨hends.1, ?_⟩
    cases exit with
    | returned value => exact hreturns hends.2
    | fault fault => cases fault <;> exact hends.2

theorem ofExit {exit : Exit} (h : exit.Allowed appends returns) :
    Ends appends returns (throw exit : Eval α) :=
  fun _ hmachine => ⟨hmachine, h⟩

theorem raise {cause : Cause} (h : cause.isShapeError = false) :
    Ends appends returns (Eval.raise cause : Eval α) :=
  ofExit fun hshape => absurd hshape (by simp [h])

theorem ite {condition : Prop} [Decidable condition] {first second : Eval α}
    (hfirst : condition → Ends appends returns first)
    (hsecond : ¬ condition → Ends appends returns second) :
    Ends appends returns (if condition then first else second) := by
  by_cases h : condition
  · rw [if_pos h]
    exact hfirst h
  · rw [if_neg h]
    exact hsecond h

theorem located {action : Eval α} (line : Option Int) (h : Ends appends returns action) :
    Ends appends returns (Eval.located line action) := by
  intro machine hmachine
  have hends := h machine hmachine
  unfold Eval.located
  generalize action machine = ends at hends
  cases ends with
  | ok value after => exact hends
  | error exit after => exact ⟨hends.1, hends.2.locate line⟩

/-- An action that does not touch the functions and ends with a value. -/
theorem ofUpdate (update : Machine → Machine)
    (h : ∀ machine, (update machine).functions = machine.functions) :
    Ends appends returns (modify update : Eval PUnit) := by
  intro machine hmachine
  show (update machine).functions.Checked appends
  rw [h]
  exact hmachine

/-- An action that looks at the machine first. -/
theorem ofMachine {action : Machine → Eval α} (h : ∀ machine : Machine,
    machine.functions.Checked appends → Ends appends returns (action machine)) :
    Ends appends returns (get >>= action) :=
  fun machine hmachine => h machine hmachine machine hmachine

theorem ofCause {result : Except Cause α}
    (h : ∀ cause, result = .error cause → cause.isShapeError = false) :
    Ends appends returns (Eval.ofCause result) := by
  cases result with
  | ok value => exact ofValue value
  | error cause => exact raise (h cause rfl)

/-- An operation that refuses for no matter of shape ends well. -/
theorem ofRefusal {result : Except Refusal α}
    (h : ∀ refusal, result = .error refusal → refusal.isShapeError = false) :
    Ends appends returns (Eval.ofRefusal result) := by
  cases result with
  | ok value => exact ofValue value
  | error refusal =>
    cases refusal with
    | cause cause => exact raise (h (.cause cause) rfl)
    | limit limit => exact ofExit trivial

theorem report (event : Event) : Ends appends returns (Eval.report event) :=
  ofUpdate _ fun _ => rfl

theorem write (text : String) : Ends appends returns (Eval.write text) :=
  ofUpdate _ fun _ => rfl

theorem ofNoted {noted : Noted α} (h : noted.Proper) :
    Ends appends returns (Eval.ofNoted noted) := by
  unfold Eval.ofNoted
  exact andThen (ofUpdate _ fun _ => rfl) fun _ => ofRefusal h

theorem readVariable (name : String) : Ends appends returns (Eval.readVariable name) := by
  refine ofMachine fun machine _ => ofCause fun cause hcause => ?_
  unfold Scope.get at hcause
  split at hcause <;> cases hcause
  rfl

theorem setVariable (name : String) (value : Value) :
    Ends appends returns (Eval.setVariable name value) := by
  refine ofMachine fun machine hmachine => ?_
  exact andThen (ofCause fun cause hcause => Scope.isShapeError_set hcause) fun scope _ _ => hmachine

theorem setVariableIn (generation : Nat) (name : String) (value : Value) :
    Ends appends returns (Eval.setVariableIn generation name value) := by
  refine ofMachine fun machine hmachine => ?_
  refine andThen (ofCause fun cause hcause => Scope.isShapeError_set hcause) fun scope => ?_
  exact ite (fun _ _ _ => hmachine) fun _ => ofValue _

theorem writeElement (name : String) (keys : List (Option Key)) (value : Value) :
    Ends appends returns (Eval.writeElement name keys value) := by
  refine ofMachine fun machine _ => ?_
  exact (ofCause fun cause hcause => isShapeError_writePath hcause).andThen
    fun written => setVariable name written

theorem readElement (absentOk : Bool) (name : String) (keys : List Key) :
    Ends appends returns (Eval.readElement absentOk name keys) := by
  refine ofMachine fun machine _ => ?_
  split
  · exact ofCause fun cause hcause => isShapeError_readPath hcause
  · exact ite (fun _ => ofValue _) fun _ => raise rfl

end Eval.Ends

/-! ## Rows of nodes -/

section

open Eval

variable {appends returns : Bool} {config : Config} {deeper : Node → Eval Value}

theorem ends_evalList {nodes : List Node}
    (h : ∀ node ∈ nodes, Ends appends returns (node.evalAs config deeper .strict)) :
    Ends appends returns (evalList config deeper nodes) := by
  induction nodes with
  | nil =>
    rw [evalList]
    exact .ofValue _
  | cons node rest ih =>
    obtain ⟨hnode, hrest⟩ := List.forall_mem_cons.mp h
    rw [evalList]
    exact hnode.andThen fun _ => (ih hrest).andThen fun _ => .ofValue _

theorem ends_evalBlock {nodes : List Node}
    (h : ∀ node ∈ nodes, Ends appends returns (node.evalAs config deeper .strict)) :
    Ends appends returns (evalBlock config deeper nodes) := by
  induction nodes with
  | nil =>
    rw [evalBlock]
    exact .ofValue _
  | cons node rest ih =>
    obtain ⟨hnode, hrest⟩ := List.forall_mem_cons.mp h
    rw [evalBlock]
    exact hnode.andThen fun _ => ih hrest

theorem ends_evalElseIfs {elseIfs : List (ElseIf Node)} {found : Bool}
    (h : ∀ node ∈ Form.elseIfNodes elseIfs,
      Ends appends returns (node.evalAs config deeper .strict)) :
    Ends appends returns (evalElseIfs config deeper found elseIfs) := by
  induction elseIfs generalizing found with
  | nil =>
    rw [evalElseIfs]
    exact .ofValue _
  | cons clause rest ih =>
    obtain ⟨hclause, hrest⟩ := List.forall_mem_append.mp h
    obtain ⟨hcond, hbody⟩ := List.forall_mem_cons.mp hclause
    rw [evalElseIfs]
    refine .ite (fun _ => .ofValue _) fun _ => hcond.andThen fun value => ?_
    refine .ite (fun _ => ?_) fun _ => ih hrest
    exact (ends_evalBlock hbody).andThen fun _ => ih hrest

/-- An array literal ends well if its keys and values do. -/
theorem ends_evalItems {items : List (ArrayItem Node)} {table : Table Value}
    (h : ∀ node ∈ Form.itemNodes items, Ends appends returns (node.evalAs config deeper .strict)) :
    Ends appends returns (evalItems config deeper table items) := by
  induction items generalizing table with
  | nil =>
    rw [evalItems]
    exact .ofValue _
  | cons item rest ih =>
    obtain ⟨line, value, key⟩ := item
    obtain ⟨hitem, hrest⟩ := List.forall_mem_append.mp h
    obtain ⟨hvalue, hkey⟩ := List.forall_mem_cons.mp hitem
    cases key with
    | none =>
      rw [evalItems]
      exact hvalue.andThen fun _ => ih hrest
    | some key =>
      rw [evalItems]
      refine hvalue.andThen fun _ => (hkey key List.mem_cons_self).andThen fun _ => ?_
      exact (Ends.ofRefusal fun _ hrefusal => Value.isShapeError_toKey hrefusal).andThen
        fun _ => ih hrest

/-- A loop ends well if its body does, for binding its variables can only meet a reserved name. -/
theorem ends_forEntries {valueVar : String} {keyVar : Option String} {body : Eval Unit}
    (h : Ends appends returns body) (entries : List (Key × Value)) :
    Ends appends returns (Eval.forEntries valueVar keyVar body entries) := by
  induction entries with
  | nil =>
    rw [Eval.forEntries]
    exact .ofValue _
  | cons entry rest ih =>
    rw [Eval.forEntries]
    refine (Ends.setVariable _ _).andThen fun _ => ?_
    cases keyVar with
    | none => exact h.andThen fun _ => ih
    | some name => exact (Ends.setVariable _ _).andThen fun _ => h.andThen fun _ => ih

/-! ## Calls and inclusions -/

theorem ends_runStatements {nodes : List Node}
    (h : ∀ node ∈ nodes, Ends appends returns (deeper node)) :
    Ends appends returns (runStatements deeper nodes) := by
  induction nodes with
  | nil => exact .ofValue _
  | cons node rest ih =>
    obtain ⟨hnode, hrest⟩ := List.forall_mem_cons.mp h
    exact hnode.andThen fun _ => ih hrest

theorem ends_bindDefault {default : Node} (h : Ends appends returns (deeper default))
    (name : String) : Ends appends returns (bindDefault deeper name default) :=
  Ends.ofMachine fun _ _ => h.andThen fun value => Ends.setVariableIn _ name value

/-- Binding parameters ends well if the defaults do. -/
theorem ends_bindParams (function : Function) (passed : Nat) {params : List (Param Node)}
    {args : List Value}
    (h : ∀ node ∈ Form.paramNodes params, Ends appends returns (deeper node)) :
    Ends appends returns (bindParams deeper function passed params args) := by
  induction params generalizing args with
  | nil =>
    rw [bindParams]
    exact .ofValue _
  | cons param rest ih =>
    obtain ⟨hdefault, hrest⟩ := List.forall_mem_append.mp h
    cases args with
    | cons arg args =>
      rw [bindParams]
      exact (Ends.setVariable _ _).andThen fun _ => ih hrest
    | nil =>
      rw [bindParams]
      cases hparam : param.default with
      | none => exact .raise rfl
      | some default =>
        have hbind := ends_bindDefault (hdefault default (by simp [hparam])) param.name
        exact hbind.andThen fun _ => ih hrest

/-- Statements that are run up to the first `return` end well if each of them does. -/
theorem ends_runUntilReturn {nodes : List Node}
    (h : ∀ node ∈ nodes, Ends appends returns (deeper node)) :
    Ends appends returns (runUntilReturn deeper nodes) := by
  induction nodes with
  | nil => exact .ofValue _
  | cons node rest ih =>
    obtain ⟨hnode, hrest⟩ := List.forall_mem_cons.mp h
    exact hnode.andThen fun _ => .ite (fun _ => .ofValue _) fun _ => ih hrest

/-- A function catches the `return` that ends it. -/
theorem ends_runToReturn {nodes : List Node} (h : ∀ node ∈ nodes, Ends appends true (deeper node)) :
    Ends appends returns (runToReturn deeper nodes) := by
  intro machine hmachine
  have hends := ends_runStatements h machine hmachine
  unfold runToReturn
  generalize runStatements deeper nodes machine = ends at hends
  cases ends with
  | ok value after => exact hends
  | error exit after =>
    cases exit with
    | returned value => exact hends.1
    | fault fault => cases fault <;> exact hends

/-- A body ends well in either way of handing back a returned value, and lets none out. -/
theorem ends_runBody {nodes : List Node}
    (h : ∀ node ∈ nodes, Ends appends config.propagateReturn (deeper node)) :
    Ends appends false (runBody deeper config nodes) := by
  unfold runBody
  refine .ite (fun hreturn => ?_) fun hreturn => ?_
  · rw [hreturn] at h
    exact ends_runToReturn h
  · rw [Bool.not_eq_true] at hreturn
    rw [hreturn] at h
    exact ends_runUntilReturn h

/-- A file catches the `return` that ends it. -/
theorem ends_orReturned {action : Eval Value} (h : Ends appends true action) :
    Ends appends returns (Eval.orReturned action) := by
  intro machine hmachine
  have hends := h machine hmachine
  unfold Eval.orReturned
  generalize action machine = ends at hends
  cases ends with
  | ok value after => exact hends
  | error exit after =>
    cases exit with
    | returned value => exact hends.1
    | fault fault => cases fault <;> exact hends

/-- What lies outside a node ends as its role says: only statements let a `return` out. -/
def EndsByRole (appends : Bool) (config : Config) (run : Node → Eval Value) : Prop :=
  ∀ {role : Role} {node : Node}, node.Checked appends role → role ≠ .target →
    Ends appends (decide (role = .statement) && config.propagateReturn) (run node)

/-- A call ends well if the function has been checked. -/
theorem ends_callFunction (hdeeper : EndsByRole appends config deeper) {function : Function}
    (h : function.Checked appends) (args : List Value) :
    Ends appends false (callFunction deeper config function args) := by
  have hbody : Ends appends false (callBody deeper config function args) := by
    refine (ends_bindParams function args.length fun node hnode => ?_).andThen fun _ =>
      ends_runBody fun node hnode => ?_
    · simpa using hdeeper (h.defaults node hnode) nofun
    · simpa using hdeeper (h.body node hnode) nofun
  intro machine hmachine
  have hends := hbody (machine.calling function args).entering hmachine
  rw [callFunction_eq]
  generalize callBody deeper config function args (machine.calling function args).entering = ends
    at hends
  cases ends with
  | ok result after =>
    cases result with
    | none => exact hends
    | some value => cases config.restoreScopeOnReturn <;> exact hends
  | error exit after => exact hends

/-- The statements of a loaded file are those that its text parses to. -/
theorem Library.parse_of_loadFrom {library : Option Library} {path : String} {once : Bool}
    {resolved : Path} {nodes : List Node}
    (h : (Library.loadFrom library path once).1 = .program resolved (.ok nodes)) :
    ∃ source, parse source = .ok nodes := by
  cases library with
  | none => cases h
  | some library =>
    obtain ⟨-, contents, -, hparsed⟩ := Library.mem_files_of_load h
    exact ⟨readText contents, hparsed.symm⟩

/-- An inclusion ends well, for what it runs has been parsed. -/
theorem ends_includeFile (hdeeper : EndsByRole appends config deeper) (path : String)
    (once fatal : Bool) : Ends appends false (includeFile deeper path once fatal) := by
  intro machine hmachine
  rw [includeFile_eq]
  have hload := fun resolved nodes =>
    @Library.parse_of_loadFrom machine.library path once resolved nodes
  generalize Library.loadFrom machine.library path once = loaded at hload
  obtain ⟨loaded, library⟩ := loaded
  refine (?_ : Ends appends false (runLoaded deeper path once fatal loaded)) _ hmachine
  cases loaded with
  | refused limit => exact .ofExit trivial
  | missing =>
    refine .ite (fun _ => .raise rfl) fun _ => ?_
    exact (Ends.report _).andThen fun _ => .ofValue _
  | skipped => exact (Ends.report _).andThen fun _ => .ofValue _
  | program resolved parsed =>
    refine (Ends.report _).andThen fun _ => ?_
    cases parsed with
    | error error => exact .ofExit trivial
    | ok nodes =>
      obtain ⟨source, hsource⟩ := hload resolved nodes rfl
      refine (Ends.report _).andThen fun _ => ends_orReturned ?_
      refine (ends_runStatements fun node hnode => ?_).andThen fun _ => .ofValue _
      exact (hdeeper (checked_of_parse hsource appends node hnode) nofun).mono fun _ => rfl

/-! ## Kinds of nodes -/

theorem ends_echo {exprs : List Node} (reading : Reading) (line : Option Int)
    (h : ∀ expr ∈ exprs, Ends appends false (expr.evalAs config deeper .strict)) :
    Ends appends false (Node.evalAs config deeper reading ⟨line, .echo exprs⟩) := by
  rw [Node.evalAs]
  refine .located line ((ends_evalList h).andThen fun values => ?_)
  refine (Ends.ofNoted (proper_joinTexts values)).andThen fun text => ?_
  exact (Ends.write text).andThen fun _ => .ofValue _

/-- A `return` only lets itself out, and only if the configuration asks for it. -/
theorem ends_ret {expr : Option Node} (reading : Reading) (line : Option Int)
    (h : ∀ node ∈ expr, Ends appends false (node.evalAs config deeper .strict)) :
    Ends appends config.propagateReturn (Node.evalAs config deeper reading ⟨line, .ret expr⟩) := by
  have hreturn : ∀ value : Value, Ends appends config.propagateReturn
      (if config.propagateReturn then throw (.returned value) else pure value : Eval Value) :=
    fun value => .ite (fun hswitch => .ofExit hswitch) fun _ => .ofValue _
  cases expr with
  | none =>
    rw [Node.evalAs]
    exact .located line (hreturn .null)
  | some node =>
    rw [Node.evalAs]
    exact .located line (((h node rfl).mono nofun).andThen hreturn)

theorem ends_conditional {cond : Node} {body : List Node} {elseIfs : List (ElseIf Node)}
    {last : Option (Else Node)} (reading : Reading) (line : Option Int)
    (hcond : Ends appends returns (cond.evalAs config deeper .strict))
    (hbody : ∀ node ∈ body, Ends appends returns (node.evalAs config deeper .strict))
    (helseIfs : ∀ node ∈ Form.elseIfNodes elseIfs,
      Ends appends returns (node.evalAs config deeper .strict))
    (hlast : ∀ node ∈ Form.otherwiseNodes last,
      Ends appends returns (node.evalAs config deeper .strict)) :
    Ends appends returns
      (Node.evalAs config deeper reading ⟨line, .conditional cond body elseIfs last⟩) := by
  rw [Node.evalAs]
  refine .located line (hcond.andThen fun value => ?_)
  refine .ite (fun _ => (ends_evalBlock hbody).andThen fun _ => .ofValue _) fun _ => ?_
  refine (ends_evalElseIfs helseIfs).andThen fun found => ?_
  cases last with
  | none => exact .ofValue _
  | some clause =>
    refine .ite (fun _ => .ofValue _) fun _ => ?_
    exact (ends_evalBlock hlast).andThen fun _ => .ofValue _

theorem ends_foreach {expr : Node} {valueVar : String} {body : List Node}
    {keyVar : Option String} (reading : Reading) (line : Option Int)
    (hexpr : Ends appends returns (expr.evalAs config deeper .strict))
    (hbody : ∀ node ∈ body, Ends appends returns (node.evalAs config deeper .strict)) :
    Ends appends returns
      (Node.evalAs config deeper reading ⟨line, .foreach expr valueVar body keyVar⟩) := by
  rw [Node.evalAs]
  refine .located line (hexpr.andThen fun value => ?_)
  cases value with
  | array table =>
    exact (ends_forEntries (ends_evalBlock hbody) table.entries).andThen fun _ => .ofValue _
  | _ => exact (Ends.raise rfl).andThen fun _ => .ofValue _

theorem ends_functionDecl {name : String} {params : List (Param Node)} {body : List Node}
    (reading : Reading) (line : Option Int) (h : Function.Checked appends ⟨name, params, body⟩) :
    Ends appends returns
      (Node.evalAs config deeper reading ⟨line, .functionDecl name params body⟩) := by
  have hdefine : Ends appends returns (modify fun machine : Machine =>
      { machine with functions := machine.functions.define ⟨name, params, body⟩ } :
        Eval PUnit) := by
    intro machine hmachine entry hentry
    rcases Dict.mem_insert hentry with rfl | hentry
    · exact h
    · exact hmachine entry hentry
  rw [Node.evalAs]
  refine .located line (.ofMachine fun machine _ => ?_)
  refine .ite (fun _ => ?_) fun _ => hdefine.andThen fun _ => .ofValue _
  exact (Ends.report _).andThen fun _ => hdefine.andThen fun _ => .ofValue _

theorem ends_require (hdeeper : EndsByRole appends config deeper) {path : Node}
    (once fatal : Bool) (reading : Reading) (line : Option Int)
    (h : Ends appends false (path.evalAs config deeper .strict)) :
    Ends appends false (Node.evalAs config deeper reading ⟨line, .require path once fatal⟩) := by
  rw [Node.evalAs]
  refine .located line (h.andThen fun value => ?_)
  exact (Ends.ofNoted value.proper_text).andThen fun text =>
    ends_includeFile hdeeper text once fatal

theorem ends_binary {op : BinaryOperator} {left right : Node} (reading : Reading)
    (line : Option Int) (hleft : ∀ reading, Ends appends false (left.evalAs config deeper reading))
    (hright : Ends appends false (right.evalAs config deeper .strict)) :
    Ends appends false (Node.evalAs config deeper reading ⟨line, .binary op left right⟩) := by
  by_cases hop : op = .coalesce
  · subst hop
    rw [Node.evalAs]
    refine .located line ((hleft .lenient).andThen fun leftValue => ?_)
    refine .ite (fun _ => .ofValue _) fun _ => hright.andThen fun rightValue => ?_
    exact .ofNoted (BinaryOperator.proper_apply _ _ _)
  · rw [Node.evalAs]
    · refine .located line ((hleft .strict).andThen fun leftValue => ?_)
      split
      · exact .ofValue _
      · exact hright.andThen fun rightValue => .ofNoted (BinaryOperator.proper_apply _ _ _)
    · exact hop

theorem ends_unary {op : UnaryOperator} {operand : Node} (reading : Reading) (line : Option Int)
    (h : Ends appends false (operand.evalAs config deeper .strict)) :
    Ends appends false (Node.evalAs config deeper reading ⟨line, .unary op operand⟩) := by
  rw [Node.evalAs]
  exact .located line (h.andThen fun value => .ofNoted (op.proper_apply value))

theorem ends_variable (name : String) (reading : Reading) (line : Option Int) :
    Ends appends false (Node.evalAs config deeper reading ⟨line, .variable name⟩) := by
  cases reading with
  | strict =>
    rw [Node.evalAs]
    exact .located line (.readVariable name)
  | lenient =>
    rw [Node.evalAs]
    exact .ofMachine fun _ _ => .ofValue _

theorem ends_constant (name : String) (reading : Reading) (line : Option Int) :
    Ends appends false (Node.evalAs config deeper reading ⟨line, .constant name⟩) := by
  rw [Node.evalAs]
  refine .located line ?_
  split
  · exact .ofValue _
  · exact .raise rfl

/-- Reading an element that `[]` would append is the one error of shape that may be allowed. -/
theorem ends_appendRead {α : Type} (h : appends = true) :
    Ends appends returns (Eval.raise (.misuse .appendRead) : Eval α) :=
  .ofExit fun _ => ⟨rfl, h⟩

theorem ends_index {base : Node} {dim : Option Node} (reading : Reading) (line : Option Int)
    (hdim : dim = none → appends = true)
    (hbase : ∀ reading, Ends appends false (base.evalAs config deeper reading))
    (h : ∀ node ∈ dim, Ends appends false (node.evalAs config deeper .strict)) :
    Ends appends false (Node.evalAs config deeper reading ⟨line, .index base dim⟩) := by
  cases dim with
  | none =>
    rw [Node.evalAs]
    exact .located line ((hbase .strict).andThen fun _ => ends_appendRead (hdim rfl))
  | some dim =>
    cases reading with
    | strict =>
      rw [Node.evalAs]
      refine .located line ((hbase .strict).andThen fun baseValue => ?_)
      refine (h dim rfl).andThen fun dimValue => ?_
      exact .ofRefusal fun _ hrefusal => Value.isShapeError_element hrefusal
    | lenient =>
      rw [Node.evalAs]
      refine (hbase .lenient).andThen fun baseValue => (h dim rfl).andThen fun dimValue => ?_
      exact .ofRefusal fun _ hrefusal => Value.isShapeError_elementOrNull hrefusal

/-- The only fault of a variable or an element of one as a target is the reserved name. -/
theorem ends_targetRoot {target : Node} (h : target.isTarget = true) :
    Ends appends returns (Eval.ofCause target.targetRoot) := by
  refine .ofCause fun cause hcause => ?_
  have hreserved : ∀ {name : String}, (if name = reservedName then .error (.reservedName name)
      else pure name : Except Cause String) = .error cause → cause.isShapeError = false := by
    intro name hname
    split at hname <;> cases hname
    rfl
  have hroot := (Node.isTarget_iff_root? target).mp h
  obtain ⟨name, hname⟩ := Option.isSome_iff_exists.mp hroot
  obtain ⟨line, form⟩ := target
  unfold Node.targetRoot at hcause
  cases form with
  | «variable» found => exact hreserved hcause
  | index base dim =>
    simp only [hname] at hcause
    exact hreserved hcause
  | _ => cases h

/-- An assignment to something that can be assigned to ends well if its keys and its value do. -/
theorem ends_assign {target expr : Node} (reading : Reading) (line : Option Int)
    (htarget : target.isTarget = true)
    (hkeys : Ends appends false (target.evalKeys config deeper))
    (hexpr : Ends appends false (expr.evalAs config deeper .strict)) :
    Ends appends false (Node.evalAs config deeper reading ⟨line, .assign target expr⟩) := by
  rw [Node.evalAs]
  refine .located line ((ends_targetRoot htarget).andThen fun name => ?_)
  refine hkeys.andThen fun keys => hexpr.andThen fun value => ?_
  exact (Ends.writeElement name keys value).andThen fun _ => .ofValue _

/-- An assignment that reads its target first ends well if it has no element without an index, or
    those are allowed. -/
theorem ends_compoundAssign {op : BinaryOperator} {target expr : Node} (reading : Reading)
    (line : Option Int) (htarget : target.isTarget = true)
    (happend : target.hasAppend = true → appends = true)
    (hkeys : Ends appends false (target.evalKeys config deeper))
    (hexpr : Ends appends false (expr.evalAs config deeper .strict)) :
    Ends appends false
      (Node.evalAs config deeper reading ⟨line, .compoundAssign op target expr⟩) := by
  have hupdate : ∀ (name : String) (path : List (Option Key)) (current right : Value),
      Ends appends false (do
        let value ← Eval.ofNoted (op.apply current right)
        Eval.writeElement name path value
        pure value) :=
    fun name path current right => (Ends.ofNoted (op.proper_apply current right)).andThen
      fun value => (Ends.writeElement name path value).andThen fun _ => .ofValue _
  rw [Node.evalAs]
  refine .located line ((ends_targetRoot htarget).andThen fun name => ?_)
  refine .ite (fun hread => (ends_appendRead (happend hread)).andThen fun _ => ?_) fun _ => ?_
  all_goals
    refine hkeys.andThen fun path => .ite (fun _ => ?_) fun _ => ?_
    · refine (Ends.readElement true name _).andThen fun current => ?_
      exact .ite (fun _ => .ofValue _) fun _ => hexpr.andThen fun right => hupdate _ _ _ _
    · exact hexpr.andThen fun right =>
        (Ends.readElement false name _).andThen fun current => hupdate _ _ _ _

theorem ends_call (hdeeper : EndsByRole appends config deeper) {name : String} {args : List Node}
    (reading : Reading) (line : Option Int)
    (h : ∀ arg ∈ args, Ends appends false (arg.evalAs config deeper .strict)) :
    Ends appends false (Node.evalAs config deeper reading ⟨line, .call name args⟩) := by
  rw [Node.evalAs]
  refine .located line (.ofMachine fun machine hmachine => ?_)
  split
  · exact (Ends.report _).andThen fun _ => .ofValue _
  · rename_i function hfunction
    have hchecked : function.Checked appends := hmachine _ (Dict.mem_of_get? hfunction)
    exact (ends_evalList h).andThen fun values => ends_callFunction hdeeper hchecked values

/-! ## Nodes at any depth -/

/-- A node that has been checked for a role ends as the role says, whether it is evaluated or, as a
    target, asked for its keys. -/
structure Node.EndsWell (appends : Bool) (config : Config) (deeper : Node → Eval Value)
    (node : Node) : Prop where
  eval {role : Role} (h : node.Checked appends role) (hrole : role ≠ .target)
    (reading : Reading) :
    Ends appends (decide (role = .statement) && config.propagateReturn)
      (node.evalAs config deeper reading)
  keys (h : node.Checked appends .target) : Ends appends false (node.evalKeys config deeper)

/-- The keys of a target end well if they are checked, one element after another. -/
theorem ends_evalKeys {node : Node} (h : node.Checked appends .target)
    (ih : ∀ child ∈ node.children, child.EndsWell appends config deeper) :
    Ends appends false (node.evalKeys config deeper) := by
  obtain ⟨line, form⟩ := node
  cases form with
  | index base dim =>
    obtain ⟨hbase, hdim⟩ := h.spine
    have hkeys := (ih base List.mem_cons_self).keys hbase
    cases dim with
    | none =>
      rw [Node.evalKeys]
      exact hkeys.andThen fun _ => .ofValue _
    | some dim =>
      have hvalue := (ih dim (List.mem_cons_of_mem _ List.mem_cons_self)).eval (hdim dim rfl) nofun
      rw [Node.evalKeys]
      refine hkeys.andThen fun keys => (hvalue .strict).andThen fun value => ?_
      exact (Ends.ofRefusal fun _ hrefusal => Value.isShapeError_toKey hrefusal).andThen
        fun _ => .ofValue _
  | _ =>
    rw [Node.evalKeys]
    · exact .ofValue _
    all_goals nofun

theorem ne_target_of_mem_placedElseIfs {elseIfs : List (ElseIf Node)} {entry : Role × Node}
    (h : entry ∈ Form.placedElseIfs elseIfs) : entry.1 ≠ .target := by
  obtain ⟨clause, -, hentry⟩ := List.mem_flatMap.mp h
  rcases List.mem_cons.mp hentry with rfl | hentry
  · exact nofun
  · obtain ⟨node, -, rfl⟩ := List.mem_map.mp hentry
    exact nofun

/-- One case per kind of node: what stands in it ends as its role says, so the node does. -/
theorem Node.endsWell (hdeeper : EndsByRole appends config deeper) (node : Node) :
    node.EndsWell appends config deeper := by
  induction node using Node.inductionOnChildren with
  | step node ih =>
    refine ⟨fun {role} h hrole reading => ?_, fun h => ends_evalKeys h ih⟩
    obtain ⟨line, form⟩ := node
    have hplaced : ∀ entry ∈ form.placed, entry.1 ≠ .target → ∀ reading,
        Ends appends (decide (entry.1 = .statement) && config.propagateReturn)
          (entry.2.evalAs config deeper reading) := by
      intro entry hentry htarget reading
      have hchild : entry.2 ∈ form.children := by
        rw [← Form.map_snd_placed]
        exact List.mem_map_of_mem hentry
      exact (ih entry.2 hchild).eval (h.placed hrole hentry htarget) htarget reading
    have hoperand : ∀ {child : Node}, (Role.operand, child) ∈ form.placed → ∀ reading,
        Ends appends false (child.evalAs config deeper reading) :=
      fun hchild reading => hplaced _ hchild nofun reading
    have hstatement : ∀ {child : Node}, (Role.statement, child) ∈ form.placed →
        Ends appends config.propagateReturn (child.evalAs config deeper .strict) :=
      fun hchild => (hplaced _ hchild nofun .strict).mono (by simp)
    have hfits := h.shape.fits
    cases form with
    | echo exprs =>
      refine Ends.mono (ends_echo reading line fun expr hexpr => hoperand ?_ .strict) nofun
      exact List.mem_map_of_mem hexpr
    | nop => exact .ofValue _
    | ret expr =>
      cases role <;> simp [Node.fits, Form.isExpression, Form.isArgument] at hfits hrole
      refine Ends.mono (ends_ret reading line fun node hnode => hoperand ?_ .strict) (by simp)
      exact List.mem_map_of_mem (Option.mem_toList.mpr hnode)
    | conditional cond body elseIfs last =>
      cases role <;> simp [Node.fits, Form.isExpression, Form.isArgument] at hfits hrole
      refine Ends.mono (ends_conditional reading line ((hoperand ?_ .strict).mono nofun)
        (fun node hnode => hstatement ?_) (fun node hnode => ?_)
        fun node hnode => hstatement ?_) (by simp)
      · exact List.mem_cons_self
      · exact List.mem_append_left _ (List.mem_append_left _
          (List.mem_cons_of_mem _ (List.mem_map_of_mem hnode)))
      · rw [← Form.map_snd_placedElseIfs] at hnode
        obtain ⟨entry, hentry, rfl⟩ := List.mem_map.mp hnode
        have hrow := List.mem_append_right
          ((Role.operand, cond) :: body.map (Prod.mk .statement)) hentry
        exact (hplaced entry (List.mem_append_left _ hrow)
          (ne_target_of_mem_placedElseIfs hentry) .strict).mono (by simp)
      · exact List.mem_append_right _ (List.mem_map_of_mem hnode)
    | foreach expr valueVar body keyVar =>
      cases role <;> simp [Node.fits, Form.isExpression, Form.isArgument] at hfits hrole
      refine Ends.mono (ends_foreach reading line ((hoperand ?_ .strict).mono nofun)
        fun node hnode => hstatement ?_) (by simp)
      · exact List.mem_cons_self
      · exact List.mem_cons_of_mem _ (List.mem_map_of_mem hnode)
    | functionDecl name params body =>
      refine ends_functionDecl reading line ⟨fun node hnode => ?_, fun node hnode => ?_⟩
      · exact h.placed hrole (List.mem_append_left _ (List.mem_map_of_mem hnode)) nofun
      · exact h.placed hrole (List.mem_append_right _ (List.mem_map_of_mem hnode)) nofun
    | require path once fatal =>
      refine Ends.mono (ends_require hdeeper once fatal reading line (hoperand ?_ .strict)) nofun
      exact List.mem_cons_self
    | str | int | float => exact .ofValue _
    | arrayLiteral items =>
      rw [Node.evalAs]
      refine .located line (Ends.andThen (ends_evalItems fun node hnode => ?_) fun _ => .ofValue _)
      exact (hoperand (List.mem_map_of_mem hnode) .strict).mono nofun
    | binary op left right =>
      refine Ends.mono (ends_binary reading line (hoperand ?_) (hoperand ?_ .strict)) nofun
      · exact List.mem_cons_self
      · exact List.mem_cons_of_mem _ List.mem_cons_self
    | unary op operand =>
      exact Ends.mono (ends_unary reading line (hoperand List.mem_cons_self .strict)) nofun
    | «variable» name => exact Ends.mono (ends_variable name reading line) nofun
    | constant name => exact Ends.mono (ends_constant name reading line) nofun
    | index base dim =>
      refine Ends.mono (ends_index reading line (fun hdim => ?_) (hoperand List.mem_cons_self)
        fun node hnode => hoperand ?_ .strict) nofun
      · -- Without `appends`, an element without an index would have been found.
        subst hdim
        refine Bool.of_not_eq_false fun happends => ?_
        have hnone := h.reads happends
        simp [hrole, Node.appendRead?] at hnone
      · exact List.mem_cons_of_mem _ (List.mem_map_of_mem (Option.mem_toList.mpr hnode))
    | assign target expr =>
      have htarget := h.assigned
      refine Ends.mono (ends_assign reading line htarget.shape.fits
        ((ih target List.mem_cons_self).keys htarget) (hoperand ?_ .strict)) nofun
      exact List.mem_cons_of_mem _ List.mem_cons_self
    | compoundAssign op target expr =>
      obtain ⟨htarget, happend⟩ := h.updated
      refine Ends.mono (ends_compoundAssign reading line htarget.shape.fits (fun hread => ?_)
        ((ih target List.mem_cons_self).keys htarget) (hoperand ?_ .strict)) nofun
      · refine Bool.of_not_eq_false fun happends => ?_
        simp [happend happends] at hread
      · exact List.mem_cons_of_mem _ List.mem_cons_self
    | arg value =>
      rw [Node.evalAs]
      exact .located line ((hoperand List.mem_cons_self .strict).mono nofun)
    | call name args =>
      refine Ends.mono (ends_call hdeeper reading line fun arg harg => ?_) nofun
      exact hplaced (.argument, arg) (List.mem_map_of_mem harg) nofun .strict
    | elseIf | otherwise | param | arrayItem | bare =>
      cases role <;> simp [Node.fits, Form.isExpression, Form.isArgument, Form.isStatement]
        at hfits hrole

/-- However deep calls and inclusions nest, evaluation ends as the roles say. -/
theorem endsByRole_evalWithin (appends : Bool) (config : Config) (depth : Nat) :
    EndsByRole appends config (evalWithin config depth) := by
  induction depth with
  | zero =>
    intro role node h hrole
    exact .ofMachine fun machine _ => .raise rfl
  | succ depth ih =>
    intro role node h hrole
    exact (Node.endsWell ih node).eval h hrole .strict

/-! ## Whole runs -/

theorem FunctionTable.checked_empty (appends : Bool) : FunctionTable.empty.Checked appends := nofun

theorem Machine.functions_writeListing (machine : Machine) (config : Config)
    (nodes : List Node) : (machine.writeListing config nodes).functions = machine.functions := by
  unfold Machine.writeListing
  split <;> rfl

/-- How the statements of a program end. -/
theorem ends_program {source : String} {nodes : List Node} (h : parse source = .ok nodes)
    (config : Config) :
    Ends false config.propagateReturn (runStatements (evalNode config) nodes) := by
  refine ends_runStatements fun node hnode => ?_
  exact (endsByRole_evalWithin false config maxNesting (checked_of_parse h false node hnode)
    nofun).mono (by simp)

/-- The exit of a run that does not finish is one that the program can have. -/
theorem allowed_of_runSource {source : String} {nodes : List Node} (h : parse source = .ok nodes)
    (config : Config) (library : Library) (path : Option String) :
    match (runSource config library source path).1 with
    | .finished => True
    | .returned value => Exit.Allowed false config.propagateReturn (.returned value)
    | .failed fault => Exit.Allowed false config.propagateReturn (.fault fault) := by
  rw [runSource_of_parse h]
  cases library.forRun path with
  | error limit => trivial
  | ok marked =>
    have hmachine : ((Machine.start (some marked)).writeListing config nodes).functions.Checked
        false := by
      rw [Machine.functions_writeListing]
      exact FunctionTable.checked_empty false
    have hends := ends_program h config _ hmachine
    simp only [evalProgram]
    generalize runStatements (evalNode config) nodes _ = ends at hends
    cases ends with
    | ok value after => trivial
    | error exit after => cases exit <;> exact hends.2

end

/-- A program that reads an element which `[]` would append is refused. -/
theorem parse_of_appendRead {source : String} {final : ParserState} {nodes : List Node}
    (hfinal : (tokens (expandTags source.toList)).foldlM ParserState.step .start = some final)
    (hnodes : final.finish? = some nodes) (happend : appendReadList? nodes ≠ none) :
    ∃ line, parse source = .error (final.fault.getD (.parse ⟨.appendRead, line, none⟩)) := by
  obtain ⟨token, hread⟩ := readTokens_of_foldlM hfinal none
  obtain ⟨line, hline⟩ := Option.ne_none_iff_exists'.mp happend
  refine ⟨line, ?_⟩
  rw [parse, hread, readTokens, hnodes]
  cases final.fault with
  | some fault => rfl
  | none =>
    show rejectAppendReads nodes = _
    rw [rejectAppendReads, hline]
    rfl

/-- What parsing checks makes the errors of shape unreachable. In an accepted program, only
    variables and elements of variables are assigned to, elements are written `[]` only on the way
    to an element that is assigned to, and operands are expressions; so no run of it, whatever the
    files and the configuration, fails with one of the errors that other trees of nodes would lead
    to. Conversely, a text whose statements read an element written `[]` is refused, for this reason
    unless something else has been found wrong with it. -/
theorem shape_errors_unreachable (source : String) :
    (∀ nodes, parse source = .ok nodes →
      (∀ node ∈ nodes, ∀ inner : Node, inner.Inside node →
        (∀ target expr, inner.form = .assign target expr → target.root?.isSome = true) ∧
        (∀ op target expr, inner.form = .compoundAssign op target expr →
          target.root?.isSome = true) ∧
        (∀ operand, (Role.operand, operand) ∈ inner.form.placed →
          operand.form.isExpression = true) ∧
        ∀ name args, inner.form = .call name args → ∀ arg ∈ args, ∃ value, arg.form = .arg value) ∧
      (∀ node ∈ nodes, ∀ spot : Spot, node.Occurs spot → ∀ base,
        spot.node.form = .index base none → spot.onSpine = true) ∧
      ∀ (config : Config) (library : Library) (path : Option String) (cause : Cause)
        (line : Option Int), (runSource config library source path).1 = .failed (.error cause line) →
        cause ≠ .misuse .appendRead ∧ (∀ kind, cause ≠ .misuse (.badTarget kind)) ∧
          cause ≠ .misuse .temporaryTarget ∧ ∀ kind, cause ≠ .unknownNode kind) ∧
    ∀ final nodes, (tokens (expandTags source.toList)).foldlM ParserState.step .start = some final →
      final.finish? = some nodes →
      (∃ node ∈ nodes, ∃ (spot : Spot) (base : Node), node.Occurs spot ∧
        spot.node.form = .index base none ∧ spot.onSpine = false) →
      ∃ line, parse source = .error (final.fault.getD (.parse ⟨.appendRead, line, none⟩)) := by
  refine ⟨fun nodes h => ⟨?_, ?_, ?_⟩, ?_⟩
  · intro node hnode inner hinner
    have hplaced := (allStatements_of_parse h node hnode).shaped inner hinner
    refine ⟨?_, ?_, fun operand hoperand => hplaced .operand operand hoperand, ?_⟩
    · intro target expr hform
      refine (Node.isTarget_iff_root? target).mp (hplaced .target target ?_)
      simp [hform, Form.placed]
    · intro op target expr hform
      refine (Node.isTarget_iff_root? target).mp (hplaced .target target ?_)
      simp [hform, Form.placed]
    · intro name args hform arg harg
      have hfits : arg.form.isArgument = true :=
        hplaced .argument arg (by simp [hform, Form.placed, harg])
      cases hkind : arg.form <;> simp [hkind, Form.isArgument] at hfits
      exact ⟨_, rfl⟩
  · intro node hnode
    refine (Spot.appendRead?_eq_none_iff_appendsOnSpines ⟨false, node⟩).mp ?_
    exact appendReadList?_eq_none_iff.mp (parse_eq_ok h).2 node hnode
  · intro config library path cause line houtcome
    have hallowed := allowed_of_runSource h config library path
    rw [houtcome] at hallowed
    have hproper : cause.isShapeError ≠ true := fun hshape => by simpa using hallowed hshape
    refine ⟨?_, ?_, ?_, ?_⟩
    · rintro rfl
      exact hproper rfl
    · rintro kind rfl
      exact hproper rfl
    · rintro rfl
      exact hproper rfl
    · rintro kind rfl
      exact hproper rfl
  · rintro final nodes hfinal hnodes ⟨node, hnode, spot, base, hoccurs, hform, hspine⟩
    refine parse_of_appendRead hfinal hnodes fun hnone => ?_
    have hread : node.appendRead? false = none := appendReadList?_eq_none_iff.mp hnone node hnode
    have honSpine := (Spot.appendRead?_eq_none_iff_appendsOnSpines ⟨false, node⟩).mp hread
      spot hoccurs base hform
    simp [honSpine] at hspine

theorem shape_errors_unreachable_append :
    (∃ nodes, parse "$a[] = 1;" = .ok nodes) ∧
      (∀ config library path line, (runSource config library "$a[] = 1;" path).1 ≠
        .failed (.error (.misuse .appendRead) line)) ∧
      ∃ line, parse "1 + $a[];" = .error (.parse ⟨.appendRead, line, none⟩) := by
  have htokens : tokens (expandTags "$a[] = 1;".toList) =
      [⟨.variable "a", "$a", 1, 1⟩, ⟨.openBracket, "[", 1, 3⟩, ⟨.closeBracket, "]", 1, 4⟩,
        ⟨.equals, "=", 1, 6⟩, ⟨.int ['1'], "1", 1, 8⟩, ⟨.semicolon, ";", 1, 9⟩] := by
    decide +kernel
  have hparse : parse "$a[] = 1;" = .ok [⟨some 1, .assign
      ⟨some 1, .index ⟨some 1, .variable "a"⟩ none⟩ ⟨some 1, .int 1⟩⟩] := by
    rw [parse, htokens]
    rfl
  have hreading : tokens (expandTags "1 + $a[];".toList) =
      [⟨.int ['1'], "1", 1, 1⟩, ⟨.sign false, "+", 1, 3⟩, ⟨.variable "a", "$a", 1, 5⟩,
        ⟨.openBracket, "[", 1, 7⟩, ⟨.closeBracket, "]", 1, 8⟩, ⟨.semicolon, ";", 1, 9⟩] := by
    decide +kernel
  let element : Node := ⟨some 1, .index ⟨some 1, .variable "a"⟩ none⟩
  let sum : Node := ⟨some 1, .binary .plus ⟨some 1, .int 1⟩ element⟩
  refine ⟨⟨_, hparse⟩, fun config library path line houtcome => ?_, ?_⟩
  · have hrun := ((shape_errors_unreachable "$a[] = 1;").1 _ hparse).2.2
    exact (hrun config library path _ line houtcome).1 rfl
  · refine (shape_errors_unreachable "1 + $a[];").2 ⟨.statement, [.list .program [sum]], none⟩ [sum]
      ?_ rfl ⟨sum, List.mem_cons_self, ⟨false, element⟩, ⟨some 1, .variable "a"⟩, ?_, rfl, rfl⟩
    · rw [hreading]
      rfl
    · exact Relation.ReflTransGen.single (List.mem_cons_of_mem _ List.mem_cons_self)

end WebScript
