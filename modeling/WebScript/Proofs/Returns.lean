import WebScript.Proofs.Exits
import WebScript.Proofs.Frame
import WebScript.Proofs.Moments

/-!
# Where a `return` ends

A `return` leaves statements only: it is caught by the function or the file whose statement it is,
and never passes through the evaluation of an expression. This holds at every moment of every run of
a program that parsing accepts. First, `Activity.Fits` says which roles the nodes of an activity
play, and each activity passes this on to those that it starts; then `ends_activity` says which
activities can let a `return` out; last, a `return` that ends the whole run is traced back to the
statement that raised it.
-/

namespace WebScript

/-! ## Functions at every moment -/

/-- A run beside itself, all of whose functions have been checked. -/
def checkedFunctions : Simulation where
  toValueInvariant := .always
  rel m₁ m₂ := m₁ = m₂ ∧ m₁.functions.Checked true
  excused _ := False
  readable _ := True
  bindable _ := True
  excused_locate _ h := h
  readable_of_bindable _ := trivial
  rel_events events h := ⟨congrArg (·.withEvents events) h.1, h.2⟩
  rel_output text h := ⟨congrArg (·.withOutput text) h.1, h.2⟩
  rel_functions h := congrArg Machine.functions h.1
  rel_callDepth h := congrArg Machine.callDepth h.1
  rel_read {_ _ name} h _ := congrArg (·.scope.get? name) h.1
  rel_generation h hafter := by rw [h.1, hafter.1]
  value_read _ _ _ := trivial
  rel_bind {_ _ name v} h _ _ _ := ⟨congrArg (·.withVariable name v) h.1, h.2⟩

theorem Node.ShapedAs.checked {role : Role} {node : Node} (h : node.ShapedAs role) :
    node.Checked true role :=
  ⟨h, nofun⟩

/-- A function that a shaped node declares has been checked. -/
theorem Node.Shaped.function {line : Option Int} {name : String} {params : List (Param Node)}
    {body : List Node} (h : Node.Shaped ⟨line, .functionDecl name params body⟩) :
    Function.Checked true ⟨name, params, body⟩ := by
  have hplaced := Node.shaped_mk.mp h
  refine ⟨fun node hnode => Node.ShapedAs.checked ?_, fun node hnode => Node.ShapedAs.checked ?_⟩
  · exact hplaced (.operand, node) (List.mem_append_left _ (List.mem_map_of_mem hnode))
  · exact hplaced (.statement, node) (List.mem_append_right _ (List.mem_map_of_mem hnode))

/-- The nodes of a checked function are well shaped. -/
theorem Function.Checked.shaped {function : Function} (h : function.Checked true) :
    ∀ node ∈ Form.paramNodes function.params ++ function.body, node.Shaped :=
  List.forall_mem_append.mpr ⟨fun node hnode => (h.defaults node hnode).shape.shaped,
    fun node hnode => (h.body node hnode).shape.shaped⟩

theorem checkedFunctions_admits : checkedFunctions.Admits Node.Shaped where
  part h hpart := h.child (Form.parts_subset_children _ hpart)
  int _ := trivial
  readable _ := trivial
  valueVar _ := trivial
  keyVar _ := trivial
  assign _ _ := trivial
  compound _ _ := trivial
  function {_ name params body _ _} h hrel := by
    obtain ⟨rfl, hfunctions⟩ := hrel
    refine ⟨rfl, fun entry hentry => ?_⟩
    rcases Dict.mem_insert hentry with rfl | hentry
    · exact h.function
    · exact hfunctions entry hentry

theorem checkedFunctions_nests : checkedFunctions.Nests Node.Shaped where
  body h hfunction := (h.2 _ (Dict.mem_of_get? hfunction)).shaped
  param _ _ _ _ := trivial
  enter h := ⟨congrArg Machine.entering h.1, h.2⟩
  leave hcaller h := ⟨congrArg₂ Machine.leaving h.1 hcaller.1, h.2⟩
  leaveOpen hcaller h := ⟨congrArg₂ Machine.leavingOpen h.1 hcaller.1, h.2⟩
  library h := congrArg Machine.library h.1
  load {m₁ _} path once h :=
    ⟨congrArg (·.withLibrary (Library.loadFrom m₁.library path once).2) h.1, h.2⟩
  program _ hload inner hinner := by
    obtain ⟨source, hsource⟩ := Library.parse_of_loadFrom hload
    exact (allStatements_of_parse hsource inner hinner).shaped

/-! ## Roles at every moment -/

/-- Whether an activity runs statements one after another. -/
def Activity.runsStatements : Activity → Bool
  | .block _ | .body _ | .statements _ => true
  | _ => false

/-- The node is there for its value. -/
def Node.IsValue (node : Node) : Prop := node.ShapedAs .operand ∨ node.ShapedAs .argument

/-- The nodes of an activity fit their roles; a node is evaluated as a statement or for its
    value. -/
def Activity.Fits (asStatement : Bool) : Activity → Prop
  | .eval _ node => if asStatement then node.ShapedAs .statement else node.IsValue
  | .keys target => target.ShapedAs .target
  | .list nodes => ∀ node ∈ nodes, node.IsValue
  | .block nodes | .body nodes | .statements nodes => AllStatements nodes
  | .elseIfs _ clauses => ∀ entry ∈ Form.placedElseIfs clauses, entry.2.ShapedAs entry.1
  | .items _ rest => ∀ node ∈ Form.itemNodes rest, node.ShapedAs .operand
  | .loop _ _ nodes _ => AllStatements nodes
  | .call function _ => function.Checked true
  | .params _ _ rest _ => ∀ node ∈ Form.paramNodes rest, node.ShapedAs .operand
  | .write .. | .file .. => True

/-- What a shaped node starts evaluating fits its role, and is evaluated for its value. -/
theorem fits_of_node {config : Config} {depth : Nat} {reading : Reading} {node : Node}
    {machine : Machine} {second : Moment}
    (h : Starts config ⟨depth, .eval reading node, machine⟩ second) (hnode : node.Shaped)
    (hmachine : machine.functions.Checked true) : second.activity.Fits false := by
  obtain ⟨line, form⟩ := node
  have hplaced := Node.shaped_mk.mp hnode
  have hoperand : ∀ {child : Node}, (Role.operand, child) ∈ form.placed → child.IsValue :=
    fun hchild => Or.inl (hplaced _ hchild)
  have hstatements : ∀ {nodes : List Node},
      (∀ child ∈ nodes, (Role.statement, child) ∈ form.placed) → AllStatements nodes :=
    fun hnodes child hchild => hplaced _ (hnodes child hchild)
  cases h with
  | echo => exact fun child hchild => hoperand (List.mem_map_of_mem hchild)
  | ret | condition | iterated | path | coalesced | left | operand | appended | base | arg =>
    exact hoperand List.mem_cons_self
  | whenNull | right | dim | assigned | updated =>
    exact hoperand (List.mem_cons_of_mem _ List.mem_cons_self)
  | elseIf | loop =>
    exact hstatements fun child hchild => List.mem_cons_of_mem _ (List.mem_map_of_mem hchild)
  | otherwise => exact hstatements fun child hchild => List.mem_map_of_mem hchild
  | whenTrue =>
    exact hstatements fun child hchild => List.mem_append_left _ (List.mem_append_left _
      (List.mem_cons_of_mem _ (List.mem_map_of_mem hchild)))
  | whenFalse =>
    exact fun entry hentry => hplaced entry
      (List.mem_append_left _ (List.mem_append_right _ hentry))
  | whenNone =>
    exact hstatements fun child hchild => List.mem_append_right _ (List.mem_map_of_mem hchild)
  | literal => exact fun child hchild => hplaced (.operand, child) (List.mem_map_of_mem hchild)
  | assignKeys | updateKeys => exact hplaced (.target, _) List.mem_cons_self
  | args hfunction => exact fun child hchild => Or.inr (hplaced _ (List.mem_map_of_mem hchild))
  | call hfunction => exact hmachine _ (Dict.mem_of_get? hfunction)
  | inclusion | assignWrite | updateWrite | coalesceWrite => trivial

/-- Each activity passes on that nodes fit their roles. A node is evaluated as a statement just
    where statements are run one after another, and for its value everywhere else. -/
theorem fits_of_starts {config : Config} {first second : Moment} (h : Starts config first second)
    {asStatement : Bool} (hfirst : first.activity.Fits asStatement)
    (hmachine : first.machine.functions.Checked true) :
    second.activity.Fits first.activity.runsStatements := by
  obtain ⟨depth, activity, machine⟩ := first
  cases activity with
  | eval reading node =>
    refine fits_of_node h ?_ hmachine
    cases asStatement with
    | true => exact hfirst.shaped
    | false => exact Or.elim hfirst (·.shaped) (·.shaped)
  | keys target =>
    have htarget : target.ShapedAs .target := hfirst
    cases h with
    | outerKeys => exact htarget.checked.spine.1.shape
    | key => exact Or.inl (htarget.checked.spine.2 _ rfl).shape
  | list nodes =>
    cases h with
    | listHead => exact hfirst _ List.mem_cons_self
    | listTail => exact fun node hnode => hfirst node (List.mem_cons_of_mem _ hnode)
  | block nodes =>
    cases h with
    | blockHead => exact hfirst _ List.mem_cons_self
    | blockTail => exact fun node hnode => hfirst node (List.mem_cons_of_mem _ hnode)
  | elseIfs found clauses =>
    cases h with
    | clauseCondition => exact Or.inl (hfirst _ (List.mem_append_left _ List.mem_cons_self))
    | clauseBody =>
      exact fun node hnode => hfirst (.statement, node)
        (List.mem_append_left _ (List.mem_cons_of_mem _ (List.mem_map_of_mem hnode)))
    | clausesAfterBody | clausesAfterCondition =>
      exact fun entry hentry => hfirst entry (List.mem_append_right _ hentry)
  | items table rest =>
    cases h with
    | itemValue => exact Or.inl (hfirst _ (List.mem_append_left _ List.mem_cons_self))
    | itemKey =>
      exact Or.inl (hfirst _
        (List.mem_append_left _ (List.mem_cons_of_mem _ List.mem_cons_self)))
    | itemAppended | itemSet =>
      exact fun node hnode => hfirst node (List.mem_append_right _ hnode)
  | loop valueVar keyVar nodes entries => cases h <;> exact hfirst
  | write name path value => cases h
  | call function args =>
    have hfunction : function.Checked true := hfirst
    cases h with
    | callParams => exact fun node hnode => (hfunction.defaults node hnode).shape
    | callBody => exact fun node hnode => (hfunction.body node hnode).shape
  | params function passed rest args =>
    cases h with
    | paramDefault hdefault =>
      exact Or.inl (hfirst _ (Form.mem_paramNodes List.mem_cons_self hdefault))
    | paramPassed | paramDefaulted =>
      exact fun node hnode => hfirst node (List.mem_append_right _ hnode)
  | body nodes =>
    cases h with
    | bodyHead => exact hfirst _ List.mem_cons_self
    | bodyTail => exact fun node hnode => hfirst node (List.mem_cons_of_mem _ hnode)
  | file path once fatal =>
    cases h with
    | included hload =>
      obtain ⟨source, hsource⟩ := Library.parse_of_loadFrom (congrArg Prod.fst hload)
      exact allStatements_of_parse hsource
  | statements nodes =>
    cases h with
    | statementsHead => exact hfirst _ List.mem_cons_self
    | statementsTail => exact fun node hnode => hfirst node (List.mem_cons_of_mem _ hnode)

/-- A moment at which all functions have been checked and all nodes fit their roles. -/
structure Moment.Fits (moment : Moment) : Prop where
  admitted : moment.Admitted checkedFunctions Node.Shaped
  activity : ∃ asStatement, moment.activity.Fits asStatement

theorem Moment.Fits.functions {moment : Moment} (h : moment.Fits) :
    moment.machine.functions.Checked true :=
  h.admitted.1.2

/-- What starts at a moment with fitting roles has fitting roles, and the functions stay checked. -/
theorem Moment.Fits.starts {config : Config} {first second : Moment} (h : first.Fits)
    (hstarts : Starts config first second) : second.Fits := by
  obtain ⟨asStatement, hactivity⟩ := h.activity
  refine ⟨?_, _, fits_of_starts hstarts hactivity h.functions⟩
  exact Simulation.admitted_of_starts checkedFunctions_admits checkedFunctions_nests
    (fun _ hexcused => hexcused) config hstarts h.admitted

/-- All moments of a run have fitting roles if the first one has. -/
theorem Moment.Fits.leads {config : Config} {start moment : Moment} (h : start.Fits)
    (hleads : start.Leads config moment) : moment.Fits := by
  induction hleads with
  | refl => exact h
  | tail _ hstarts ih => exact ih.starts hstarts

/-! ## Activities that let a `return` out -/

/-- Whether an activity can let a `return` out: it evaluates statements that are not all those of a
    function or of a file. -/
def Activity.mayReturn (asStatement : Bool) : Activity → Bool
  | .eval .. => asStatement
  | .block _ | .elseIfs .. | .loop .. | .statements _ => true
  | _ => false

section

open Eval

variable {config : Config} {depth : Nat}

/-- A node that is evaluated for its value lets no `return` out. -/
theorem Node.IsValue.ends {node : Node} (h : node.IsValue) (reading : Reading) :
    Ends true false (node.evalAt config depth reading) := by
  have hnode := Node.endsWell (endsByRole_evalWithin true config depth) node
  rcases h with h | h
  · exact hnode.eval h.checked nofun reading
  · exact hnode.eval h.checked nofun reading

/-- A statement lets a `return` out only where the configuration hands it over so. -/
theorem Node.ShapedAs.endsStatement {node : Node} (h : node.ShapedAs .statement)
    (reading : Reading) : Ends true config.propagateReturn (node.evalAt config depth reading) :=
  ((Node.endsWell (endsByRole_evalWithin true config depth) node).eval h.checked nofun
    reading).mono (by simp)

theorem AllStatements.ends {nodes : List Node} (h : AllStatements nodes) :
    Ends true config.propagateReturn (evalBlock config (evalWithin config depth) nodes) :=
  ends_evalBlock fun node hnode => (h node hnode).endsStatement .strict

theorem AllStatements.endsWithin {nodes : List Node} (h : AllStatements nodes) :
    ∀ node ∈ nodes, Ends true config.propagateReturn (evalWithin config depth node) :=
  fun node hnode =>
    (endsByRole_evalWithin true config depth (h node hnode).checked nofun).mono (by simp)

theorem ends_clauses {found : Bool} {clauses : List (ElseIf Node)}
    (h : ∀ entry ∈ Form.placedElseIfs clauses, entry.2.ShapedAs entry.1) :
    Ends true config.propagateReturn
      (evalElseIfs config (evalWithin config depth) found clauses) := by
  refine ends_evalElseIfs fun node hnode => ?_
  rw [← Form.map_snd_placedElseIfs] at hnode
  obtain ⟨entry, hentry, rfl⟩ := List.mem_map.mp hnode
  exact ((Node.endsWell (endsByRole_evalWithin true config depth) entry.2).eval
    (h entry hentry).checked (ne_target_of_mem_placedElseIfs hentry) .strict).mono (by simp)

/-- Which activities can let a `return` out. -/
theorem ends_activity {activity : Activity} {asStatement : Bool} (h : activity.Fits asStatement) :
    Ends true (activity.mayReturn asStatement && config.propagateReturn)
      (activity.run config depth) := by
  have hdeeper : EndsByRole true config (evalWithin config depth) :=
    endsByRole_evalWithin true config depth
  cases activity with
  | eval reading node =>
    cases asStatement with
    | true =>
      have hnode : node.ShapedAs .statement := h
      exact ((hnode.endsStatement reading).mono (by simp [Activity.mayReturn])).andThen
        fun _ => .ofValue _
    | false => exact (Node.IsValue.ends h reading).andThen fun _ => .ofValue _
  | keys target =>
    have htarget : target.ShapedAs .target := h
    exact ((Node.endsWell hdeeper target).keys htarget.checked).andThen fun _ => .ofValue _
  | list nodes => exact ends_evalList fun node hnode => (h node hnode).ends .strict
  | block nodes => exact (AllStatements.ends h).andThen fun _ => .ofValue _
  | elseIfs found clauses => exact (ends_clauses h).andThen fun _ => .ofValue _
  | items table rest =>
    refine (ends_evalItems fun node hnode => ?_).andThen fun _ => .ofValue _
    exact Node.IsValue.ends (Or.inl (h node hnode)) .strict
  | loop valueVar keyVar nodes entries =>
    exact (ends_forEntries (AllStatements.ends h) entries).andThen fun _ => .ofValue _
  | write name path value => exact (Ends.writeElement name path value).andThen fun _ => .ofValue _
  | call function args => exact (ends_callFunction hdeeper h args).andThen fun _ => .ofValue _
  | params function passed rest args =>
    refine (ends_bindParams function passed fun node hnode => ?_).andThen fun _ => .ofValue _
    have hnode : node.ShapedAs .operand := h node hnode
    exact hdeeper hnode.checked nofun
  | body nodes =>
    exact (ends_runBody (AllStatements.endsWithin h)).andThen fun _ => .ofValue _
  | file path once fatal =>
    exact (ends_includeFile hdeeper path once fatal).andThen fun _ => .ofValue _
  | statements nodes =>
    exact (ends_runStatements (AllStatements.endsWithin h)).andThen fun _ => .ofValue _

/-- The activity of a moment lets a `return` out. -/
def Moment.Returns (config : Config) (moment : Moment) (value : Value) : Prop :=
  ∃ after, moment.activity.run config moment.depth moment.machine = .error (.returned value) after

/-- An action that lets no `return` out returns no value at its moment. -/
theorem not_returns {moment : Moment} {value : Value}
    (hmachine : moment.machine.functions.Checked true)
    (h : Ends true false (moment.activity.run config moment.depth)) :
    ¬ moment.Returns config value := by
  rintro ⟨after, hafter⟩
  have hends := h _ hmachine
  rw [hafter] at hends
  exact absurd hends.2 Bool.false_ne_true

/-! ## The statement that raised a `return` -/

/-- Whether an activity belongs to the text that is running: it is neither a call nor an
    inclusion. -/
def Activity.inText : Activity → Bool
  | .call .. | .file .. => false
  | _ => true

/-- The second moment belongs to the run that starts at the first, and lies neither in a call nor in
    an inclusion. -/
def Moment.LeadsInText (config : Config) : Moment → Moment → Prop :=
  Relation.ReflTransGen fun first second =>
    Starts config first second ∧ second.activity.inText = true

/-- The statements directly inside an `if` or a loop. -/
def Form.bodies {ν : Type} : Form ν → List ν
  | .conditional _ body elseIfs last =>
    body ++ elseIfs.flatMap (fun clause => clause.body) ++ otherwiseNodes last
  | .foreach _ _ body _ => body
  | _ => []

theorem Form.mem_placed_of_mem_bodies {ν : Type} {form : Form ν} {child : ν}
    (h : child ∈ form.bodies) : (Role.statement, child) ∈ form.placed := by
  cases form with
  | conditional cond body elseIfs last =>
    simp only [Form.bodies, List.mem_append, List.mem_flatMap] at h
    simp only [Form.placed, Form.placedElseIfs, List.mem_append, List.mem_cons, List.mem_flatMap]
    rcases h with (h | ⟨clause, hclause, h⟩) | h
    · exact Or.inl (Or.inl (Or.inr (List.mem_map_of_mem h)))
    · exact Or.inl (Or.inr ⟨clause, hclause, Or.inr (List.mem_map_of_mem h)⟩)
    · exact Or.inr (List.mem_map_of_mem h)
  | foreach expr valueVar body keyVar => exact List.mem_cons_of_mem _ (List.mem_map_of_mem h)
  | _ => cases h

/-- `inner` is `outer` itself or a statement in an `if` or a loop there. -/
def Node.NestedIn (inner outer : Node) : Prop :=
  Relation.ReflTransGen (fun outer inner => inner ∈ outer.form.bodies) outer inner

/-- After a moment, and neither in a call nor in an inclusion, a `return` statement of a text is
    executed and gives a value. -/
def ReturnsAfter (config : Config) (start : Moment) (node : Node) (value : Value) : Prop :=
  ∃ (moment : Moment) (line : Option Int) (expr : Option Node),
    start.LeadsInText config moment ∧ moment.activity = .eval .strict ⟨line, .ret expr⟩ ∧
      moment.Returns config value ∧ Node.NestedIn ⟨line, .ret expr⟩ node

/-- A `return` that is raised after a moment is raised after the moments that lead there within the
    text. -/
theorem ReturnsAfter.head {first second : Moment} {node : Node} {value : Value}
    (h : ReturnsAfter config second node value) (hstarts : Starts config first second)
    (htext : second.activity.inText = true) : ReturnsAfter config first node value := by
  obtain ⟨moment, line, expr, hleads, hrest⟩ := h
  exact ⟨moment, line, expr, .head ⟨hstarts, htext⟩ hleads, hrest⟩

/-- A `return` from inside a statement is one from the statements around it. -/
theorem ReturnsAfter.outer {start : Moment} {inner outer : Node} {value : Value}
    (h : ReturnsAfter config start inner value) (hinner : inner ∈ outer.form.bodies) :
    ReturnsAfter config start outer value := by
  obtain ⟨moment, line, expr, hleads, hactivity, hreturns, hnested⟩ := h
  exact ⟨moment, line, expr, hleads, hactivity, hreturns, .head hinner hnested⟩

/-- What ends with a value before something that returns keeps the functions checked. -/
theorem Eval.Ends.checked_of_ok {α : Type} {returns : Bool} {action : Eval α} {value : α}
    {machine after : Machine} (h : Ends true returns action)
    (hmachine : machine.functions.Checked true) (hrun : action machine = .ok value after) :
    after.functions.Checked true := by
  have hends := h machine hmachine
  rw [hrun] at hends
  exact hends

/-- An action that lets no `return` out does not end with one. -/
theorem Eval.Ends.not_returned {α : Type} {action : Eval α} {value : Value}
    {machine after : Machine} (h : Ends true false action)
    (hmachine : machine.functions.Checked true) :
    action machine ≠ .error (.returned value) after := by
  intro hrun
  have hends := h machine hmachine
  rw [hrun] at hends
  exact absurd hends.2 Bool.false_ne_true

/-- Evaluating a node returns only by way of a `return` statement of its text. -/
def Node.ReturnsByStatement (config : Config) (depth : Nat) (node : Node) : Prop :=
  ∀ (machine after : Machine) (value : Value), machine.functions.Checked true →
    node.evalAt config depth .strict machine = .error (.returned value) after →
    ReturnsAfter config ⟨depth, .eval .strict node, machine⟩ node value

/-- How one action after another ends with an exit: the first does, or the second after it. -/
theorem bind_eq_error {α β : Type} {first : Eval α} {next : α → Eval β} {machine after : Machine}
    {exit : Exit} (h : (first >>= next) machine = .error exit after) :
    first machine = .error exit after ∨
      ∃ value before, first machine = .ok value before ∧ next value before = .error exit after := by
  simp only [bind, EStateM.bind] at h
  cases hfirst : first machine with
  | ok value before =>
    rw [hfirst] at h
    exact Or.inr ⟨value, before, rfl, h⟩
  | error found before =>
    rw [hfirst] at h
    cases h
    exact Or.inl rfl

/-- A line is given to errors and leaves a `return` alone. -/
theorem located_eq_returned {α : Type} {line : Option Int} {action : Eval α}
    {machine after : Machine} {value : Value}
    (h : Eval.located line action machine = .error (.returned value) after) :
    action machine = .error (.returned value) after := by
  unfold Eval.located at h
  split at h
  · cases h
  · rename_i exit before hrun
    simp only [EStateM.Result.error.injEq] at h
    rw [hrun, Simulation.returned_of_locate h.1, h.2]

/-- A `return` out of a block comes from one of its statements. -/
theorem returnsAfter_block {nodes : List Node} {machine after : Machine} {value : Value}
    (hnodes : AllStatements nodes) (ih : ∀ node ∈ nodes, node.ReturnsByStatement config depth)
    (hmachine : machine.functions.Checked true)
    (h : evalBlock config (evalWithin config depth) nodes machine =
      .error (.returned value) after) :
    ∃ node ∈ nodes, ReturnsAfter config ⟨depth, .block nodes, machine⟩ node value := by
  induction nodes generalizing machine with
  | nil =>
    rw [evalBlock] at h
    cases h
  | cons node rest ihrest =>
    obtain ⟨hnode, hrest⟩ := List.forall_mem_cons.mp hnodes
    obtain ⟨ihnode, ihothers⟩ := List.forall_mem_cons.mp ih
    rw [evalBlock] at h
    rcases bind_eq_error h with h | ⟨found, before, hrun, h⟩
    · exact ⟨node, List.mem_cons_self, (ihnode _ _ _ hmachine h).head .blockHead rfl⟩
    · have hbefore := (hnode.endsStatement .strict).checked_of_ok hmachine hrun
      obtain ⟨other, hother, hreturns⟩ := ihrest hrest ihothers hbefore h
      exact ⟨other, List.mem_cons_of_mem _ hother, hreturns.head (.blockTail hrun) rfl⟩

/-- A `return` out of further conditions comes from a statement of one of their bodies, for the
    conditions let none out. -/
theorem returnsAfter_elseIfs {clauses : List (ElseIf Node)} {found : Bool}
    {machine after : Machine} {value : Value}
    (hclauses : ∀ entry ∈ Form.placedElseIfs clauses, entry.2.ShapedAs entry.1)
    (ih : ∀ clause ∈ clauses, ∀ node ∈ clause.body, node.ReturnsByStatement config depth)
    (hmachine : machine.functions.Checked true)
    (h : evalElseIfs config (evalWithin config depth) found clauses machine =
      .error (.returned value) after) :
    ∃ clause ∈ clauses, ∃ node ∈ clause.body,
      ReturnsAfter config ⟨depth, .elseIfs found clauses, machine⟩ node value := by
  induction clauses generalizing found machine with
  | nil =>
    rw [evalElseIfs] at h
    cases h
  | cons clause rest ihrest =>
    obtain ⟨line, cond, body⟩ := clause
    obtain ⟨hclause, hrest⟩ := List.forall_mem_append.mp hclauses
    obtain ⟨hcond, hbody⟩ := List.forall_mem_cons.mp hclause
    obtain ⟨ihbody, ihothers⟩ := List.forall_mem_cons.mp ih
    have hvalue : Node.IsValue cond := Or.inl hcond
    have hstatements : AllStatements body := fun node hnode =>
      hbody (.statement, node) (List.mem_map_of_mem hnode)
    have hlater : ∀ {later : Bool} {before : Machine}, before.functions.Checked true →
        evalElseIfs config (evalWithin config depth) later rest before =
          .error (.returned value) after →
        Starts config ⟨depth, .elseIfs found (⟨line, cond, body⟩ :: rest), machine⟩
          ⟨depth, .elseIfs later rest, before⟩ →
        ∃ clause ∈ ⟨line, cond, body⟩ :: rest, ∃ node ∈ clause.body, ReturnsAfter config
          ⟨depth, .elseIfs found (⟨line, cond, body⟩ :: rest), machine⟩ node value := by
      intro later before hbefore h hstarts
      obtain ⟨clause, hclause, node, hnode, hreturns⟩ := ihrest hrest ihothers hbefore h
      exact ⟨clause, List.mem_cons_of_mem _ hclause, node, hnode, hreturns.head hstarts rfl⟩
    rw [evalElseIfs] at h
    split at h
    · cases h
    · rename_i hfound
      rw [Bool.not_eq_true] at hfound
      rcases bind_eq_error h with h | ⟨test, before, htest, h⟩
      · exact absurd h ((hvalue.ends .strict).not_returned hmachine)
      · have hbefore := (hvalue.ends .strict).checked_of_ok hmachine htest
        split at h
        · rename_i hholds
          rcases bind_eq_error h with h | ⟨_, done, hdone, h⟩
          · obtain ⟨node, hnode, hreturns⟩ := returnsAfter_block hstatements ihbody hbefore h
            exact ⟨_, List.mem_cons_self, node, hnode,
              hreturns.head (.clauseBody hfound htest hholds) rfl⟩
          · have hafter := hstatements.ends.checked_of_ok hbefore hdone
            exact hlater hafter h (.clausesAfterBody hfound htest hholds hdone)
        · rename_i hholds
          rw [Bool.not_eq_true] at hholds
          exact hlater hbefore h (.clausesAfterCondition hfound htest hholds)

/-- A `return` out of a loop comes from a statement of its body, in some round. -/
theorem returnsAfter_loop {valueVar : String} {keyVar : Option String} {nodes : List Node}
    {entries : List (Key × Value)} {machine after : Machine} {value : Value}
    (hnodes : AllStatements nodes) (ih : ∀ node ∈ nodes, node.ReturnsByStatement config depth)
    (hmachine : machine.functions.Checked true)
    (h : Eval.forEntries valueVar keyVar (evalBlock config (evalWithin config depth) nodes) entries
      machine = .error (.returned value) after) :
    ∃ node ∈ nodes,
      ReturnsAfter config ⟨depth, .loop valueVar keyVar nodes entries, machine⟩ node value := by
  induction entries generalizing machine with
  | nil => cases h
  | cons entry rest ihrest =>
    have hbind : Ends true false (Eval.forEntries valueVar keyVar (pure ()) [entry]) :=
      ends_forEntries (.ofValue ()) [entry]
    rw [forEntries_cons] at h
    rcases bind_eq_error h with h | ⟨_, bound, hbound, h⟩
    · exact absurd h (hbind.not_returned hmachine)
    · have hchecked := hbind.checked_of_ok hmachine hbound
      rcases bind_eq_error h with h | ⟨_, before, hdone, h⟩
      · obtain ⟨node, hnode, hreturns⟩ := returnsAfter_block hnodes ih hchecked h
        exact ⟨node, hnode, hreturns.head (.loopBody hbound) rfl⟩
      · obtain ⟨node, hnode, hreturns⟩ :=
          ihrest (hnodes.ends.checked_of_ok hchecked hdone) h
        exact ⟨node, hnode, hreturns.head (.loopRest (forEntries_single hbound hdone)) rfl⟩

theorem Moment.returns_eval {reading : Reading} {node : Node} {machine after : Machine}
    {value : Value}
    (h : node.evalAt config depth reading machine = .error (.returned value) after) :
    Moment.Returns config ⟨depth, .eval reading node, machine⟩ value := by
  refine ⟨after, ?_⟩
  simp only [Activity.run, bind, EStateM.bind, h]

/-- A `return` out of an `if` comes from the body that is chosen. -/
theorem returnsAfter_conditional {line : Option Int} {cond : Node} {body : List Node}
    {elseIfs : List (ElseIf Node)} {last : Option (Else Node)} {machine after : Machine}
    {value : Value} (h : Node.Shaped ⟨line, .conditional cond body elseIfs last⟩)
    (ih : ∀ node ∈ Form.bodies (.conditional cond body elseIfs last),
      node.ReturnsByStatement config depth)
    (hmachine : machine.functions.Checked true)
    (hrun : Node.evalAt config depth .strict ⟨line, .conditional cond body elseIfs last⟩ machine =
      .error (.returned value) after) :
    ReturnsAfter config ⟨depth, .eval .strict ⟨line, .conditional cond body elseIfs last⟩, machine⟩
      ⟨line, .conditional cond body elseIfs last⟩ value := by
  have hplaced := Node.shaped_mk.mp h
  simp only [Form.placed, List.cons_append, List.forall_mem_cons, List.forall_mem_append,
    List.forall_mem_map] at hplaced
  obtain ⟨hcond, ⟨hbody, hclauses⟩, hlast⟩ := hplaced
  simp only [Form.bodies, List.forall_mem_append] at ih
  obtain ⟨⟨ihbody, ihclauses⟩, ihlast⟩ := ih
  have hvalue : cond.IsValue := Or.inl hcond
  rw [Node.evalAt, Node.evalAs] at hrun
  rcases bind_eq_error (located_eq_returned hrun) with hrun | ⟨test, before, htest, hrun⟩
  · exact absurd hrun ((hvalue.ends .strict).not_returned hmachine)
  have hbefore := (hvalue.ends .strict).checked_of_ok hmachine htest
  split at hrun
  · rename_i htrue
    rcases bind_eq_error hrun with hrun | ⟨_, done, -, hrun⟩
    · obtain ⟨node, hnode, hreturns⟩ := returnsAfter_block hbody ihbody hbefore hrun
      refine (hreturns.outer ?_).head (.whenTrue htest htrue) rfl
      exact List.mem_append_left _ (List.mem_append_left _ hnode)
    · cases hrun
  · rename_i hfalse
    rw [Bool.not_eq_true] at hfalse
    rcases bind_eq_error hrun with hrun | ⟨found, tried, htried, hrun⟩
    · obtain ⟨clause, hclause, node, hnode, hreturns⟩ := returnsAfter_elseIfs hclauses
        (fun clause hclause node hnode =>
          ihclauses node (List.mem_flatMap.mpr ⟨clause, hclause, hnode⟩)) hbefore hrun
      refine (hreturns.outer ?_).head (.whenFalse htest hfalse) rfl
      exact List.mem_append_left _ (List.mem_append_right _
        (List.mem_flatMap.mpr ⟨clause, hclause, hnode⟩))
    · have hchecked := (ends_clauses hclauses).checked_of_ok hbefore htried
      cases last with
      | none => cases hrun
      | some clause =>
        cases found with
        | true => cases hrun
        | false =>
          rcases bind_eq_error hrun with hrun | ⟨_, done, -, hrun⟩
          · obtain ⟨node, hnode, hreturns⟩ := returnsAfter_block hlast ihlast hchecked hrun
            refine (hreturns.outer ?_).head (.whenNone htest hfalse htried) rfl
            exact List.mem_append_right _ hnode
          · cases hrun

/-- A `return` out of a loop comes from its body, for the array lets none out. -/
theorem returnsAfter_foreach {line : Option Int} {expr : Node} {valueVar : String}
    {body : List Node} {keyVar : Option String} {machine after : Machine} {value : Value}
    (h : Node.Shaped ⟨line, .foreach expr valueVar body keyVar⟩)
    (ih : ∀ node ∈ body, node.ReturnsByStatement config depth)
    (hmachine : machine.functions.Checked true)
    (hrun : Node.evalAt config depth .strict ⟨line, .foreach expr valueVar body keyVar⟩ machine =
      .error (.returned value) after) :
    ReturnsAfter config ⟨depth, .eval .strict ⟨line, .foreach expr valueVar body keyVar⟩, machine⟩
      ⟨line, .foreach expr valueVar body keyVar⟩ value := by
  have hplaced := Node.shaped_mk.mp h
  simp only [Form.placed, List.forall_mem_cons, List.forall_mem_map] at hplaced
  obtain ⟨hexpr, hbody⟩ := hplaced
  have hvalue : expr.IsValue := Or.inl hexpr
  rw [Node.evalAt, Node.evalAs] at hrun
  rcases bind_eq_error (located_eq_returned hrun) with hrun | ⟨found, before, hfound, hrun⟩
  · exact absurd hrun ((hvalue.ends .strict).not_returned hmachine)
  have hbefore := (hvalue.ends .strict).checked_of_ok hmachine hfound
  cases found with
  | array table =>
    rcases bind_eq_error hrun with hrun | ⟨_, done, -, hrun⟩
    · obtain ⟨node, hnode, hreturns⟩ := returnsAfter_loop hbody ih hbefore hrun
      refine (hreturns.outer ?_).head (.loop hfound) rfl
      exact hnode
    · cases hrun
  | _ => cases hrun

/-- One case per kind of statement: a statement that returns is a `return`, or runs one that
    does. -/
theorem Node.returnsByStatement {node : Node} (h : node.ShapedAs .statement) :
    node.ReturnsByStatement config depth := by
  induction node using Node.inductionOnChildren with
  | step node ih =>
    obtain ⟨line, form⟩ := node
    intro machine after value hmachine hrun
    have hplaced := Node.shaped_mk.mp h.shaped
    have hinner : ∀ {child : Node}, (Role.statement, child) ∈ form.placed →
        child.ReturnsByStatement config depth := by
      intro child hchild
      refine ih child ?_ (hplaced _ hchild)
      show child ∈ form.children
      rw [← Form.map_snd_placed]
      exact List.mem_map_of_mem hchild
    cases hexpression : form.isExpression with
    | true =>
      have hvalue : Node.IsValue ⟨line, form⟩ := Or.inl ⟨hexpression, h.shaped⟩
      exact absurd hrun ((hvalue.ends .strict).not_returned hmachine)
    | false =>
      cases form with
      | echo exprs =>
        have hends : Ends true false (Node.evalAt config depth .strict ⟨line, .echo exprs⟩) :=
          ends_echo .strict line fun expr hexpr =>
            Node.IsValue.ends (Or.inl (hplaced _ (List.mem_map_of_mem hexpr))) .strict
        exact absurd hrun (hends.not_returned hmachine)
      | nop => cases hrun
      | ret expr => exact ⟨_, line, expr, .refl, rfl, Moment.returns_eval hrun, .refl⟩
      | conditional cond body elseIfs last =>
        refine returnsAfter_conditional h.shaped (fun node hnode => ?_) hmachine hrun
        exact hinner (Form.mem_placed_of_mem_bodies hnode)
      | foreach expr valueVar body keyVar =>
        refine returnsAfter_foreach h.shaped (fun node hnode => ?_) hmachine hrun
        exact hinner (Form.mem_placed_of_mem_bodies hnode)
      | functionDecl name params body =>
        have hends : Ends true false
            (Node.evalAt config depth .strict ⟨line, .functionDecl name params body⟩) :=
          ends_functionDecl .strict line h.shaped.function
        exact absurd hrun (hends.not_returned hmachine)
      | elseIf | otherwise | param | arrayItem | arg | bare => cases h.fits
      | _ => cases hexpression

/-- A `return` out of statements of a program comes from one of them. -/
theorem returnsAfter_statements {nodes : List Node} {machine after : Machine} {value : Value}
    (hnodes : AllStatements nodes) (hmachine : machine.functions.Checked true)
    (h : runStatements (evalWithin config depth) nodes machine = .error (.returned value) after) :
    ∃ node ∈ nodes, ReturnsAfter config ⟨depth, .statements nodes, machine⟩ node value := by
  induction nodes generalizing machine with
  | nil => cases h
  | cons node rest ih =>
    obtain ⟨hnode, hrest⟩ := List.forall_mem_cons.mp hnodes
    rcases bind_eq_error h with h | ⟨found, before, hrun, h⟩
    · cases depth with
      | zero => cases h
      | succ depth =>
        exact ⟨node, List.mem_cons_self,
          (Node.returnsByStatement hnode _ _ _ hmachine h).head .statementsHead rfl⟩
    · have hbefore := (hnodes.endsWithin node List.mem_cons_self).checked_of_ok hmachine hrun
      obtain ⟨other, hother, hreturns⟩ := ih hrest hbefore h
      exact ⟨other, List.mem_cons_of_mem _ hother, hreturns.head (.statementsTail hrun) rfl⟩

end

/-! ## Whole runs -/

/-- A parsed program starts with fitting roles and no functions. -/
theorem Moment.fits_ofProgram {source : String} {nodes : List Node}
    (h : parse source = .ok nodes) (config : Config) (library : Library) :
    (Moment.ofProgram config library nodes).Fits := by
  have hnodes := allStatements_of_parse h
  have hfunctions : (Moment.ofProgram config library nodes).machine.functions.Checked true := by
    unfold Moment.ofProgram
    rw [Machine.functions_writeListing]
    exact FunctionTable.checked_empty true
  exact ⟨⟨⟨rfl, hfunctions⟩, fun node hnode => (hnodes node hnode).shaped⟩, true, hnodes⟩

/-- The run of an accepted source that ends with a `return` is one of its statements. -/
theorem returned_of_runSource {source : String} {nodes : List Node}
    (h : parse source = .ok nodes) {config : Config} {library : Library} {path : Option String}
    {value : Value} (hrun : (runSource config library source path).1 = .returned value) :
    ∃ marked after, library.forRun path = .ok marked ∧
      runStatements (evalNode config) nodes
        ((Machine.start (some marked)).writeListing config nodes) =
          .error (.returned value) after := by
  rw [runSource_of_parse h] at hrun
  cases hmarked : library.forRun path with
  | error limit =>
    rw [hmarked] at hrun
    cases hrun
  | ok marked =>
    rw [hmarked] at hrun
    simp only [evalProgram] at hrun
    refine ⟨marked, ?_⟩
    generalize runStatements (evalNode config) nodes _ = ends at hrun ⊢
    cases ends with
    | ok value after => cases hrun
    | error exit after =>
      cases exit with
      | returned found =>
        cases hrun
        exact ⟨after, rfl, rfl⟩
      | fault fault => cases hrun

/-- Whether an activity calls a function or includes a file, or evaluates a node that does. -/
def Activity.isCallOrInclusion : Activity → Bool
  | .eval _ ⟨_, .call ..⟩ | .eval _ ⟨_, .require ..⟩ | .call .. | .file .. => true
  | _ => false

/-- An expression is evaluated for its value, even as a statement. -/
theorem Activity.Fits.isValue {asStatement : Bool} {reading : Reading} {node : Node}
    (h : (Activity.eval reading node).Fits asStatement) (hkind : node.form.isExpression = true) :
    node.IsValue := by
  cases asStatement with
  | true => exact Or.inl ⟨hkind, h.shaped⟩
  | false => exact h

/-- Calls and inclusions let no `return` out. -/
theorem ends_callOrInclusion {config : Config} {depth : Nat} {activity : Activity}
    {asStatement : Bool} (h : activity.Fits asStatement)
    (hkind : activity.isCallOrInclusion = true) :
    Eval.Ends true false (activity.run config depth) := by
  unfold Activity.isCallOrInclusion at hkind
  split at hkind
  · exact ((Activity.Fits.isValue h rfl).ends _).andThen fun _ => .ofValue _
  · exact ((Activity.Fits.isValue h rfl).ends _).andThen fun _ => .ofValue _
  · exact ends_activity h
  · exact ends_activity h
  · cases hkind

/-- A `return` does not leave the statements of its function or file. During the run of an accepted
    program, whatever the files and the configuration: a node that is evaluated anywhere but in a
    row of statements lets no `return` out, nor does a call, the inclusion of a file, or a node that
    calls or includes; the run as a whole gives a value only if a `return` statement of the program
    was executed, at the top or inside `if` and `foreach`, and not in a call or an inclusion. If the
    configuration keeps `return` from ending more than its own statement, nothing lets one out. -/
theorem returns_contained {source : String} {nodes : List Node} (h : parse source = .ok nodes)
    (config : Config) :
    (∀ (library : Library) (first second : Moment) (reading : Reading) (node : Node)
        (value : Value), (Moment.ofProgram config library nodes).Leads config first →
        Starts config first second → second.activity = .eval reading node →
        first.activity.runsStatements = false → ¬ second.Returns config value) ∧
    (∀ (library : Library) (moment : Moment) (value : Value),
        (Moment.ofProgram config library nodes).Leads config moment →
        moment.activity.isCallOrInclusion = true → ¬ moment.Returns config value) ∧
    (∀ (library : Library) (path : Option String) (value : Value),
        (runSource config library source path).1 = .returned value →
        ∃ marked, library.forRun path = .ok marked ∧ ∃ node ∈ nodes,
          ReturnsAfter config (Moment.ofProgram config marked nodes) node value) ∧
    (config.propagateReturn = false →
      (∀ (library : Library) (moment : Moment) (value : Value),
        (Moment.ofProgram config library nodes).Leads config moment →
        ¬ moment.Returns config value) ∧
      ∀ (library : Library) (path : Option String) (value : Value),
        (runSource config library source path).1 ≠ .returned value) := by
  refine ⟨?_, ?_, ?_, fun hswitch => ⟨?_, ?_⟩⟩
  · intro library first second reading node value hleads hstarts hactivity hrow
    have hfirst := (Moment.fits_ofProgram h config library).leads hleads
    obtain ⟨asStatement, hfits⟩ := hfirst.activity
    have hsecond := fits_of_starts hstarts hfits hfirst.functions
    rw [hrow] at hsecond
    have hends := @ends_activity config second.depth _ _ hsecond
    rw [hactivity] at hends
    refine not_returns (hfirst.starts hstarts).functions ?_
    rw [hactivity]
    exact hends
  · intro library moment value hleads hkind
    have hmoment := (Moment.fits_ofProgram h config library).leads hleads
    obtain ⟨asStatement, hfits⟩ := hmoment.activity
    exact not_returns hmoment.functions (ends_callOrInclusion hfits hkind)
  · intro library path value hrun
    obtain ⟨marked, after, hmarked, hrun⟩ := returned_of_runSource h hrun
    refine ⟨marked, hmarked, returnsAfter_statements (allStatements_of_parse h) ?_ hrun⟩
    exact (Moment.fits_ofProgram h config marked).functions
  · intro library moment value hleads
    have hmoment := (Moment.fits_ofProgram h config library).leads hleads
    obtain ⟨asStatement, hfits⟩ := hmoment.activity
    refine not_returns hmoment.functions ?_
    simpa [hswitch] using @ends_activity config moment.depth _ _ hfits
  · intro library path value hrun
    have hallowed := allowed_of_runSource h config library path
    rw [hrun, hswitch] at hallowed
    exact absurd hallowed Bool.false_ne_true

theorem returns_contained_if :
    let node : Node := ⟨some 1, .conditional ⟨some 1, .int 1⟩
      [⟨some 1, .ret (some ⟨some 1, .int 2⟩)⟩] [] none⟩
    parse "if (1) return 2;" = .ok [node] ∧
      (runSource {} (.ofFiles [] []) "if (1) return 2;" none).1 = .returned (.int 2) ∧
      ReturnsAfter {} (Moment.ofProgram {} (.ofFiles [] []) [node]) node (.int 2) := by
  intro node
  have htokens : tokens (expandTags "if (1) return 2;".toList) =
      [⟨.keyword .conditional, "if", 1, 1⟩, ⟨.openParen, "(", 1, 4⟩, ⟨.int ['1'], "1", 1, 5⟩,
        ⟨.closeParen, ")", 1, 6⟩, ⟨.keyword .ret, "return", 1, 8⟩, ⟨.int ['2'], "2", 1, 15⟩,
        ⟨.semicolon, ";", 1, 16⟩] := by
    decide +kernel
  have hparse : parse "if (1) return 2;" = .ok [node] := by
    rw [parse, htokens]
    rfl
  have hrun : (runSource {} (.ofFiles [] []) "if (1) return 2;" none).1 = .returned (.int 2) := by
    rw [runSource, hparse]
    rfl
  obtain ⟨marked, hmarked, other, hother, hreturns⟩ :=
    (returns_contained hparse {}).2.2.1 _ _ _ hrun
  cases hmarked
  cases List.mem_singleton.mp hother
  exact ⟨hparse, hrun, hreturns⟩

end WebScript
