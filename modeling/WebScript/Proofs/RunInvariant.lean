import Mathlib.Data.Prod.Lex
import WebScript.Proofs.Moments
import WebScript.Proofs.Shape

/-!
# Invariants of runs

A `RunInvariant` says what holds of the machines, the values and the exits of a run. What it asks of
an operation that may break it, such as appending an element or loading a file, it asks only at the
moments that are reached. `Starts` is well-founded, so whatever the moments that a moment starts
pass on, all moments have.
-/

namespace WebScript

/-! ## Induction over moments -/

section Measure

/-- The size of what an activity works through, apart from what lies outside its nodes. -/
noncomputable def Activity.weight : Activity → Nat
  | .eval _ node | .keys node => sizeOf node
  | .list nodes | .block nodes => sizeOf nodes
  | .elseIfs _ clauses => sizeOf clauses
  | .items _ rest => sizeOf rest
  | .loop _ _ nodes _ => sizeOf nodes + 1
  | .file .. => 1
  | .write .. | .call .. | .params .. | .body _ | .statements _ => 0

/-- The number of steps that an activity has left. -/
def Activity.stepsLeft : Activity → Nat
  | .loop _ _ _ entries => entries.length
  | .call function _ => function.params.length + function.body.length + 1
  | .params _ _ rest _ => rest.length
  | .body nodes | .statements nodes => nodes.length
  | _ => 0

/-- What decreases from a moment to those that it starts. -/
noncomputable def Moment.measure (moment : Moment) : Lex (Nat × Lex (Nat × Nat)) :=
  toLex (moment.depth, toLex (moment.activity.weight, moment.activity.stepsLeft))

/-- What an activity starts is smaller: fewer calls are left, or the node is smaller, or fewer steps
    are left. -/
theorem Moment.measure_lt {config : Config} {first second : Moment}
    (h : Starts config first second) : second.measure < first.measure := by
  have helseIf (clause : ElseIf Node) :
      sizeOf clause = 1 + sizeOf clause.line + sizeOf clause.cond + sizeOf clause.body := rfl
  have helse (last : Else Node) : sizeOf last = 1 + sizeOf last.line + sizeOf last.body := rfl
  have hitem (item : ArrayItem Node) :
      sizeOf item = 1 + sizeOf item.line + sizeOf item.value + sizeOf item.key := rfl
  unfold measure
  cases h <;>
    simp [Prod.Lex.toLex_lt_toLex, Activity.weight, Activity.stepsLeft, helseIf, helse, hitem] <;>
    omega

/-- What holds of a moment whenever it holds of all moments that it starts, holds of all moments. -/
theorem Moment.inductionOnStarts {config : Config} {motive : Moment → Prop}
    (step : ∀ first, (∀ second, Starts config first second → motive second) → motive first)
    (moment : Moment) : motive moment := by
  induction hmeasure : moment.measure using WellFoundedLT.induction generalizing moment with
  | _ size ih =>
    subst hmeasure
    exact step moment fun second hstarts => ih _ (measure_lt hstarts) second rfl

end Measure

/-! ## Invariants -/

/-- Whether an event reports that a file has been loaded. -/
def Event.isLoading : Event → Bool
  | .fileLoaded _ | .included .. => true
  | _ => false

/-- What is reported about a file that has been loaded before its statements run, the latest
    first. -/
def Library.Loaded.events (keyword path : String) : Library.Loaded → List Event
  | .program resolved (.ok nodes) => [.included keyword path nodes.length, .fileLoaded resolved]
  | .program resolved (.error _) => [.fileLoaded resolved]
  | .refused _ | .skipped | .missing => []

/-- At the moment, a variable is about to be given a value; the machine is the one on which this
    happens. A loop does so before each entry, and a call for each parameter, unless the default has
    put the scope of the parameter out of sight. -/
inductive Binds (config : Config) : Moment → Machine → String → Value → Prop
  | written (hwritten : writePath (machine.scope.get? name) value keys = .ok result) :
    Binds config ⟨depth, .write name keys value, machine⟩ machine name result
  | loopValue : Binds config ⟨depth, .loop valueVar keyVar body (entry :: rest), machine⟩ machine
      valueVar entry.2
  | loopKey : Binds config ⟨depth, .loop valueVar (some keyVar) body (entry :: rest), machine⟩
      (machine.withVariable valueVar entry.2) keyVar entry.1.toValue
  | passed : Binds config ⟨depth, .params function passed (param :: rest) (arg :: args), machine⟩
      machine param.name arg
  | defaulted (hdefault : param.default = some fallback)
    (hrun : evalWithin config depth fallback machine = .ok value after)
    (hsight : after.scope.generation = machine.scope.generation) :
    Binds config ⟨depth, .params function passed (param :: rest) [], machine⟩ after param.name value

/-- What holds of the values, the machines and the exits of a run under a configuration. An exit has
    its line when it leaves the node that raises it. -/
structure RunInvariant (config : Config) extends ValueClosure where
  /-- The moments of the run. -/
  reached : Moment → Prop
  machine : Machine → Prop
  exit : Exit → Prop
  reached_starts {first second : Moment} (h : reached first) (hmachine : machine first.machine)
    (hstarts : Starts config first second) : reached second
  int {depth : Nat} {reading : Reading} {line : Option Int} {n : Int} {m : Machine}
    (h : reached ⟨depth, .eval reading ⟨line, .int n⟩, m⟩) : value (.int n)
  append {depth : Nat} {table : Table Value} {line : Option Int} {node : Node}
    {rest : List (ArrayItem Node)} {m after : Machine} {v : Value}
    (h : reached ⟨depth, .items table (⟨line, node, none⟩ :: rest), m⟩)
    (hrun : node.evalAt config depth .strict m = .ok v after) (htable : value (.array table))
    (hv : value v) : value (.array (table.append v))
  write {depth : Nat} {name : String} {keys : List (Option Key)} {v written : Value} {m : Machine}
    (h : reached ⟨depth, .write name keys v, m⟩) (hname : name ≠ reservedName)
    (hcontainer : ∀ found, m.scope.get? name = some found → value found)
    (hkeys : ∀ k, some k ∈ keys → key k) (hv : value v)
    (hwritten : writePath (m.scope.get? name) v keys = .ok written) : value written
  read {m : Machine} {name : String} {v : Value} (h : machine m)
    (hv : m.scope.get? name = some v) : value v
  report {m : Machine} {event : Event} (h : machine m) (hevent : event.isLoading = false) :
    machine (m.withEvents [event])
  output {m : Machine} (text : String) (h : machine m) : machine (m.withOutput text)
  bind {moment : Moment} {m : Machine} {name : String} {v : Value} (hreached : reached moment)
    (hbinds : Binds config moment m name v) (h : machine m) (hname : name ≠ reservedName)
    (hv : value v) : machine (m.withVariable name v)
  define {depth : Nat} {reading : Reading} {line : Option Int} {name : String}
    {params : List (Param Node)} {body : List Node} {m : Machine}
    (hreached : reached ⟨depth, .eval reading ⟨line, .functionDecl name params body⟩, m⟩)
    (h : machine m) : machine (m.withFunction ⟨name, params, body⟩)
  enter {m : Machine} (h : machine m) : machine m.entering
  leave {m caller : Machine} (hcaller : machine caller) (h : machine m) :
    machine (m.leaving caller)
  leaveOpen {m caller : Machine} (hrestore : config.restoreScopeOnReturn = false)
    (hcaller : machine caller) (h : machine m) : machine (m.leavingOpen caller)
  load {depth : Nat} {path : String} {once fatal : Bool} {m : Machine} {loaded : Library.Loaded}
    {library : Option Library} (hreached : reached ⟨depth, .file path once fatal, m⟩)
    (h : machine m) (hload : Library.loadFrom m.library path once = (loaded, library)) :
    machine ((m.withLibrary library).withEvents
      (loaded.events (requireKeyword once fatal) path))
  error {depth : Nat} {reading : Reading} {line : Option Int} {form : Form Node} {m : Machine}
    (h : reached ⟨depth, .eval reading ⟨line, form⟩, m⟩) (cause : Cause) :
    exit (.fault (.error cause line))
  limit (limit : Limit) : exit (.fault (.limit limit))
  source (error : SourceError) : exit (.fault (.source error))
  ret {v : Value} (hswitch : config.propagateReturn = true) (hv : value v) : exit (.returned v)
  returned {v : Value} (h : exit (.returned v)) : value v

namespace RunInvariant

variable {config : Config} (I : RunInvariant config) {α β : Type}

/-- An exit inside a node, which may still lack its line. -/
def loose (exit : Exit) : Prop := I.exit exit ∨ ∃ cause, exit = .fault (.error cause none)

/-- The exits of a node: only those of a node that is read strictly are sure to have their lines. -/
def exitOf : Reading → Exit → Prop
  | .strict => I.exit
  | .lenient => I.loose

/-- How actions end, where exits satisfy `exits` and values `P`. -/
inductive Ending (exits : Exit → Prop) (P : α → Prop) : EStateM.Result Exit Machine α → Prop
  | ok {value : α} {m : Machine} (hm : I.machine m) (hvalue : P value) : Ending exits P (.ok value m)
  | error {exit : Exit} {m : Machine} (hm : I.machine m) (hexit : exits exit) :
    Ending exits P (.error exit m)

variable {I} {exits : Exit → Prop} {P : α → Prop} {Q : β → Prop} {m : Machine}

/-! ## Composed actions -/

namespace Ending

theorem of_ok {ends : EStateM.Result Exit Machine α} (h : I.Ending exits P ends) {value : α}
    {after : Machine} (hends : ends = .ok value after) : I.machine after ∧ P value := by
  subst hends
  cases h with
  | ok hm hvalue => exact ⟨hm, hvalue⟩

theorem mono {weaker : Exit → Prop} {R : α → Prop} {ends : EStateM.Result Exit Machine α}
    (h : I.Ending exits P ends) (hexits : ∀ exit, exits exit → weaker exit)
    (hvalues : ∀ value, P value → R value) : I.Ending weaker R ends := by
  cases h with
  | ok hm hvalue => exact .ok hm (hvalues _ hvalue)
  | error hm hexit => exact .error hm (hexits _ hexit)

theorem toLoose {ends : EStateM.Result Exit Machine α} (h : I.Ending I.exit P ends) :
    I.Ending I.loose P ends :=
  h.mono (fun _ => Or.inl) fun _ => id

/-- An action after one that ends well ends well if it does from the machines and values that the
    first may give. -/
theorem bind {first : Eval α} {next : α → Eval β} (h : I.Ending exits P (first m))
    (hnext : ∀ value after, first m = .ok value after → I.machine after → P value →
      I.Ending exits Q (next value after)) :
    I.Ending exits Q ((first >>= next) m) := by
  simp only [Bind.bind, EStateM.bind]
  cases hfirst : first m with
  | ok value after =>
    obtain ⟨hafter, hvalue⟩ := h.of_ok hfirst
    exact hnext value after hfirst hafter hvalue
  | error exit after =>
    rw [hfirst] at h
    cases h with
    | error hm hexit => exact .error hm hexit

theorem raise (hm : I.machine m) (cause : Cause) : I.Ending I.loose P (Eval.raise cause m) :=
  .error hm (Or.inr ⟨cause, rfl⟩)

theorem ofCause {result : Except Cause α} (hm : I.machine m)
    (h : ∀ value, result = .ok value → P value) : I.Ending I.loose P (Eval.ofCause result m) := by
  cases result with
  | ok value => exact .ok hm (h value rfl)
  | error cause => exact raise hm cause

theorem ofRefusal {result : Except Refusal α} (hm : I.machine m)
    (h : ∀ value, result = .ok value → P value) :
    I.Ending I.loose P (Eval.ofRefusal result m) := by
  cases result with
  | ok value => exact .ok hm (h value rfl)
  | error refusal =>
    cases refusal with
    | cause cause => exact raise hm cause
    | limit limit => exact .error hm (Or.inl (I.limit limit))

theorem report {event : Event} (hm : I.machine m) (hevent : event.isLoading = false) :
    I.Ending I.loose (fun _ => True) (Eval.report event m) :=
  .ok (I.report hm hevent) trivial

theorem write (hm : I.machine m) (text : String) :
    I.Ending I.loose (fun _ => True) (Eval.write text m) :=
  .ok (I.output text hm) trivial

theorem warnings (hm : I.machine m) (warnings : List Warning) :
    I.machine (m.withEvents (warnings.map Event.warning).reverse) := by
  induction warnings generalizing m with
  | nil => exact hm
  | cons warning rest ih =>
    have hrest : I.machine ((m.withEvents [.warning warning]).withEvents
        (rest.map Event.warning).reverse) := ih (I.report hm rfl)
    simpa [Machine.withEvents] using hrest

theorem ofNoted {noted : Noted α} (hm : I.machine m)
    (h : ∀ value, noted.result = .ok value → P value) :
    I.Ending I.loose P (Eval.ofNoted noted m) :=
  ofRefusal (warnings hm noted.warnings) h

/-- An exit that leaves a node has its line. -/
theorem located {action : Eval α} {depth : Nat} {reading : Reading} {line : Option Int}
    {form : Form Node} {before : Machine}
    (hreached : I.reached ⟨depth, .eval reading ⟨line, form⟩, before⟩)
    (h : I.Ending I.loose P (action m)) :
    I.Ending (I.exitOf reading) P (Eval.located line action m) := by
  have hexitOf : ∀ exit, I.exit exit → I.exitOf reading exit := by
    intro exit hexit
    cases reading with
    | strict => exact hexit
    | lenient => exact Or.inl hexit
  unfold Eval.located
  generalize action m = ends at h
  cases h with
  | ok hm hvalue => exact .ok hm hvalue
  | @error exit _ hm hexit =>
    refine .error hm (hexitOf _ ?_)
    unfold Exit.locate
    split
    · exact I.error hreached _
    · rename_i hlined
      rcases hexit with hexit | ⟨cause, rfl⟩
      · exact hexit
      · exact absurd rfl (hlined cause)

/-! ## Variables -/

theorem readVariable (hm : I.machine m) (name : String) :
    I.Ending I.loose I.value (Eval.readVariable name m) := by
  refine ofCause hm fun v hv => ?_
  unfold Scope.get at hv
  split at hv
  · rename_i hfound
    cases hv
    exact I.read hm hfound
  · cases hv

theorem readOrNull (hm : I.machine m) (name : String) :
    I.value ((m.scope.get? name).getD .null) := by
  cases hfound : m.scope.get? name with
  | none => exact I.null
  | some v => exact I.read hm hfound

/-- Binding a variable has to keep the machine as it should be unless the name is reserved. -/
theorem setVariable (hm : I.machine m) (name : String) {v : Value}
    (hbind : name ≠ reservedName → I.machine (m.withVariable name v)) :
    I.Ending I.loose (fun _ => True) (Eval.setVariable name v m) := by
  rw [Simulation.setVariable_eq]
  split
  · exact raise hm _
  · rename_i hname
    exact .ok (hbind hname) trivial

/-- Binding a variable of an earlier scope only binds it while that scope is in sight. -/
theorem setVariableIn (hm : I.machine m) (generation : Nat) (name : String) {v : Value}
    (hbind : name ≠ reservedName → m.scope.generation = generation →
      I.machine (m.withVariable name v)) :
    I.Ending I.loose (fun _ => True) (Eval.setVariableIn generation name v m) := by
  rw [Simulation.setVariableIn_eq]
  split
  · exact raise hm _
  · rename_i hname
    refine .ok ?_ trivial
    unfold Machine.withVariableIn
    split
    · rename_i hsight
      exact hbind hname hsight
    · exact hm

/-- A parameter without an argument is given what its default gives, unless the default has put the
    scope of the parameter out of sight. -/
theorem bindDefault {depth passed : Nat} {function : Function} {param : Param Node}
    {rest : List (Param Node)} {fallback : Node}
    (hreached : I.reached ⟨depth, .params function passed (param :: rest) [], m⟩)
    (hdefault : param.default = some fallback)
    (hvalue : I.Ending I.loose I.value (evalWithin config depth fallback m)) :
    I.Ending I.loose (fun _ => True)
      (WebScript.bindDefault (evalWithin config depth) param.name fallback m) := by
  rw [bindDefault_eq]
  refine hvalue.bind fun value after hrun hafter hvalue => ?_
  refine setVariableIn hafter _ param.name fun hname hsight => ?_
  exact I.bind hreached (.defaulted hdefault hrun hsight) hafter hname hvalue

/-- An element is a value as it should be if its variable has one. -/
theorem readElement (hm : I.machine m) (absentOk : Bool) (name : String) (keys : List Key) :
    I.Ending I.loose I.value (Eval.readElement absentOk name keys m) := by
  simp only [Eval.readElement, Bind.bind, EStateM.bind, get, getThe, MonadStateOf.get, EStateM.get]
  cases hfound : m.scope.get? name with
  | none =>
    cases absentOk with
    | true => exact .ok hm I.null
    | false => exact raise hm _
  | some found => exact ofCause hm fun v hv => I.readPath (I.read hm hfound) hv

/-- Writing an element has to keep the machine as it should be, with what the path makes of the
    variable. -/
theorem writeElement (hm : I.machine m) {name : String} {keys : List (Option Key)} {v : Value}
    (hwrite : name ≠ reservedName → ∀ written,
      writePath (m.scope.get? name) v keys = .ok written → I.machine (m.withVariable name written)) :
    I.Ending I.loose (fun _ => True) (Eval.writeElement name keys v m) := by
  show I.Ending I.loose _
    ((Eval.ofCause (writePath (m.scope.get? name) v keys) >>= Eval.setVariable name) m)
  cases hwritten : writePath (m.scope.get? name) v keys with
  | error cause => exact raise hm cause
  | ok written => exact setVariable hm name fun hname => hwrite hname written hwritten

end Ending

/-! ## Moments -/

variable (I)

/-- What the values that an activity starts with satisfy. -/
def StartsWell : Activity → Prop
  | .items table _ => I.value (.array table)
  | .loop _ _ _ entries => ∀ entry ∈ entries, I.key entry.1 ∧ I.value entry.2
  | .write _ keys value => I.path keys ∧ I.value value
  | .call _ args | .params _ _ _ args => ∀ v ∈ args, I.value v
  | _ => True

variable {I} in
theorem startsWell_of_always (hvalue : ∀ v, I.value v) (hkey : ∀ k, I.key k)
    (activity : Activity) : I.StartsWell activity := by
  cases activity with
  | items table rest => exact hvalue _
  | loop valueVar keyVar nodes entries => exact fun entry _ => ⟨hkey entry.1, hvalue entry.2⟩
  | write name keys value => exact ⟨fun key _ => hkey key, hvalue value⟩
  | call | params => exact fun v _ => hvalue v
  | _ => trivial

/-- A reached moment at which the invariant holds. -/
structure Sound (moment : Moment) : Prop where
  reached : I.reached moment
  machine : I.machine moment.machine
  values : I.StartsWell moment.activity

/-- The activity of a moment ends as the invariant says. -/
def Ends : Moment → Prop
  | ⟨depth, .eval reading node, m⟩ =>
    I.Ending (I.exitOf reading) I.value (node.evalAt config depth reading m)
  | ⟨depth, .keys target, m⟩ =>
    I.Ending I.loose I.path (target.evalKeys config (evalWithin config depth) m)
  | ⟨depth, .list nodes, m⟩ =>
    I.Ending I.loose (fun values => ∀ v ∈ values, I.value v)
      (evalList config (evalWithin config depth) nodes m)
  | ⟨depth, .block nodes, m⟩ =>
    I.Ending I.loose (fun _ => True) (evalBlock config (evalWithin config depth) nodes m)
  | ⟨depth, .elseIfs found clauses, m⟩ =>
    I.Ending I.loose (fun _ => True) (evalElseIfs config (evalWithin config depth) found clauses m)
  | ⟨depth, .items table rest, m⟩ =>
    I.Ending I.loose (fun result => I.value (.array result))
      (evalItems config (evalWithin config depth) table rest m)
  | ⟨depth, .loop valueVar keyVar nodes entries, m⟩ =>
    I.Ending I.loose (fun _ => True)
      (Eval.forEntries valueVar keyVar (evalBlock config (evalWithin config depth) nodes) entries m)
  | ⟨_, .write name keys value, m⟩ =>
    I.Ending I.loose (fun _ => True) (Eval.writeElement name keys value m)
  | ⟨depth, .call function args, m⟩ =>
    I.Ending I.loose I.value (callFunction (evalWithin config depth) config function args m)
  | ⟨depth, .params function passed rest args, m⟩ =>
    I.Ending I.loose (fun _ => True)
      (bindParams (evalWithin config depth) function passed rest args m)
  | ⟨depth, .body nodes, m⟩ =>
    I.Ending I.loose (fun result => ∀ v, result = some v → I.value v)
      (runBody (evalWithin config depth) config nodes m)
  | ⟨depth, .file path once fatal, m⟩ =>
    I.Ending I.loose I.value (includeFile (evalWithin config depth) path once fatal m)
  | ⟨depth, .statements nodes, m⟩ =>
    I.Ending I.loose (fun _ => True) (runStatements (evalWithin config depth) nodes m)

variable {I}

theorem Ends.eval {depth : Nat} {reading : Reading} {node : Node} {m : Machine}
    (h : I.Ends ⟨depth, .eval reading node, m⟩) :
    I.Ending I.loose I.value (node.evalAt config depth reading m) := by
  cases reading with
  | strict => exact Ending.toLoose h
  | lenient => exact h

/-! ### What an activity passes on -/

section

variable {first second : Moment}

/-- What is started on a machine and with values that are as they should be ends well. -/
theorem Sound.run (hfirst : I.Sound first)
    (ih : ∀ second, Starts config first second → I.Sound second → I.Ends second)
    (hstarts : Starts config first second) (hm : I.machine second.machine)
    (hvalues : I.StartsWell second.activity) : I.Ends second :=
  ih _ hstarts ⟨I.reached_starts hfirst.reached hfirst.machine hstarts, hm, hvalues⟩

/-- A node passes the invariant on to what it evaluates. -/
theorem Sound.passes_node {depth : Nat} {reading : Reading} {node : Node} {m : Machine}
    (hfirst : I.Sound ⟨depth, .eval reading node, m⟩)
    (ih : ∀ second, Starts config ⟨depth, .eval reading node, m⟩ second → I.Sound second →
      I.Ends second)
    (hstarts : Starts config ⟨depth, .eval reading node, m⟩ second) :
    I.machine second.machine ∧ I.StartsWell second.activity := by
  have hm : I.machine m := hfirst.machine
  have run := fun {second} => @Sound.run _ _ _ second hfirst ih
  cases hstarts with
  | echo | otherwise | elseIf | ret | iterated | path | coalesced | left | operand | appended | base
  | assignKeys | updateKeys | arg | condition | args => exact ⟨hm, trivial⟩
  | literal => exact ⟨hm, I.empty⟩
  | whenTrue hcond | whenFalse hcond =>
    exact ⟨((run .condition hm trivial).eval.of_ok hcond).1, trivial⟩
  | whenNone hcond hvalue hclauses =>
    have htried := ((run .condition hm trivial).eval.of_ok hcond).1
    have helseIfs : I.Ending I.loose _ _ := run (.whenFalse hcond hvalue) htried trivial
    exact ⟨(helseIfs.of_ok hclauses).1, trivial⟩
  | loop hexpr =>
    obtain ⟨hafter, htable⟩ := (run .iterated hm trivial).eval.of_ok hexpr
    exact ⟨hafter, fun entry hentry => I.entry htable hentry⟩
  | inclusion htext =>
    have hread : I.Ending I.loose (fun _ => True) ((do
        Eval.ofNoted (← Node.evalAt config depth .strict _).text : Eval String) m) :=
      (run .path hm trivial).eval.bind fun value after _ hafter _ =>
        Ending.ofNoted hafter fun _ _ => trivial
    exact ⟨(hread.of_ok htext).1, trivial⟩
  | whenNull hleft => exact ⟨((run .coalesced hm trivial).eval.of_ok hleft).1, trivial⟩
  | right hop hleft => exact ⟨((run (.left hop) hm trivial).eval.of_ok hleft).1, trivial⟩
  | dim hbase => exact ⟨((run .base hm trivial).eval.of_ok hbase).1, trivial⟩
  | assigned hroot hkeys =>
    have htarget : I.Ending I.loose _ _ := run (.assignKeys hroot) hm trivial
    exact ⟨(htarget.of_ok hkeys).1, trivial⟩
  | assignWrite hroot hkeys hexpr =>
    have htarget : I.Ending I.loose _ _ := run (.assignKeys hroot) hm trivial
    obtain ⟨hkeyed, hpath⟩ := htarget.of_ok hkeys
    obtain ⟨hafter, hvalue⟩ := (run (.assigned hroot hkeys) hkeyed trivial).eval.of_ok hexpr
    exact ⟨hafter, hpath, hvalue⟩
  | updated hroot happend hkeys =>
    have htarget : I.Ending I.loose _ _ := run (.updateKeys hroot happend) hm trivial
    exact ⟨(htarget.of_ok hkeys).1, trivial⟩
  | updateWrite hroot happend hkeys hop hexpr hcurrent hvalue =>
    have htarget : I.Ending I.loose _ _ := run (.updateKeys hroot happend) hm trivial
    obtain ⟨hkeyed, hpath⟩ := htarget.of_ok hkeys
    have hright := run (.updated hroot happend hkeys fun h => absurd h hop) hkeyed trivial
    obtain ⟨hevaluated, hright⟩ := hright.eval.of_ok hexpr
    obtain ⟨hlooked, hold⟩ := (Ending.readElement hevaluated _ _ _).of_ok hcurrent
    obtain ⟨hafter, hresult⟩ :=
      (Ending.ofNoted hlooked fun v hv => I.binary hold hright hv).of_ok hvalue
    exact ⟨hafter, hpath, hresult⟩
  | coalesceWrite hroot happend hkeys hcurrent hnull hexpr hvalue =>
    have htarget : I.Ending I.loose _ _ := run (.updateKeys hroot happend) hm trivial
    obtain ⟨hkeyed, hpath⟩ := htarget.of_ok hkeys
    obtain ⟨hlooked, hold⟩ := (Ending.readElement hkeyed _ _ _).of_ok hcurrent
    cases machine_of_readElement hcurrent
    have hright := run (.updated hroot happend hkeys fun _ => ⟨_, hcurrent, hnull⟩) hkeyed trivial
    obtain ⟨hevaluated, hright⟩ := hright.eval.of_ok hexpr
    obtain ⟨hafter, hresult⟩ :=
      (Ending.ofNoted hevaluated fun v hv => I.binary hold hright hv).of_ok hvalue
    exact ⟨hafter, hpath, hresult⟩
  | call hfunction hargs =>
    have hlist : I.Ending I.loose _ _ := run (.args hfunction) hm trivial
    exact hlist.of_ok hargs

section

variable {depth : Nat} {valueVar : String} {keyVar : Option String} {nodes : List Node}
  {entry : Key × Value} {rest : List (Key × Value)}
  (hfirst : I.Sound ⟨depth, .loop valueVar keyVar nodes (entry :: rest), m⟩)

include hfirst

/-- A loop gives its variables the value and the key of the next entry. -/
theorem Sound.bindEntry :
    I.Ending I.loose (fun _ => True) (Eval.forEntries valueVar keyVar (pure ()) [entry] m) := by
  have hm : I.machine m := hfirst.machine
  obtain ⟨hkey, hvalue⟩ := hfirst.values entry List.mem_cons_self
  have hset : I.Ending I.loose (fun _ => True) (Eval.setVariable valueVar entry.2 m) :=
    Ending.setVariable hm valueVar fun hname => I.bind hfirst.reached .loopValue hm hname hvalue
  rw [Eval.forEntries]
  refine hset.bind fun _ bound hrun hbound _ => ?_
  cases keyVar with
  | none => exact .ok hbound trivial
  | some name =>
    cases Simulation.eq_withVariable_of_setVariable hrun
    refine (Ending.setVariable hbound name fun hname => ?_).bind fun _ after _ hafter _ =>
      .ok hafter trivial
    exact I.bind hfirst.reached .loopKey hbound hname (I.ofKey hkey)

/-- One round of a loop binds its variables and then evaluates the body. -/
theorem Sound.forEntry {body : Eval Unit}
    (hbody : ∀ bound, Eval.forEntries valueVar keyVar (pure ()) [entry] m = .ok () bound →
      I.machine bound → I.Ending I.loose (fun _ => True) (body bound)) :
    I.Ending I.loose (fun _ => True) (Eval.forEntries valueVar keyVar body [entry] m) := by
  rw [forEntries_cons]
  refine hfirst.bindEntry.bind fun _ bound hbound hm _ => ?_
  exact (hbody bound hbound hm).bind fun _ after _ hafter _ => .ok hafter trivial

end

/-- A row of nodes or entries passes the invariant on to its first member and to the rest. -/
theorem Sound.passes_row {depth : Nat} {activity : Activity} {m : Machine}
    (hrow : activity.isRow = true) (hfirst : I.Sound ⟨depth, activity, m⟩)
    (ih : ∀ second, Starts config ⟨depth, activity, m⟩ second → I.Sound second → I.Ends second)
    (hstarts : Starts config ⟨depth, activity, m⟩ second) :
    I.machine second.machine ∧ I.StartsWell second.activity := by
  have hm : I.machine m := hfirst.machine
  have hvalues : I.StartsWell activity := hfirst.values
  have run := fun {second} => @Sound.run _ _ _ second hfirst ih
  cases hstarts with
  | outerKeys | listHead | blockHead | clauseCondition | itemValue => exact ⟨hm, trivial⟩
  | key hbase =>
    have houter : I.Ending I.loose _ _ := run .outerKeys hm trivial
    exact ⟨(houter.of_ok hbase).1, trivial⟩
  | listTail hnode => exact ⟨((run .listHead hm trivial).eval.of_ok hnode).1, trivial⟩
  | blockTail hnode => exact ⟨((run .blockHead hm trivial).eval.of_ok hnode).1, trivial⟩
  | clauseBody hfound hcond hvalue =>
    exact ⟨((run (.clauseCondition hfound) hm trivial).eval.of_ok hcond).1, trivial⟩
  | clausesAfterBody hfound hcond hvalue hbody =>
    have hholding := ((run (.clauseCondition hfound) hm trivial).eval.of_ok hcond).1
    have hblock : I.Ending I.loose _ _ := run (.clauseBody hfound hcond hvalue) hholding trivial
    exact ⟨(hblock.of_ok hbody).1, trivial⟩
  | clausesAfterCondition hfound hcond hvalue =>
    exact ⟨((run (.clauseCondition hfound) hm trivial).eval.of_ok hcond).1, trivial⟩
  | itemKey hvalue => exact ⟨((run .itemValue hm trivial).eval.of_ok hvalue).1, trivial⟩
  | itemAppended hvalue =>
    obtain ⟨hafter, helement⟩ := (run .itemValue hm trivial).eval.of_ok hvalue
    exact ⟨hafter, I.append hfirst.reached hvalue hvalues helement⟩
  | itemSet hvalue hkey htoKey =>
    obtain ⟨hkeyed, helement⟩ := (run .itemValue hm trivial).eval.of_ok hvalue
    obtain ⟨hafter, hkeyValue⟩ := (run (.itemKey hvalue) hkeyed trivial).eval.of_ok hkey
    exact ⟨hafter, I.set hvalues (I.toKey hkeyValue htoKey) helement⟩
  | loopBody hbound =>
    exact ⟨(hfirst.bindEntry.of_ok hbound).1, trivial⟩
  | loopRest hbody =>
    have hsingle := hfirst.forEntry fun bound hbound hm => run (.loopBody hbound) hm trivial
    exact ⟨(hsingle.of_ok hbody).1,
      fun entry hentry => hvalues entry (List.mem_cons_of_mem _ hentry)⟩
  | _ => cases hrow

/-- Whatever starts at a moment at which the invariant holds, starts at such a moment. -/
theorem Sound.passes (hfirst : I.Sound first)
    (ih : ∀ second, Starts config first second → I.Sound second → I.Ends second)
    (hstarts : Starts config first second) : I.Sound second := by
  suffices hpassed : I.machine second.machine ∧ I.StartsWell second.activity from
    ⟨I.reached_starts hfirst.reached hfirst.machine hstarts, hpassed.1, hpassed.2⟩
  obtain ⟨depth, activity, m⟩ := first
  have hm : I.machine m := hfirst.machine
  have hvalues : I.StartsWell activity := hfirst.values
  have run := fun {second} => @Sound.run _ _ _ second hfirst ih
  cases activity with
  | eval reading node => exact hfirst.passes_node ih hstarts
  | keys | list | block | elseIfs | items | loop => exact hfirst.passes_row rfl ih hstarts
  | write name keys value => cases hstarts
  | call function args =>
    have henter : I.machine (m.calling function args).entering := I.enter (I.report hm rfl)
    cases hstarts with
    | callParams => exact ⟨henter, hvalues⟩
    | callBody hparams =>
      have hbind : I.Ending I.loose _ _ := run .callParams henter hvalues
      exact ⟨(hbind.of_ok hparams).1, trivial⟩
  | params function passed rest args =>
    cases hstarts with
    | paramDefault hdefault => exact ⟨hm, trivial⟩
    | paramPassed hbound =>
      have hset := Ending.setVariable hm _ fun hname =>
        I.bind hfirst.reached .passed hm hname (hvalues _ List.mem_cons_self)
      exact ⟨(hset.of_ok hbound).1, fun v hv => hvalues v (List.mem_cons_of_mem _ hv)⟩
    | paramDefaulted hdefault hbound =>
      cases depth with
      | zero => cases hbound
      | succ depth =>
        have hfallback := (run (.paramDefault hdefault) hm trivial).eval
        have hbind := Ending.bindDefault hfirst.reached hdefault hfallback
        exact ⟨(hbind.of_ok hbound).1, hvalues⟩
  | body nodes =>
    cases hstarts with
    | bodyHead => exact ⟨hm, trivial⟩
    | bodyTail hnode hreturn =>
      cases depth with
      | zero => cases hnode
      | succ depth => exact ⟨((run .bodyHead hm trivial).eval.of_ok hnode).1, trivial⟩
  | file path once fatal =>
    cases hstarts with
    | included hload => exact ⟨I.load hfirst.reached hm hload, trivial⟩
  | statements nodes =>
    cases hstarts with
    | statementsHead => exact ⟨hm, trivial⟩
    | statementsTail hnode =>
      cases depth with
      | zero => cases hnode
      | succ depth => exact ⟨((run .statementsHead hm trivial).eval.of_ok hnode).1, trivial⟩

end

end RunInvariant

end WebScript
