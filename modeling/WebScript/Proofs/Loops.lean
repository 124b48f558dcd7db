import WebScript.Proofs.ArrayShape
import WebScript.Proofs.Frame

/-!
# Passes of a loop

A `foreach` takes the entries of its array once, before the first pass. `Passes` lists the machines on
which its statements begin, one for each entry; `loop_cases` says that a loop either makes all passes
or stops in one that does not finish, and `passes_of_invariant` is the rule to show that it makes all
of them. With it, a loop that stores each entry in another array rebuilds the array.
-/

namespace WebScript

open Eval (bind_of_ok bind_of_error)

/-! ## Passes -/

/-- The machine in which the variables of a loop stand for an entry. -/
def Machine.bindEntry (machine : Machine) (valueVar : String) (keyVar : Option String)
    (entry : Key × Value) : Machine :=
  let bound := machine.withVariable valueVar entry.2
  match keyVar with
  | some name => bound.withVariable name entry.1.toValue
  | none => bound

/-- On a machine, the variables of a loop stand for an entry. A key variable that is the value
    variable as well holds the key. -/
structure Machine.StandsFor (valueVar : String) (keyVar : Option String) (entry : Key × Value)
    (machine : Machine) : Prop where
  value (h : keyVar ≠ some valueVar) : machine.scope.get? valueVar = some entry.2
  key (name : String) (h : keyVar = some name) : machine.scope.get? name = some entry.1.toValue

/-- A statement list, run for the entries one after another, finishes each time. The statements
    begin on the machines of a row and leave the last one. -/
inductive Passes (body : Eval Unit) (valueVar : String) (keyVar : Option String) :
    List (Key × Value) → Machine → List Machine → Machine → Prop
  | nil {machine : Machine} : Passes body valueVar keyVar [] machine [] machine
  | cons {entry : Key × Value} {rest : List (Key × Value)} {machine next after : Machine}
    {starts : List Machine}
    (hbody : body (machine.bindEntry valueVar keyVar entry) = .ok () next)
    (hrest : Passes body valueVar keyVar rest next starts after) :
    Passes body valueVar keyVar (entry :: rest) machine
      (machine.bindEntry valueVar keyVar entry :: starts) after

section

variable {body : Eval Unit} {valueVar : String} {keyVar : Option String}
  {entries : List (Key × Value)} {entry : Key × Value} {rest : List (Key × Value)}
  {machine after : Machine} {starts : List Machine}

theorem Machine.standsFor_bindEntry (machine : Machine) (valueVar : String)
    (keyVar : Option String) (entry : Key × Value) :
    (machine.bindEntry valueVar keyVar entry).StandsFor valueVar keyVar entry := by
  cases keyVar with
  | none =>
    refine ⟨fun _ => ?_, nofun⟩
    exact (machine.get?_withVariable valueVar valueVar entry.2).trans (if_pos rfl)
  | some name =>
    unfold bindEntry
    refine ⟨fun hne => ?_, fun other hother => ?_⟩
    · rw [get?_withVariable, if_neg fun heq => hne (congrArg some heq.symm), get?_withVariable,
        if_pos rfl]
    · rw [get?_withVariable, if_pos (Option.some.inj hother).symm]

/-- The statements of a loop begin once for each entry, in order. -/
theorem Passes.forall₂ (h : Passes body valueVar keyVar entries machine starts after) :
    List.Forall₂ (Machine.StandsFor valueVar keyVar) entries starts := by
  induction h with
  | nil => exact .nil
  | cons hbody hrest ih => exact .cons (Machine.standsFor_bindEntry _ _ _ _) ih

/-! ## Loops -/

section

variable (hvalueVar : valueVar ≠ reservedName) (hkeyVar : keyVar ≠ some reservedName)

include hvalueVar hkeyVar

/-- One pass: the variables are bound, the statements run, and the loop goes on. -/
theorem forEntries_step (body : Eval Unit) (entry : Key × Value) (rest : List (Key × Value))
    (machine : Machine) :
    Eval.forEntries valueVar keyVar body (entry :: rest) machine =
      (body >>= fun _ => Eval.forEntries valueVar keyVar body rest)
        (machine.bindEntry valueVar keyVar entry) := by
  have hbound : Eval.forEntries valueVar keyVar (pure ()) [entry] machine =
      .ok () (machine.bindEntry valueVar keyVar entry) := by
    rw [Eval.forEntries, bind_of_ok _ (Simulation.setVariable_of_ne hvalueVar entry.2 machine)]
    cases keyVar with
    | none => rfl
    | some name =>
      have hname : name ≠ reservedName := fun heq => hkeyVar (congrArg some heq)
      exact bind_of_ok _ (Simulation.setVariable_of_ne hname _ _)
  rw [forEntries_cons, bind_of_ok _ hbound]

theorem Passes.forEntries (h : Passes body valueVar keyVar entries machine starts after) :
    Eval.forEntries valueVar keyVar body entries machine = .ok () after := by
  induction h with
  | nil => rfl
  | cons hbody hrest ih => rw [forEntries_step hvalueVar hkeyVar, bind_of_ok _ hbody, ih]

/-- A loop makes a pass for each entry, or it stops in a pass that does not finish, after those for
    the entries before. -/
theorem forEntries_cases (body : Eval Unit) (entries : List (Key × Value)) (machine : Machine) :
    (∃ starts after, Passes body valueVar keyVar entries machine starts after ∧
      Eval.forEntries valueVar keyVar body entries machine = .ok () after) ∨
    ∃ done entry rest starts stopped exit after, entries = done ++ entry :: rest ∧
      Passes body valueVar keyVar done machine starts stopped ∧
      body (stopped.bindEntry valueVar keyVar entry) = .error exit after ∧
      Eval.forEntries valueVar keyVar body entries machine = .error exit after := by
  induction entries generalizing machine with
  | nil => exact Or.inl ⟨[], machine, .nil, rfl⟩
  | cons entry rest ih =>
    rw [forEntries_step hvalueVar hkeyVar]
    cases hbody : body (machine.bindEntry valueVar keyVar entry) with
    | error exit after =>
      refine Or.inr ⟨[], entry, rest, [], machine, exit, after, rfl, .nil, hbody, ?_⟩
      exact bind_of_error _ hbody
    | ok _ next =>
      rw [bind_of_ok _ hbody]
      rcases ih next with ⟨starts, after, hpasses, hrun⟩ |
        ⟨done, last, others, starts, stopped, exit, after, rfl, hpasses, hexit, hrun⟩
      · exact Or.inl ⟨_, after, .cons hbody hpasses, hrun⟩
      · exact Or.inr ⟨entry :: done, last, others, _, stopped, exit, after, rfl,
          .cons hbody hpasses, hexit, hrun⟩

end

/-- What holds before the first pass, and is passed on by each pass with the entries done so far,
    holds of all entries after the last one. -/
theorem passes_of_invariant {invariant : List (Key × Value) → Machine → Prop}
    (hstep : ∀ done entry rest machine, entries = done ++ entry :: rest → invariant done machine →
      ∃ next, body (machine.bindEntry valueVar keyVar entry) = .ok () next ∧
        invariant (done ++ [entry]) next)
    (hstart : invariant [] machine) :
    ∃ starts after, Passes body valueVar keyVar entries machine starts after ∧
      invariant entries after := by
  suffices hfrom : ∀ rest done machine, entries = done ++ rest → invariant done machine →
      ∃ starts after, Passes body valueVar keyVar rest machine starts after ∧
        invariant entries after from hfrom entries [] machine rfl hstart
  intro rest
  induction rest with
  | nil =>
    intro done machine hdone hholds
    rw [List.append_nil] at hdone
    exact ⟨[], machine, .nil, hdone ▸ hholds⟩
  | cons entry rest ih =>
    intro done machine hdone hholds
    obtain ⟨next, hbody, hnext⟩ := hstep done entry rest machine hdone hholds
    obtain ⟨starts, after, hpasses, hafter⟩ :=
      ih (done ++ [entry]) next (by rw [hdone, List.append_assoc, List.singleton_append]) hnext
    exact ⟨_, after, .cons hbody hpasses, hafter⟩

end

/-! ## Changes of variables alone -/

/-- Only variables of the list may differ from what they were, and nothing else does. -/
structure Machine.BindsOnly (names : List String) (before after : Machine) : Prop where
  kept (name : String) (hname : name ∉ names) : after.scope.get? name = before.scope.get? name
  rest : after = { before with scope := after.scope }

namespace Machine.BindsOnly

variable {names : List String} {before machine after : Machine} {name : String}

theorem refl (names : List String) (machine : Machine) : machine.BindsOnly names machine :=
  ⟨fun _ _ => rfl, rfl⟩

theorem withVariable (h : before.BindsOnly names machine) (hname : name ∈ names) (value : Value) :
    before.BindsOnly names (machine.withVariable name value) := by
  refine ⟨fun other hother => ?_, ?_⟩
  · have hne : ¬ other = name := fun heq => hother (heq ▸ hname)
    rw [get?_withVariable, if_neg hne, h.kept other hother]
  · conv_lhs => rw [h.rest]
    rfl

theorem bindEntry (h : before.BindsOnly names machine) {valueVar keyVar : String}
    (hvalueVar : valueVar ∈ names) (hkeyVar : keyVar ∈ names) (entry : Key × Value) :
    before.BindsOnly names (machine.bindEntry valueVar (some keyVar) entry) :=
  (h.withVariable hvalueVar entry.2).withVariable hkeyVar entry.1.toValue

end Machine.BindsOnly

/-! ## Rebuilding an array -/

/-- `$b[$k] = $v`. -/
def storeEntry (line : Option Int) (b k v : String) : Node :=
  ⟨line, .assign ⟨line, .index ⟨line, .variable b⟩ (some ⟨line, .variable k⟩)⟩ ⟨line, .variable v⟩⟩

/-- `$b = []; foreach ($a as $k => $v) { $b[$k] = $v; }`. -/
def rebuildStatements (line : Option Int) (a b k v : String) : List Node :=
  [⟨line, .assign ⟨line, .variable b⟩ ⟨line, .arrayLiteral []⟩⟩,
    ⟨line, .foreach ⟨line, .variable a⟩ v [storeEntry line b k v] (some k)⟩]

/-- The table that has the entries in order and the counter that belongs to their keys. -/
def Table.rebuilt {ν : Type} (entries : List (Key × ν)) : Table ν :=
  ⟨entries, nextKey (Dict.keys entries)⟩

theorem Table.set_rebuilt {ν : Type} {entries : List (Key × ν)} {key : Key} {value : ν}
    (h : key ∉ Dict.keys entries) :
    (Table.rebuilt entries).set key value = Table.rebuilt (entries ++ [(key, value)]) := by
  have hkeys : Dict.keys (entries ++ [(key, value)]) = Dict.keys entries ++ [key] :=
    List.map_append
  unfold rebuilt set
  rw [Dict.insert_of_not_mem h, hkeys, nextKey_append]

theorem Table.Sound.eq_rebuilt {ν : Type} {table : Table ν} (h : table.Sound) :
    table = Table.rebuilt table.entries :=
  congrArg (Table.mk table.entries) h.next

section

variable {config : Config} {deeper : Node → Eval Value} {machine : Machine} {line : Option Int}
  {a b k v name : String} {table : Table Value}

theorem evalAs_variable {value : Value} (h : machine.scope.get? name = some value) :
    Node.evalAs config deeper .strict ⟨line, .variable name⟩ machine = .ok value machine := by
  have hget : machine.scope.get name = .ok value := by
    unfold Scope.get
    rw [h]
  have hread : Eval.readVariable name machine = .ok value machine := by
    show Eval.ofCause (machine.scope.get name) machine = _
    rw [hget]
    rfl
  show Eval.located line (Eval.readVariable name) machine = _
  simp only [Eval.located, hread]

theorem evalAs_assign {target expr : Node} {keys : List (Option Key)} {value written : Value}
    {after : Machine} (hname : name ≠ reservedName) (hroot : target.targetRoot = .ok name)
    (hkeys : target.evalKeys config deeper machine = .ok keys machine)
    (hexpr : expr.evalAs config deeper .strict machine = .ok value after)
    (hwritten : writePath (after.scope.get? name) value keys = .ok written) :
    Node.evalAs config deeper .strict ⟨line, .assign target expr⟩ machine =
      .ok value (after.withVariable name written) := by
  have hwrite := Simulation.writeElement_of_written hname hwritten
  have hrun : (do
      let name ← Eval.ofCause target.targetRoot
      let keys ← target.evalKeys config deeper
      let value ← expr.evalAs config deeper .strict
      Eval.writeElement name keys value
      pure value) machine = EStateM.Result.ok value (after.withVariable name written) := by
    rw [hroot]
    show (target.evalKeys config deeper >>= _) machine = _
    rw [bind_of_ok _ hkeys, bind_of_ok _ hexpr, bind_of_ok _ hwrite]
    rfl
  rw [Node.evalAs]
  simp only [Eval.located, hrun]

/-- `$b = [];` makes the variable an empty array. -/
theorem evalAs_clear (hb : b ≠ reservedName) (machine : Machine) :
    Node.evalAs config deeper .strict
        ⟨line, .assign ⟨line, .variable b⟩ ⟨line, .arrayLiteral []⟩⟩ machine =
      .ok (.array .empty) (machine.withVariable b (.array .empty)) := by
  have hroot : Node.targetRoot ⟨line, .variable b⟩ = .ok b := if_neg hb
  have hempty : Node.evalAs config deeper .strict ⟨line, .arrayLiteral []⟩ machine =
      .ok (.array .empty) machine := rfl
  exact evalAs_assign hb hroot rfl hempty rfl

/-- `$b[$k] = $v;` gives the key in `$k` the value in `$v`. -/
theorem evalAs_storeEntry (hb : b ≠ reservedName) {key : Key} {value : Value} (hkey : key.Normal)
    (hcontainer : machine.scope.get? b = some (.array table))
    (hk : machine.scope.get? k = some key.toValue) (hv : machine.scope.get? v = some value) :
    Node.evalAs config deeper .strict (storeEntry line b k v) machine =
      .ok value (machine.withVariable b (.array (table.set key value))) := by
  let target : Node := ⟨line, .index ⟨line, .variable b⟩ (some ⟨line, .variable k⟩)⟩
  have hroot : target.targetRoot = .ok b := if_neg hb
  have hkeys : target.evalKeys config deeper machine = .ok [some key] machine := by
    show (Node.evalAs config deeper .strict ⟨line, .variable k⟩ >>= fun value =>
      Eval.ofRefusal value.toKey >>= fun key => pure [some key]) machine = _
    rw [bind_of_ok _ (evalAs_variable hk), hkey]
    rfl
  have hwritten : writePath (machine.scope.get? b) value [some key] =
      .ok (.array (table.set key value)) := by
    rw [hcontainer]
    rfl
  exact evalAs_assign hb hroot hkeys (evalAs_variable hv) hwritten

theorem evalBlock_cons {node : Node} {rest : List Node} {value : Value} {after : Machine}
    (h : node.evalAs config deeper .strict machine = .ok value after) :
    evalBlock config deeper (node :: rest) machine = evalBlock config deeper rest after := by
  rw [evalBlock, bind_of_ok _ h]

/-- Each pass of `foreach ($a as $k => $v) { $b[$k] = $v; }` adds its entry to the array in `$b`. -/
theorem passes_storeEntry (hb : b ≠ reservedName) (hbk : b ≠ k) (hbv : b ≠ v) (hkv : k ≠ v)
    (htable : table.Sound) {start : Machine}
    (hstart : start.scope.get? b = some (.array .empty)) :
    ∃ starts after, Passes (evalBlock config deeper [storeEntry line b k v]) v (some k)
        table.entries start starts after ∧
      start.BindsOnly [b, k, v] after ∧ after.scope.get? b = some (.array table) := by
  have hstep : ∀ done entry rest machine, table.entries = done ++ entry :: rest →
      start.BindsOnly [b, k, v] machine ∧
        machine.scope.get? b = some (.array (.rebuilt done)) →
      ∃ next, evalBlock config deeper [storeEntry line b k v]
          (machine.bindEntry v (some k) entry) = .ok () next ∧
        start.BindsOnly [b, k, v] next ∧
          next.scope.get? b = some (.array (.rebuilt (done ++ [entry]))) := by
    rintro done entry rest machine hentries ⟨honly, hdone⟩
    have hkeys : Dict.keys table.entries = Dict.keys done ++ entry.1 :: Dict.keys rest := by
      rw [hentries]
      exact List.map_append
    have hnew : entry.1 ∉ Dict.keys done := fun hmem =>
      (List.nodup_append.mp (hkeys ▸ htable.distinct)).2.2 _ hmem _ List.mem_cons_self rfl
    have hnormal : entry.1.Normal := htable.normal _ (by simp [hkeys])
    have hbound := machine.standsFor_bindEntry v (some k) entry
    have hkept : (machine.bindEntry v (some k) entry).scope.get? b =
        some (.array (.rebuilt done)) := by
      unfold Machine.bindEntry
      rw [Machine.get?_withVariable, if_neg hbk, Machine.get?_withVariable, if_neg hbv, hdone]
    have hstore : Node.evalAs config deeper .strict (storeEntry line b k v)
        (machine.bindEntry v (some k) entry) = .ok entry.2
          ((machine.bindEntry v (some k) entry).withVariable b
            (.array (.rebuilt (done ++ [entry])))) := by
      rw [← Table.set_rebuilt hnew]
      exact evalAs_storeEntry hb hnormal hkept (hbound.key k rfl)
        (hbound.value fun heq => hkv (Option.some.inj heq))
    refine ⟨_, evalBlock_cons hstore, ?_, ?_⟩
    · exact (honly.bindEntry (by simp) (by simp) entry).withVariable (by simp) _
    · rw [Machine.get?_withVariable, if_pos rfl]
  obtain ⟨starts, after, hpasses, honly, hafter⟩ := passes_of_invariant hstep
    ⟨.refl _ start, hstart⟩
  exact ⟨starts, after, hpasses, honly, htable.eq_rebuilt ▸ hafter⟩

/-! ## The evaluation of a loop -/

theorem evalAs_foreach {reading : Reading} {expr : Node} {valueVar : String}
    {keyVar : Option String} {body : List Node} {start : Machine}
    (hexpr : expr.evalAs config deeper .strict machine = .ok (.array table) start) :
    Node.evalAs config deeper reading ⟨line, .foreach expr valueVar body keyVar⟩ machine =
      Eval.located line (do
        Eval.forEntries valueVar keyVar (evalBlock config deeper body) table.entries
        pure .null) start := by
  rw [Node.evalAs]
  simp only [Eval.located, bind_of_ok _ hexpr]

/-- A `foreach` makes a pass for each entry of the array that its expression stands for at first, or
    it stops in a pass that does not finish. -/
theorem evalAs_foreach_cases {reading : Reading} {expr : Node} {valueVar : String}
    {keyVar : Option String} {body : List Node} {start : Machine}
    (hvalueVar : valueVar ≠ reservedName) (hkeyVar : keyVar ≠ some reservedName)
    (hexpr : expr.evalAs config deeper .strict machine = .ok (.array table) start) :
    (∃ starts after, Passes (evalBlock config deeper body) valueVar keyVar table.entries start
        starts after ∧
      Node.evalAs config deeper reading ⟨line, .foreach expr valueVar body keyVar⟩ machine =
        .ok .null after) ∨
    ∃ done entry rest starts stopped exit after, table.entries = done ++ entry :: rest ∧
      Passes (evalBlock config deeper body) valueVar keyVar done start starts stopped ∧
      evalBlock config deeper body (stopped.bindEntry valueVar keyVar entry) = .error exit after ∧
      Node.evalAs config deeper reading ⟨line, .foreach expr valueVar body keyVar⟩ machine =
        .error (exit.locate line) after := by
  rw [evalAs_foreach hexpr]
  rcases forEntries_cases hvalueVar hkeyVar (evalBlock config deeper body) table.entries start with
    ⟨starts, after, hpasses, hrun⟩ |
    ⟨done, entry, rest, starts, stopped, exit, after, hentries, hpasses, hexit, hrun⟩
  · refine Or.inl ⟨starts, after, hpasses, ?_⟩
    simp only [Eval.located, bind_of_ok _ hrun]
    rfl
  · refine Or.inr ⟨done, entry, rest, starts, stopped, exit, after, hentries, hpasses, hexit, ?_⟩
    simp only [Eval.located, bind_of_error _ hrun]

theorem evalBlock_rebuildStatements (hnames : [a, b, k, v].Nodup)
    (hfree : ∀ name ∈ [b, k, v], name ≠ reservedName) (htable : table.Sound)
    (ha : machine.scope.get? a = some (.array table)) :
    ∃ after, evalBlock config deeper (rebuildStatements line a b k v) machine = .ok () after ∧
      machine.BindsOnly [b, k, v] after ∧ after.scope.get? b = some (.array table) := by
  obtain ⟨hb, hk, hv⟩ : b ≠ reservedName ∧ k ≠ reservedName ∧ v ≠ reservedName :=
    ⟨hfree b (by simp), hfree k (by simp), hfree v (by simp)⟩
  simp only [List.nodup_cons, List.mem_cons, List.not_mem_nil, or_false, not_or] at hnames
  obtain ⟨⟨hab, hak, hav⟩, ⟨hbk, hbv⟩, hkv, -⟩ := hnames
  let cleared : Machine := machine.withVariable b (.array .empty)
  have hkept : cleared.scope.get? a = some (.array table) := by
    rw [Machine.get?_withVariable, if_neg hab, ha]
  have hempty : cleared.scope.get? b = some (.array .empty) := by
    rw [Machine.get?_withVariable, if_pos rfl]
  obtain ⟨starts, after, hpasses, honly, hafter⟩ :
      ∃ starts after, Passes (evalBlock config deeper [storeEntry line b k v]) v (some k)
          table.entries cleared starts after ∧
        cleared.BindsOnly [b, k, v] after ∧ after.scope.get? b = some (.array table) :=
    passes_storeEntry hb hbk hbv hkv htable hempty
  have hloop : Node.evalAs config deeper .strict
      ⟨line, .foreach ⟨line, .variable a⟩ v [storeEntry line b k v] (some k)⟩ cleared =
        .ok .null after := by
    rw [evalAs_foreach (evalAs_variable hkept)]
    have hrun := hpasses.forEntries hv fun heq => hk (Option.some.inj heq)
    simp only [Eval.located, bind_of_ok _ hrun]
    rfl
  refine ⟨after, ?_, ⟨fun name hname => ?_, ?_⟩, hafter⟩
  · rw [rebuildStatements, evalBlock_cons (evalAs_clear hb machine), evalBlock_cons hloop]
    rfl
  · rw [honly.kept name hname]
    exact (Machine.BindsOnly.refl _ machine).withVariable List.mem_cons_self _ |>.kept name hname
  · exact honly.rest

theorem runStatements_evalNode (config : Config) (nodes : List Node) :
    runStatements (evalNode config) nodes =
      evalBlock config (evalWithin config (maxNesting - 1)) nodes := by
  induction nodes with
  | nil => rfl
  | cons node rest ih =>
    rw [runStatements, ih, evalBlock]
    rfl

end

/-- A loop that stores each entry of an array in another variable rebuilds the array there, as long
    as no variable that it gives a value is reserved. In general, a loop runs its statements exactly
    once for each entry that the array had at first, in order, whatever they do, unless they exit;
    then it exits like them. -/
theorem foreach_visits_entries (config : Config) :
    (∀ (machine : Machine) (line : Option Int) (a b k v : String) (table : Table Value),
      [a, b, k, v].Nodup → (∀ name ∈ [b, k, v], name ≠ reservedName) → table.Sound →
      machine.scope.get? a = some (.array table) →
      ∃ after, evalProgram config (rebuildStatements line a b k v) machine = (.finished, after) ∧
        after.scope.get? a = some (.array table) ∧ after.scope.get? b = some (.array table) ∧
        machine.BindsOnly [b, k, v] after) ∧
    ∀ (deeper : Node → Eval Value) (machine start : Machine) (reading : Reading)
      (line : Option Int) (expr : Node) (valueVar : String) (keyVar : Option String)
      (body : List Node) (table : Table Value),
      valueVar ≠ reservedName → keyVar ≠ some reservedName →
      expr.evalAs config deeper .strict machine = .ok (.array table) start →
      let loop : Node := ⟨line, .foreach expr valueVar body keyVar⟩
      let block := evalBlock config deeper body
      (∃ starts after, loop.evalAs config deeper reading machine = .ok .null after ∧
        Passes block valueVar keyVar table.entries start starts after ∧
        List.Forall₂ (Machine.StandsFor valueVar keyVar) table.entries starts) ∨
      ∃ done entry rest starts stopped exit after, table.entries = done ++ entry :: rest ∧
        Passes block valueVar keyVar done start starts stopped ∧
        block (stopped.bindEntry valueVar keyVar entry) = .error exit after ∧
        loop.evalAs config deeper reading machine = .error (exit.locate line) after := by
  constructor
  · intro machine line a b k v table hnames hfree htable ha
    obtain ⟨after, hrun, honly, hb⟩ : ∃ after,
        evalBlock config (evalWithin config (maxNesting - 1)) (rebuildStatements line a b k v)
          machine = .ok () after ∧
        machine.BindsOnly [b, k, v] after ∧ after.scope.get? b = some (.array table) :=
      evalBlock_rebuildStatements hnames hfree htable ha
    refine ⟨after, ?_, ?_, hb, honly⟩
    · unfold evalProgram
      rw [runStatements_evalNode, hrun]
    · rw [honly.kept a (List.nodup_cons.mp hnames).1, ha]
  · intro deeper machine start reading line expr valueVar keyVar body table hvalueVar hkeyVar hexpr
    rcases evalAs_foreach_cases hvalueVar hkeyVar hexpr with ⟨starts, after, hpasses, hrun⟩ | hstops
    · exact Or.inl ⟨starts, after, hrun, hpasses, hpasses.forall₂⟩
    · exact Or.inr hstops

/-- Negative keys, a key that is almost a number and one that is too large for an integer are kept.
    A loop that overwrites the array it runs over still comes to the second entry. -/
theorem foreach_visits_entries_mixed_keys :
    let table : Table Value :=
      ⟨[(.int (-5), .int 1), (.str "08", .null), (.int 7, .array .empty),
        (.str "9223372036854775808", .int 2)], 8⟩
    let short : Table Value := ⟨[(.int 0, .str "p"), (.str "x", .str "q")], 1⟩
    let machine (table : Table Value) : Machine :=
      ⟨⟨[("a", .array table)], 0⟩, .empty, none, "", [], 0⟩
    let var (name : String) : Node := ⟨none, .variable name⟩
    let loop : Node := ⟨none, .foreach (var "a") "v"
      [⟨none, .assign (var "a") (var "v")⟩, ⟨none, .echo [var "a"]⟩] none⟩
    let after : Machine :=
      ⟨⟨[("a", .str "q"), ("v", .str "q")], 0⟩, .empty, none, "pq", [], 0⟩
    parse "$b = []; foreach ($a as $k => $v) \x7b $b[$k] = $v; \x7d" =
        .ok (rebuildStatements (some 1) "a" "b" "k" "v") ∧
      (∃ after, evalProgram {} (rebuildStatements (some 1) "a" "b" "k" "v") (machine table) =
          (.finished, after) ∧ after.scope.get? "b" = some (.array table)) ∧
      loop.evalAs {} (evalWithin {} 0) .strict (machine short) = .ok .null after ∧
      ∃ starts, List.Forall₂ (Machine.StandsFor "v" none) short.entries starts := by
  intro table short machine var loop after
  have htokens : tokens
      (expandTags "$b = []; foreach ($a as $k => $v) \x7b $b[$k] = $v; \x7d".toList) =
      [⟨.variable "b", "$b", 1, 1⟩, ⟨.equals, "=", 1, 4⟩, ⟨.openBracket, "[", 1, 6⟩,
        ⟨.closeBracket, "]", 1, 7⟩, ⟨.semicolon, ";", 1, 8⟩,
        ⟨.keyword .foreach, "foreach", 1, 10⟩, ⟨.openParen, "(", 1, 18⟩,
        ⟨.variable "a", "$a", 1, 19⟩, ⟨.keyword .as, "as", 1, 22⟩, ⟨.variable "k", "$k", 1, 25⟩,
        ⟨.arrow, "=>", 1, 28⟩, ⟨.variable "v", "$v", 1, 31⟩, ⟨.closeParen, ")", 1, 33⟩,
        ⟨.openBrace, "\x7b", 1, 35⟩, ⟨.variable "b", "$b", 1, 37⟩, ⟨.openBracket, "[", 1, 39⟩,
        ⟨.variable "k", "$k", 1, 40⟩, ⟨.closeBracket, "]", 1, 42⟩, ⟨.equals, "=", 1, 44⟩,
        ⟨.variable "v", "$v", 1, 46⟩, ⟨.semicolon, ";", 1, 48⟩, ⟨.closeBrace, "\x7d", 1, 50⟩] := by
    decide +kernel
  have hparse : parse "$b = []; foreach ($a as $k => $v) \x7b $b[$k] = $v; \x7d" =
      .ok (rebuildStatements (some 1) "a" "b" "k" "v") := by
    rw [parse, htokens]
    rfl
  have hsound : table.Sound := by
    refine ⟨by decide, rfl, fun key hkey => ?_⟩
    have hkeys : key ∈ [.int (-5), .str "08", .int 7, .str "9223372036854775808"] := hkey
    simp only [List.mem_cons, List.not_mem_nil, or_false] at hkeys
    unfold Key.Normal
    rcases hkeys with rfl | rfl | rfl | rfl <;> cbv
  obtain ⟨hrebuilt, hpasses⟩ := foreach_visits_entries {}
  obtain ⟨rebuilt, hrun, -, hb, -⟩ := hrebuilt (machine table) (some 1) "a" "b" "k" "v" table
    (by decide) (by decide) hsound rfl
  have hloop : loop.evalAs {} (evalWithin {} 0) .strict (machine short) = .ok .null after := by cbv
  have hexpr : (var "a").evalAs {} (evalWithin {} 0) .strict (machine short) =
      .ok (.array short) (machine short) := by cbv
  refine ⟨hparse, ⟨rebuilt, hrun, hb⟩, hloop, ?_⟩
  rcases hpasses (evalWithin {} 0) _ _ .strict none (var "a") "v" none _ short (by decide)
    (by decide) hexpr with ⟨starts, -, -, -, hstarts⟩ | ⟨_, _, _, _, _, _, _, _, _, _, hstops⟩
  · exact ⟨starts, hstarts⟩
  · cases hstops.symm.trans hloop

/-- `$this = []; foreach ($a as $k => $v) …` fails, although the four names are different. -/
theorem rebuild_into_reserved_fails :
    let table : Table Value := ⟨[(.int 0, .int 1)], 1⟩
    let machine : Machine := ⟨⟨[("a", .array table)], 0⟩, .empty, none, "", [], 0⟩
    ["a", "this", "k", "v"].Nodup ∧ table.Sound ∧
      machine.scope.get? "a" = some (.array table) ∧
      evalProgram {} (rebuildStatements (some 1) "a" "this" "k" "v") machine =
        (.failed (.error (.reservedName "this") (some 1)), machine) := by
  intro table machine
  have hsound : table.Sound := by
    refine ⟨by decide, rfl, fun key hkey => ?_⟩
    cases List.mem_singleton.mp hkey
    rfl
  exact ⟨by decide, hsound, rfl, by cbv⟩

end WebScript
