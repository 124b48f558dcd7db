import WebScript.Proofs.Expansion

/-!
# Lenient reading

The left operand of `??` is read leniently: a missing variable or element is null. Where reading an
expression strictly gives a value, reading it leniently gives the same value and leaves the same
machine. Reading an element `$name[k₁]...[kₙ]` leniently ends in one of four ways: with the element,
with null where something on the way is absent, with an error where an array is the key to an array,
or at a limit, where a key is the text of an integer that cannot be read.
-/

namespace WebScript

/-! ## One element -/

namespace Value

/-- A value has no element that a key selects: an array without the key, a string without the
    character, or a value that has no elements at all. -/
def Lacks (base dim : Value) : Prop :=
  match base with
  | .array table => ∃ key, dim.toKey = .ok key ∧ table.get? key = none
  | .str text => ∃ refusal, characterAt text dim = .error refusal ∧ refusal.isAbsence
  | _ => True

/-- Using a value as a key meets a limit, since it is the text of an integer that cannot be read. -/
def KeyMeetsLimit (dim : Value) (limit : Limit) : Prop :=
  ∃ s, dim = .str s ∧ (Key.ofString s = .error limit ∨ parseNumeric s = .error limit)

/-- An array is the key to an array. -/
def IllegalKey (base dim : Value) : Prop := ∃ table other, base = .array table ∧ dim = .array other

variable {base dim : Value}

/-- An element that is there is read leniently as well. -/
theorem elementOrNull_of_element {value : Value} (h : base.element dim = .ok value) :
    base.elementOrNull dim = .ok value := by
  cases base with
  | array table =>
    obtain ⟨key, hkey, h⟩ := bind_eq_ok h
    split at h
    · rename_i found hfound
      cases h
      simp only [elementOrNull, hkey, bind, Except.bind, hfound]
      rfl
    · cases h
  | str text =>
    have hcharacter : characterAt text dim = .ok value := h
    simp only [elementOrNull, hcharacter]
  | _ => cases h

/-- A value is a key, or an array, which is none, or meets a limit. -/
theorem toKey_cases (dim : Value) :
    (∃ key, dim.toKey = .ok key) ∨
      (∃ table, dim = .array table) ∧
        dim.toKey = .error (.cause (.misuse (.illegalOffset .array))) ∨
      ∃ limit, dim.KeyMeetsLimit limit ∧ dim.toKey = .error (.limit limit) := by
  cases dim with
  | array table => exact Or.inr (Or.inl ⟨⟨table, rfl⟩, rfl⟩)
  | str s =>
    rw [toKey]
    cases hkey : Key.ofString s with
    | ok key => exact Or.inl ⟨key, rfl⟩
    | error limit => exact Or.inr (Or.inr ⟨limit, ⟨s, rfl, Or.inl hkey⟩, rfl⟩)
  | _ => exact Or.inl ⟨_, rfl⟩

/-- A limit is met at a character only by the number that a string denotes. -/
theorem keyMeetsLimit_of_characterAt {text : String} {limit : Limit}
    (h : characterAt text dim = .error (.limit limit)) : dim.KeyMeetsLimit limit := by
  cases dim with
  | int offset =>
    rcases characterAt_int text offset with ⟨c, hat⟩ | hat <;> cases hat.symm.trans h
  | str s =>
    refine ⟨s, rfl, Or.inr ?_⟩
    simp only [characterAt] at h
    cases hparsed : parseNumeric s with
    | error found =>
      rw [hparsed] at h
      cases h
      rfl
    | ok number =>
      rw [hparsed] at h
      rcases number with _ | offset | float
      · cases h
      · rcases characterAt_int text offset with ⟨c, hat⟩ | hat <;> cases hat.symm.trans h
      · cases h
  | _ => cases h

/-- Reading one element leniently. -/
theorem elementOrNull_cases (base dim : Value) :
    (∃ value, base.element dim = .ok value ∧ base.elementOrNull dim = .ok value) ∨
      base.Lacks dim ∧ base.elementOrNull dim = .ok .null ∨
      base.IllegalKey dim ∧
        base.elementOrNull dim = .error (.cause (.misuse (.illegalOffset .array))) ∨
      ∃ limit, dim.KeyMeetsLimit limit ∧ base.elementOrNull dim = .error (.limit limit) := by
  cases base with
  | array table =>
    simp only [elementOrNull, bind, Except.bind]
    rcases dim.toKey_cases with ⟨key, hkey⟩ | ⟨⟨other, rfl⟩, hkey⟩ | ⟨limit, hlimit, hkey⟩
    · cases hfound : table.get? key with
      | some value =>
        have helement : (Value.array table).element dim = .ok value := by
          simp only [element, hkey, bind, Except.bind, hfound]
          rfl
        simp only [hkey, hfound]
        exact Or.inl ⟨value, helement, rfl⟩
      | none =>
        simp only [hkey, hfound]
        exact Or.inr (Or.inl ⟨⟨key, hkey, hfound⟩, rfl⟩)
    · rw [hkey]
      exact Or.inr (Or.inr (Or.inl ⟨⟨table, other, rfl, rfl⟩, rfl⟩))
    · rw [hkey]
      exact Or.inr (Or.inr (Or.inr ⟨limit, hlimit, rfl⟩))
  | str text =>
    simp only [elementOrNull]
    cases hat : characterAt text dim with
    | ok value => exact Or.inl ⟨value, hat, rfl⟩
    | error refusal =>
      by_cases habsent : refusal.isAbsence
      · refine Or.inr (Or.inl ⟨⟨refusal, hat, habsent⟩, ?_⟩)
        simp only [habsent, if_true]
      · have hlimit : ∃ limit, refusal = .limit limit := by
          rcases characterAt_cases text dim with ⟨_, h⟩ | ⟨_, h⟩ | ⟨_, h⟩ | ⟨limit, h⟩ <;>
            cases hat.symm.trans h
          · exact absurd rfl habsent
          · exact absurd rfl habsent
          · exact ⟨limit, rfl⟩
        obtain ⟨limit, rfl⟩ := hlimit
        exact Or.inr (Or.inr (Or.inr ⟨limit, keyMeetsLimit_of_characterAt hat, rfl⟩))
  | _ => exact Or.inr (Or.inl ⟨trivial, rfl⟩)

theorem elementOrNull_of_lacks (h : base.Lacks dim) : base.elementOrNull dim = .ok .null := by
  cases base with
  | array table =>
    obtain ⟨key, hkey, hfound⟩ := h
    simp only [elementOrNull, hkey, bind, Except.bind, hfound]
    rfl
  | str text =>
    obtain ⟨refusal, hat, habsent⟩ := h
    simp only [elementOrNull, hat, habsent, if_true]
  | _ => rfl

/-! ## A row of keys -/

/-- The element that a row of keys leads to, or null where something on the way is absent. -/
def elementsOrNull (base : Value) (keys : List Value) : Except Refusal Value :=
  keys.foldlM elementOrNull base

/-- The element that a row of keys leads to. -/
def elements (base : Value) (keys : List Value) : Except Refusal Value :=
  keys.foldlM element base

/-- Before anything else goes wrong, a row of keys comes to a key that selects no element. -/
def LacksAlong (base : Value) (keys : List Value) : Prop :=
  ∃ before dim later met, keys = before ++ dim :: later ∧
    base.elementsOrNull before = .ok met ∧ met.Lacks dim

/-- A row of keys comes to an array that is the key to an array. -/
def IllegalAlong (base : Value) (keys : List Value) : Prop :=
  ∃ before dim later met, keys = before ++ dim :: later ∧
    base.elementsOrNull before = .ok met ∧ met.IllegalKey dim

variable {keys : List Value}

theorem elementsOrNull_cons (base dim : Value) (keys : List Value) :
    base.elementsOrNull (dim :: keys) =
      base.elementOrNull dim >>= fun value => value.elementsOrNull keys := by
  unfold elementsOrNull
  rw [List.foldlM_cons]

theorem elementsOrNull_singleton (base dim : Value) :
    base.elementsOrNull [dim] = base.elementOrNull dim := by
  rw [elementsOrNull_cons]
  cases base.elementOrNull dim <;> rfl

/-- Reading along one row of keys after another. -/
theorem elementsOrNull_append (base : Value) (before later : List Value) :
    base.elementsOrNull (before ++ later) =
      base.elementsOrNull before >>= fun met => met.elementsOrNull later := by
  unfold elementsOrNull
  rw [List.foldlM_append]

/-- Nothing is found in null. -/
theorem elementsOrNull_null (keys : List Value) : null.elementsOrNull keys = .ok .null := by
  induction keys with
  | nil => rfl
  | cons dim rest ih =>
    rw [elementsOrNull_cons]
    exact ih

/-- Where an element is missing, the rest of the keys is read of null. -/
theorem elementsOrNull_of_lacksAlong (h : base.LacksAlong keys) :
    base.elementsOrNull keys = .ok .null := by
  obtain ⟨before, dim, later, met, rfl, hmet, hlacks⟩ := h
  rw [elementsOrNull_append, hmet]
  show met.elementsOrNull (dim :: later) = _
  rw [elementsOrNull_cons, elementOrNull_of_lacks hlacks]
  exact elementsOrNull_null later

/-- Where an array is an illegal key, the reading stops with that cause. -/
theorem elementsOrNull_of_illegalAlong (h : base.IllegalAlong keys) :
    base.elementsOrNull keys = .error (.cause (.misuse (.illegalOffset .array))) := by
  obtain ⟨before, dim, later, met, rfl, hmet, table, other, rfl, rfl⟩ := h
  rw [elementsOrNull_append, hmet]
  rfl

/-- What is missing further on is missing along the longer row. -/
theorem LacksAlong.cons {dim value : Value} (hstep : base.elementOrNull dim = .ok value)
    (h : value.LacksAlong keys) : base.LacksAlong (dim :: keys) := by
  obtain ⟨before, missing, later, met, rfl, hmet, hlacks⟩ := h
  refine ⟨dim :: before, missing, later, met, rfl, ?_, hlacks⟩
  rw [elementsOrNull_cons, hstep]
  exact hmet

theorem IllegalAlong.cons {dim value : Value} (hstep : base.elementOrNull dim = .ok value)
    (h : value.IllegalAlong keys) : base.IllegalAlong (dim :: keys) := by
  obtain ⟨before, key, later, met, rfl, hmet, hillegal⟩ := h
  refine ⟨dim :: before, key, later, met, rfl, ?_, hillegal⟩
  rw [elementsOrNull_cons, hstep]
  exact hmet

/-- Reading along a row of keys leniently. -/
theorem elementsOrNull_cases (base : Value) (keys : List Value) :
    (∃ value, base.elements keys = .ok value ∧ base.elementsOrNull keys = .ok value) ∨
      base.LacksAlong keys ∨ base.IllegalAlong keys ∨
      ∃ limit, (∃ dim ∈ keys, dim.KeyMeetsLimit limit) ∧
        base.elementsOrNull keys = .error (.limit limit) := by
  induction keys generalizing base with
  | nil => exact Or.inl ⟨base, rfl, rfl⟩
  | cons dim rest ih =>
    rcases base.elementOrNull_cases dim with ⟨value, helement, hstep⟩ | ⟨hlacks, -⟩ |
      ⟨hillegal, -⟩ | ⟨limit, hlimit, hstep⟩
    · rcases ih value with ⟨found, hfound, hrest⟩ | hlacks | hillegal | ⟨limit, hlimit, hrest⟩
      · refine Or.inl ⟨found, ?_, ?_⟩
        · rw [elements, List.foldlM_cons, helement]
          exact hfound
        · rw [elementsOrNull_cons, hstep]
          exact hrest
      · exact Or.inr (Or.inl (hlacks.cons hstep))
      · exact Or.inr (Or.inr (Or.inl (hillegal.cons hstep)))
      · obtain ⟨key, hkey, hmeets⟩ := hlimit
        refine Or.inr (Or.inr (Or.inr ⟨limit, ⟨key, List.mem_cons_of_mem _ hkey, hmeets⟩, ?_⟩))
        rw [elementsOrNull_cons, hstep]
        exact hrest
    · exact Or.inr (Or.inl ⟨[], dim, rest, base, rfl, rfl, hlacks⟩)
    · exact Or.inr (Or.inr (Or.inl ⟨[], dim, rest, base, rfl, rfl, hillegal⟩))
    · refine Or.inr (Or.inr (Or.inr ⟨limit, ⟨dim, List.mem_cons_self, hlimit⟩, ?_⟩))
      rw [elementsOrNull_cons, hstep]
      rfl

end Value

/-! ## Expressions -/

/-- The keys of an element, `k₁`, ..., `kₙ` of `$name[k₁]...[kₙ]`. -/
def Node.dims : Node → List Node
  | ⟨_, .index base (some dim)⟩ => base.dims ++ [dim]
  | _ => []

section Expressions

open Eval

variable {config : Config} {depth : Nat} {name : String} {target : Node}

theorem ok_of_located {α : Type} {line : Option Int} {action : Eval α} {machine after : Machine}
    {value : α} (h : located line action machine = .ok value after) :
    action machine = .ok value after := by
  unfold located at h
  split at h
  · rename_i heq
    cases h
    exact heq
  · cases h

theorem exists_of_bind_ok {α β : Type} {first : Eval α} {next : α → Eval β}
    {machine after : Machine} {value : β} (h : (first >>= next) machine = .ok value after) :
    ∃ found between, first machine = .ok found between ∧ next found between = .ok value after := by
  cases hfirst : first machine with
  | ok found between =>
    rw [bind_of_ok next hfirst] at h
    exact ⟨found, between, rfl, h⟩
  | error exit between =>
    rw [bind_of_error next hfirst] at h
    cases h

theorem ofRefusal_eq_ok {α : Type} {result : Except Refusal α} {machine after : Machine}
    {value : α} (h : Eval.ofRefusal result machine = .ok value after) :
    result = .ok value ∧ after = machine := by
  cases result with
  | ok found =>
    cases h
    exact ⟨rfl, rfl⟩
  | error refusal => cases refusal <;> cases h

theorem Node.evalAs_lenient_variable (line : Option Int) (name : String) (machine : Machine) :
    Node.evalAs config (evalWithin config depth) .lenient ⟨line, .variable name⟩ machine =
      .ok ((machine.scope.get? name).getD .null) machine := by
  rw [Node.evalAs]
  rfl

theorem Node.evalAs_lenient_index (line : Option Int) (base dim : Node) :
    Node.evalAs config (evalWithin config depth) .lenient ⟨line, .index base (some dim)⟩ = (do
      let baseValue ← base.evalAs config (evalWithin config depth) .lenient
      let dimValue ← dim.evalAs config (evalWithin config depth) .strict
      Eval.ofRefusal (baseValue.elementOrNull dimValue)) := by
  rw [Node.evalAs]

/-- What is read strictly with a value is read leniently with the same value. -/
theorem Node.evalAt_lenient_of_strict (node : Node) {machine after : Machine} {value : Value}
    (h : node.evalAt config depth .strict machine = .ok value after) :
    node.evalAt config depth .lenient machine = .ok value after := by
  induction node using Node.inductionOnChildren generalizing machine after value with
  | step node ih =>
    obtain ⟨line, form⟩ := node
    rw [Node.evalAt] at h ⊢
    cases form with
    | «variable» name =>
      rw [Node.evalAs] at h
      have hread : Eval.ofCause (machine.scope.get name) machine = .ok value after :=
        ok_of_located h
      rw [Node.evalAs_lenient_variable]
      unfold Scope.get at hread
      cases hfound : machine.scope.get? name with
      | none =>
        rw [hfound] at hread
        cases hread
      | some found =>
        rw [hfound] at hread
        cases hread
        rfl
    | index base dim =>
      cases dim with
      | none =>
        rw [Node.evalAs] at h ⊢
        exact h
      | some dim =>
        rw [Node.evalAs] at h
        obtain ⟨baseValue, first, hbase, h⟩ := exists_of_bind_ok (ok_of_located h)
        obtain ⟨dimValue, second, hdim, h⟩ := exists_of_bind_ok h
        obtain ⟨helement, rfl⟩ := ofRefusal_eq_ok h
        have hlenient : base.evalAt config depth .lenient machine = .ok baseValue first :=
          ih base List.mem_cons_self hbase
        rw [Node.evalAs_lenient_index, bind_of_ok _ hlenient, bind_of_ok _ hdim,
          Value.elementOrNull_of_element helement]
        rfl
    | binary op left right =>
      by_cases hop : op = .coalesce
      · subst hop
        rw [Node.evalAs] at h ⊢
        exact h
      · have hreading : ∀ reading, Node.evalAs config (evalWithin config depth) reading
            ⟨line, .binary op left right⟩ = Node.evalAs config (evalWithin config depth) .strict
              ⟨line, .binary op left right⟩ := by
          intro reading
          rw [Node.evalAs, Node.evalAs] <;> exact hop
        rw [hreading]
        exact h
    | ret expr =>
      cases expr with
      | none | some =>
        rw [Node.evalAs] at h ⊢
        exact h
    | _ =>
      rw [Node.evalAs] at h ⊢
      exact h

/-- An effect-free expression with a value has it whatever has been reported, and only reports. -/
theorem Node.EffectFree.evalAt_withEvents {dim : Node} (hdim : dim.EffectFree) {machine : Machine}
    {value : Value} (h : (dim.evalAt config depth .strict).value? machine = some value)
    (events : List Event) :
    ∃ more, dim.evalAt config depth .strict (machine.withEvents events) =
      .ok value (machine.withEvents more) := by
  have hignores : IgnoresLog (dim.evalAt config depth .strict) :=
    IgnoresLog.of_refines ((logSimulation_follows config depth dim).eval .strict)
  have hvalue : (dim.evalAt config depth .strict).value? (machine.withEvents events) =
      some value := by
    rw [value?_eq_map_gives, hignores _ _ (machine.sameButLog_withEvents events),
      ← value?_eq_map_gives, h]
  have hquiet : Quiet (dim.evalAt config depth .strict) := hdim.quiet .strict
  unfold value? at hvalue
  rcases hquiet (machine.withEvents events) with ⟨found, more, hrun⟩ | ⟨fault, more, hrun⟩
  · rw [hrun] at hvalue
    cases hvalue
    rw [Machine.withEvents_withEvents] at hrun
    exact ⟨_, hrun⟩
  · rw [hrun] at hvalue
    cases hvalue

/-- Reading an element of a variable leniently goes along the values of its keys. -/
theorem Node.ElementOf.evalAt_lenient (h : target.ElementOf name) {machine : Machine}
    {keys : List Value}
    (hkeys : target.dims.map (fun dim => (dim.evalAt config depth .strict).value? machine) =
      keys.map some) :
    ∃ events, target.evalAt config depth .lenient machine =
      Eval.ofRefusal (((machine.scope.get? name).getD .null).elementsOrNull keys)
        (machine.withEvents events) := by
  induction h generalizing keys with
  | root line =>
    cases keys with
    | nil => exact ⟨[], Node.evalAs_lenient_variable line name machine⟩
    | cons key rest => cases hkeys
  | element line hbase hdim ih =>
    rename_i base dim
    rw [Node.dims, List.map_append] at hkeys
    obtain ⟨before, last, rfl, hbefore, hlast⟩ := List.append_eq_map_iff.mp hkeys
    obtain ⟨dimValue, rfl, hvalue⟩ : ∃ dimValue, last = [dimValue] ∧
        (dim.evalAt config depth .strict).value? machine = some dimValue := by
      cases last with
      | nil => cases hlast
      | cons dimValue rest =>
        obtain ⟨hvalue, hrest⟩ := List.cons.inj hlast
        exact ⟨dimValue, by rw [List.map_eq_nil_iff.mp hrest], hvalue.symm⟩
    obtain ⟨events, hread⟩ := ih hbefore.symm
    rw [Node.evalAt, Node.evalAs_lenient_index, Value.elementsOrNull_append]
    cases hmet : ((machine.scope.get? name).getD .null).elementsOrNull before with
    | error refusal =>
      rw [hmet] at hread
      refine ⟨events, ?_⟩
      cases refusal <;> exact bind_of_error _ hread
    | ok met =>
      rw [hmet] at hread
      obtain ⟨more, hdimRun⟩ := hdim.evalAt_withEvents hvalue events
      refine ⟨more, ?_⟩
      rw [bind_of_ok _ hread, bind_of_ok _ hdimRun]
      show _ = Eval.ofRefusal (met.elementsOrNull [dimValue]) _
      rw [Value.elementsOrNull_singleton]

end Expressions

/-! ## Endings -/

/-- Reading along keys comes to something that is not there: the variable is unbound, or a key
    selects nothing. -/
def AbsentAlong (bound : Option Value) (keys : List Value) : Prop :=
  bound = none ∨ (bound.getD .null).LacksAlong keys

/-- The error that an array is no key. -/
def illegalKeyExit : Exit := .fault (.error (.misuse (.illegalOffset .array)) none)

/-- How reading along keys from a variable ends: with the element, if the variable is bound and
    every key selects an element; with null, if something is not there; with an error, if an array
    is the key to an array; or at a limit that a key meets. -/
inductive LenientEnding (bound : Option Value) (keys : List Value) : Except Exit Value → Prop
  | found {root value : Value} (hroot : bound = some root) (h : root.elements keys = .ok value) :
    LenientEnding bound keys (.ok value)
  | absent (h : AbsentAlong bound keys) : LenientEnding bound keys (.ok .null)
  | illegal (h : (bound.getD .null).IllegalAlong keys) :
    LenientEnding bound keys (.error illegalKeyExit)
  | limit {limit : Limit} (h : ∃ dim ∈ keys, dim.KeyMeetsLimit limit) :
    LenientEnding bound keys (.error (.fault (.limit limit)))

section Endings

variable {bound : Option Value} {keys : List Value} {after : Machine}

theorem ending_of_absentAlong (h : AbsentAlong bound keys) :
    (Eval.ofRefusal ((bound.getD .null).elementsOrNull keys)).ending after = .ok .null := by
  rcases h with rfl | h
  · rw [Option.getD_none, Value.elementsOrNull_null]
    rfl
  · rw [Value.elementsOrNull_of_lacksAlong h]
    rfl

theorem ending_of_illegalAlong (h : (bound.getD .null).IllegalAlong keys) :
    (Eval.ofRefusal ((bound.getD .null).elementsOrNull keys)).ending after =
      .error illegalKeyExit := by
  rw [Value.elementsOrNull_of_illegalAlong h]
  rfl

theorem lenientEnding (bound : Option Value) (keys : List Value) (after : Machine) :
    LenientEnding bound keys
      ((Eval.ofRefusal ((bound.getD .null).elementsOrNull keys)).ending after) := by
  cases bound with
  | none =>
    rw [ending_of_absentAlong (Or.inl rfl)]
    exact .absent (Or.inl rfl)
  | some root =>
    rcases root.elementsOrNull_cases keys with ⟨value, hfound, hread⟩ | hlacks | hillegal |
      ⟨limit, hlimit, hread⟩
    · rw [Option.getD_some, hread]
      exact .found rfl hfound
    · have habsent : AbsentAlong (some root) keys := Or.inr hlacks
      rw [ending_of_absentAlong habsent]
      exact .absent habsent
    · have hillegal : ((some root).getD .null).IllegalAlong keys := hillegal
      rw [ending_of_illegalAlong hillegal]
      exact .illegal hillegal
    · rw [Option.getD_some, hread]
      exact .limit hlimit

end Endings

/-- What an expression gives when it is read strictly, it gives when it is read leniently, on the
    same machine. An element of a variable whose keys have values is read leniently with the
    element, with null where the variable is unbound or a key selects nothing, or with the error
    that an array is the key to an array, unless a key is the text of an integer that cannot be
    read; reading it changes nothing but the log. -/
theorem lenient_reading_agrees (config : Config) (depth : Nat) :
    (∀ (node : Node) (machine after : Machine) (value : Value),
      node.evalAt config depth .strict machine = .ok value after →
        node.evalAt config depth .lenient machine = .ok value after) ∧
    ∀ (name : String) (target : Node) (machine : Machine) (keys : List Value),
      target.ElementOf name →
      target.dims.map (fun dim => (dim.evalAt config depth .strict).value? machine) =
        keys.map some →
      let bound := machine.scope.get? name
      let read := target.evalAt config depth .lenient
      (∃ events, read.after machine = machine.withEvents events) ∧
      LenientEnding bound keys (read.ending machine) ∧
      (AbsentAlong bound keys → read.ending machine = .ok .null) ∧
      ((bound.getD .null).IllegalAlong keys → read.ending machine = .error illegalKeyExit) := by
  refine ⟨fun node machine after value => node.evalAt_lenient_of_strict, ?_⟩
  intro name target machine keys htarget hkeys bound read
  obtain ⟨events, hread⟩ : ∃ events, read machine =
      Eval.ofRefusal ((bound.getD .null).elementsOrNull keys) (machine.withEvents events) :=
    htarget.evalAt_lenient hkeys
  have hending : read.ending machine =
      (Eval.ofRefusal ((bound.getD .null).elementsOrNull keys)).ending
        (machine.withEvents events) := by
    unfold Eval.ending
    rw [hread]
  have hafter : read.after machine = machine.withEvents events := by
    unfold Eval.after
    rw [hread]
    cases (bound.getD .null).elementsOrNull keys with
    | ok value => rfl
    | error refusal => cases refusal <;> rfl
  rw [hending]
  exact ⟨⟨events, hafter⟩, lenientEnding bound keys _, ending_of_absentAlong, ending_of_illegalAlong⟩

/-- With `$a = [1 => "xy"]`, reading `$a[true][5][[]]` leniently gives null, since the string has no
    sixth character, whatever the key after it is; reading `$a[[]]` is an error. -/
theorem lenient_reading_agrees_character :
    let machine : Machine :=
      { Machine.start none with scope := ⟨[("a", .array ⟨[(.int 1, .str "xy")], 2⟩)], 0⟩ }
    let root : Node := ⟨some 1, .variable "a"⟩
    let first : Node := ⟨some 1, .index root (some ⟨some 1, .constant "true"⟩)⟩
    let second : Node := ⟨some 1, .index first (some ⟨some 1, .int 5⟩)⟩
    let third : Node := ⟨some 1, .index second (some ⟨some 1, .arrayLiteral []⟩)⟩
    let illegal : Node := ⟨some 1, .index root (some ⟨some 1, .arrayLiteral []⟩)⟩
    third.ElementOf "a" ∧ illegal.ElementOf "a" ∧
      (third.evalAt {} 3332 .lenient).ending machine = .ok .null ∧
      (illegal.evalAt {} 3332 .lenient).ending machine = .error illegalKeyExit := by
  intro machine root first second third illegal
  have hfirst : first.ElementOf "a" := .element _ (.root _) (.of_leaf rfl rfl)
  have hthird : third.ElementOf "a" :=
    .element _ (.element _ hfirst (.of_leaf rfl rfl)) (.of_leaf rfl rfl)
  have hillegal : illegal.ElementOf "a" := .element _ (.root _) (.of_leaf rfl rfl)
  have hkeys : third.dims.map (fun dim => (dim.evalAt {} 3332 .strict).value? machine) =
      [Value.bool true, .int 5, .array .empty].map some := by cbv
  have hkey : illegal.dims.map (fun dim => (dim.evalAt {} 3332 .strict).value? machine) =
      [Value.array .empty].map some := by cbv
  obtain ⟨-, hreads⟩ := lenient_reading_agrees {} 3332
  obtain ⟨-, -, habsent, -⟩ := hreads "a" third machine _ hthird hkeys
  obtain ⟨-, -, -, herror⟩ := hreads "a" illegal machine _ hillegal hkey
  refine ⟨hthird, hillegal, habsent (Or.inr ?_), herror ?_⟩
  · exact ⟨[.bool true], .int 5, [.array .empty], .str "xy", rfl, rfl, _, rfl, rfl⟩
  · exact ⟨[], .array .empty, [], _, rfl, rfl, _, _, rfl, rfl⟩

end WebScript
