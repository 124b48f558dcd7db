import WebScript.Operator.Apply
import WebScript.Proofs.Dict
import WebScript.Value.Element

/-!
# Properties that all operations on values keep

A `ValueClosure` holds of the values that evaluation starts from and of whatever the operators, and
the operations on arrays that are given their keys, make of such values. Reading elements along a
path then keeps it, too. A `ValueInvariant` is also kept when an element is appended under a key
that the array chooses, and so by writing along a path.
-/

namespace WebScript

/-- A property of values, and of array keys, that operations on values keep as long as none chooses
    a key of its own. -/
structure ValueClosure where
  value : Value → Prop
  key : Key → Prop
  null : value .null
  bool (b : Bool) : value (.bool b)
  str (s : String) : value (.str s)
  float (f : Float) : value (.float f)
  one : value (.int 1)
  binary {op : BinaryOperator} {left right result : Value} (hleft : value left)
    (hright : value right) (h : (op.apply left right).result = .ok result) : value result
  unary {op : UnaryOperator} {operand result : Value} (hoperand : value operand)
    (h : (op.apply operand).result = .ok result) : value result
  toKey {v : Value} {k : Key} (hv : value v) (h : v.toKey = .ok k) : key k
  ofKey {k : Key} (hk : key k) : value k.toValue
  empty : value (.array .empty)
  set {table : Table Value} {k : Key} {v : Value} (htable : value (.array table)) (hk : key k)
    (hv : value v) : value (.array (table.set k v))
  entry {table : Table Value} {k : Key} {v : Value} (htable : value (.array table))
    (h : (k, v) ∈ table.entries) : key k ∧ value v

/-- A property of values, and of array keys, that every operation on values keeps. -/
structure ValueInvariant extends ValueClosure where
  append {table : Table Value} {v : Value} (htable : value (.array table)) (hv : value v) :
    value (.array (table.append v))

theorem bind_eq_ok {ε α β : Type} {first : Except ε α} {next : α → Except ε β} {result : β}
    (h : (first >>= next) = .ok result) : ∃ value, first = .ok value ∧ next value = .ok result := by
  cases first with
  | error e => cases h
  | ok value => exact ⟨value, rfl, h⟩

/-- At an integer offset there is a character or none. -/
theorem characterAt_int (text : String) (offset : Int) :
    (∃ c, characterAt text (.int offset) = .ok (.str (String.singleton c))) ∨
      characterAt text (.int offset) = .error (.cause (.indexNotFound (.int offset))) := by
  simp only [characterAt, pure_bind]
  generalize (if offset < 0 then offset + (text.toList.length : Int) else offset) = position
  split
  · exact Or.inr rfl
  · split
    · exact Or.inl ⟨_, rfl⟩
    · exact Or.inr rfl

/-- Selecting a character of a string gives a string of one character, or finds none at the offset,
    or refuses the value as an offset or the text of a number as too long. -/
theorem characterAt_cases (text : String) (dim : Value) :
    (∃ c, characterAt text dim = .ok (.str (String.singleton c))) ∨
      (∃ offset, characterAt text dim = .error (.cause (.indexNotFound (.int offset)))) ∨
      (∃ type, characterAt text dim = .error (.cause (.misuse (.offsetOnString type)))) ∨
      ∃ limit, characterAt text dim = .error (.limit limit) := by
  cases dim with
  | int offset => exact (characterAt_int text offset).imp_right fun h => Or.inl ⟨offset, h⟩
  | str s =>
    simp only [characterAt]
    cases parseNumeric s with
    | error limit => exact Or.inr (Or.inr (Or.inr ⟨limit, rfl⟩))
    | ok number =>
      rcases number with _ | offset | float
      · exact Or.inr (Or.inr (Or.inl ⟨_, rfl⟩))
      · exact (characterAt_int text offset).imp_right fun h => Or.inl ⟨offset, h⟩
      · exact Or.inr (Or.inr (Or.inl ⟨_, rfl⟩))
  | _ => exact Or.inr (Or.inr (Or.inl ⟨_, rfl⟩))

namespace ValueClosure

variable (V : ValueClosure)

/-- The keys of a path that is written; `none` is an appended element. -/
def path (keys : List (Option Key)) : Prop := ∀ key, some key ∈ keys → V.key key

variable {V}

theorem get? {table : Table Value} {key : Key} {v : Value} (htable : V.value (.array table))
    (h : table.get? key = some v) : V.value v :=
  (V.entry htable (Dict.mem_of_get? h)).2

theorem getD_get? {table : Table Value} (htable : V.value (.array table)) (key : Key) :
    V.value ((table.get? key).getD .null) := by
  cases h : table.get? key with
  | none => exact V.null
  | some v => exact V.get? htable h

theorem characterAt {text : String} {dim v : Value}
    (h : WebScript.characterAt text dim = .ok v) : V.value v := by
  rcases characterAt_cases text dim with ⟨c, hat⟩ | ⟨offset, hat⟩ | ⟨type, hat⟩ | ⟨limit, hat⟩ <;>
    cases hat.symm.trans h
  exact V.str _

/-- An element of a value that is as it should be is, and so is a character of a string. -/
theorem element {base dim v : Value} (hbase : V.value base) (h : base.element dim = .ok v) :
    V.value v := by
  cases base with
  | array table =>
    obtain ⟨key, -, h⟩ := bind_eq_ok h
    split at h
    · rename_i found
      cases h
      exact V.get? hbase found
    · cases h
  | str text => exact V.characterAt h
  | _ => cases h

/-- Where an element is missing the value is null. -/
theorem elementOrNull {base dim v : Value} (hbase : V.value base)
    (h : base.elementOrNull dim = .ok v) : V.value v := by
  cases base with
  | array table =>
    obtain ⟨key, -, h⟩ := bind_eq_ok h
    cases h
    exact V.getD_get? hbase key
  | str text =>
    simp only [Value.elementOrNull] at h
    split at h
    · rename_i found
      cases h
      exact V.characterAt found
    · split at h
      · cases h
        exact V.null
      · cases h
  | _ =>
    cases h
    exact V.null

/-- What an element is written into is the array that is there or an empty one. -/
theorem tableToWrite {container : Option Value} {table : Table Value}
    (hcontainer : ∀ v, container = some v → V.value v)
    (h : WebScript.tableToWrite container = .ok table) : V.value (.array table) := by
  unfold WebScript.tableToWrite at h
  split at h
  · cases h
    exact V.empty
  · cases h
    exact V.empty
  · cases h
    exact hcontainer _ rfl
  · simp at h

theorem orNull {absentOk : Bool} {cause : Cause} {v : Value}
    (h : (if absentOk then .ok .null else .error cause : Except Cause Value) = .ok v) :
    V.value v := by
  cases absentOk with
  | false => cases h
  | true =>
    cases h
    exact V.null

/-- Reading along a path gives a value that is as it should be, element by element. -/
theorem readPath {absentOk : Bool} {container v : Value} {keys : List Key}
    (hcontainer : V.value container) (h : WebScript.readPath absentOk container keys = .ok v) :
    V.value v := by
  induction keys generalizing container with
  | nil =>
    cases h
    exact hcontainer
  | cons key rest ih =>
    cases container with
    | array table =>
      simp only [WebScript.readPath] at h
      split at h
      · rename_i inner hinner
        exact ih (V.get? hcontainer hinner) h
      · exact V.orNull h
    | null => exact V.orNull h
    | _ => cases h

/-- Two properties at once. -/
def and (V W : ValueClosure) : ValueClosure where
  value v := V.value v ∧ W.value v
  key k := V.key k ∧ W.key k
  null := ⟨V.null, W.null⟩
  bool b := ⟨V.bool b, W.bool b⟩
  str s := ⟨V.str s, W.str s⟩
  float f := ⟨V.float f, W.float f⟩
  one := ⟨V.one, W.one⟩
  binary hleft hright h := ⟨V.binary hleft.1 hright.1 h, W.binary hleft.2 hright.2 h⟩
  unary hoperand h := ⟨V.unary hoperand.1 h, W.unary hoperand.2 h⟩
  toKey hv h := ⟨V.toKey hv.1 h, W.toKey hv.2 h⟩
  ofKey hk := ⟨V.ofKey hk.1, W.ofKey hk.2⟩
  empty := ⟨V.empty, W.empty⟩
  set htable hk hv := ⟨V.set htable.1 hk.1 hv.1, W.set htable.2 hk.2 hv.2⟩
  entry htable h := ⟨⟨(V.entry htable.1 h).1, (W.entry htable.2 h).1⟩,
    ⟨(V.entry htable.1 h).2, (W.entry htable.2 h).2⟩⟩

end ValueClosure

/-! ## Writing along a path -/

/-- The table to which writing along a path appends an element: the first one on the way at which
    the path has no key. The tables inside the new element are all new. -/
def appendedTable? (container : Option Value) : List (Option Key) → Option (Table Value)
  | [] => none
  | key :: rest =>
    match tableToWrite container with
    | .error _ => none
    | .ok table =>
      match key with
      | some key => appendedTable? (table.get? key) rest
      | none => some table

/-- Writing a new element appends to empty tables only. -/
theorem eq_empty_of_appendedTable? {keys : List (Option Key)} {table : Table Value}
    (h : appendedTable? none keys = some table) : table = .empty := by
  induction keys with
  | nil => cases h
  | cons key rest ih =>
    cases key with
    | none =>
      cases h
      rfl
    | some key => exact ih h

/-- Writing along a path keeps a property if appending does, to the table on the way and to empty
    ones. -/
theorem ValueClosure.writePath {V : ValueClosure} {container : Option Value} {v written : Value}
    {keys : List (Option Key)} (hcontainer : ∀ v, container = some v → V.value v) (hv : V.value v)
    (hkeys : V.path keys)
    (hempty : ∀ v, V.value v → V.value (.array ((Table.empty : Table Value).append v)))
    (happend : ∀ table v, appendedTable? container keys = some table → V.value (.array table) →
      V.value v → V.value (.array (table.append v)))
    (h : WebScript.writePath container v keys = .ok written) : V.value written := by
  induction keys generalizing container written with
  | nil =>
    cases h
    exact hv
  | cons key rest ih =>
    have hrest : V.path rest := fun key hkey => hkeys key (List.mem_cons_of_mem _ hkey)
    obtain ⟨table, htable, h⟩ := bind_eq_ok h
    have hwhole := V.tableToWrite hcontainer htable
    cases key with
    | some key =>
      obtain ⟨inner, hinner, h⟩ := bind_eq_ok h
      cases h
      have hinner := ih (fun v hfound => V.get? hwhole hfound) hrest
        (fun table v happended => happend table v (by simpa [appendedTable?, htable])) hinner
      exact V.set hwhole (hkeys key List.mem_cons_self) hinner
    | none =>
      obtain ⟨inner, hinner, h⟩ := bind_eq_ok h
      cases h
      have hinner := ih (fun v hfound => by cases hfound) hrest
        (fun table v happended _ hv => eq_empty_of_appendedTable? happended ▸ hempty v hv) hinner
      exact happend table inner (by simp [appendedTable?, htable]) hwhole hinner

/-- Writing along a path leaves values as they should be if appending always does. -/
theorem ValueInvariant.writePath {V : ValueInvariant} {container : Option Value}
    {v written : Value} {keys : List (Option Key)}
    (hcontainer : ∀ v, container = some v → V.value v) (hv : V.value v) (hkeys : V.path keys)
    (h : WebScript.writePath container v keys = .ok written) : V.value written :=
  ValueClosure.writePath hcontainer hv hkeys (fun _ hv => V.append V.empty hv)
    (fun _ _ _ htable hv => V.append htable hv) h

end WebScript
