import WebScript.Proofs.Moments

/-!
# The shape of arrays

The arrays of a running program are `Sound`: no key occurs twice, the counter for the next appended
element is just past the largest integer key, and every key is the one that its own value stands for.
All operations on values keep this, so it holds of all arrays at all moments of all runs, and an
appended element is always new and always last.
-/

namespace WebScript

/-! ## Keys -/

/-- The number of an integer key. -/
def Key.int? : Key → Option Int
  | .int n => some n
  | .str _ => none

/-- The counter that belongs to keys: one more than the largest integer among them, but at least
    zero. -/
def nextKey (keys : List Key) : Int :=
  (keys.filterMap Key.int?).foldr (fun n bound => max (n + 1) bound) 0

/-- A key is the one that its value stands for. -/
def Key.Normal (key : Key) : Prop := key.toValue.toKey = .ok key

/-- A bound of the counter that belongs to keys is one of all integers among them. -/
theorem nextKey_le_iff {keys : List Key} {bound : Int} :
    nextKey keys ≤ bound ↔ 0 ≤ bound ∧ ∀ n, .int n ∈ keys → n < bound := by
  unfold nextKey
  induction keys with
  | nil => simp
  | cons key rest ih =>
    cases key with
    | str s =>
      have hmem : ∀ m, Key.int m ∈ Key.str s :: rest ↔ .int m ∈ rest := by simp
      simp only [hmem]
      exact ih
    | int n =>
      have hfold : ((Key.int n :: rest).filterMap Key.int?).foldr
          (fun n bound => max (n + 1) bound) 0 =
            max (n + 1) ((rest.filterMap Key.int?).foldr (fun n bound => max (n + 1) bound) 0) := rfl
      have hmem : ∀ m, Key.int m ∈ Key.int n :: rest ↔ m = n ∨ .int m ∈ rest := by simp
      rw [hfold, max_le_iff, ih]
      simp only [hmem]
      constructor
      · rintro ⟨hn, hbound, hrest⟩
        exact ⟨hbound, fun m hm => hm.elim (fun heq => by omega) (hrest m)⟩
      · rintro ⟨hbound, hall⟩
        have := hall n (Or.inl rfl)
        exact ⟨by omega, hbound, fun m hm => hall m (Or.inr hm)⟩

/-- The next key is larger than every integer key. -/
theorem lt_nextKey {keys : List Key} {n : Int} (h : .int n ∈ keys) : n < nextKey keys :=
  (nextKey_le_iff.mp le_rfl).2 n h

theorem bumpNext_int (next n : Int) : bumpNext next (.int n) = max next (n + 1) := by
  show (if next ≤ n then n + 1 else next) = max next (n + 1)
  split <;> omega

/-- A new last key moves the next key on as storing at it does. -/
theorem nextKey_append (keys : List Key) (key : Key) :
    nextKey (keys ++ [key]) = bumpNext (nextKey keys) key := by
  unfold nextKey
  rw [List.filterMap_append, List.foldr_append]
  cases key with
  | str s => rfl
  | int n =>
    have hfold : ∀ numbers : List Int,
        numbers.foldr (fun n bound => max (n + 1) bound) (max (n + 1) 0) =
          max (n + 1) (numbers.foldr (fun n bound => max (n + 1) bound) 0) := by
      intro numbers
      induction numbers with
      | nil => rfl
      | cons first rest ih =>
        rw [List.foldr_cons, List.foldr_cons, ih]
        omega
    show (keys.filterMap Key.int?).foldr (fun n bound => max (n + 1) bound) (max (n + 1) 0) = _
    rw [hfold, bumpNext_int]
    exact Int.max_comm _ _

/-- Storing at a key that is there already leaves the next key as it is. -/
theorem bumpNext_of_mem {keys : List Key} {key : Key} (h : key ∈ keys) :
    bumpNext (nextKey keys) key = nextKey keys := by
  cases key with
  | str s => rfl
  | int n =>
    have := lt_nextKey h
    rw [bumpNext_int]
    omega

/-- A string key is the string that it was made from. -/
theorem Key.ofString_eq_str {s t : String} (h : Key.ofString s = .ok (.str t)) : t = s := by
  unfold Key.ofString at h
  split at h
  · split at h
    · cases h
    · rw [Except.ok.injEq] at h
      split at h
      · cases h
      · cases h
        rfl
  · cases h
    rfl

/-- A value is made a key in the form that is kept. -/
theorem Value.normal_of_toKey {v : Value} {key : Key} (h : v.toKey = .ok key) : key.Normal := by
  cases v with
  | null =>
    cases h
    rfl
  | bool b =>
    cases h
    rfl
  | int n =>
    cases h
    rfl
  | float f =>
    cases h
    rfl
  | str s =>
    cases key with
    | int n => rfl
    | str t =>
      have hstring : Key.ofString s = .ok (.str t) := by
        cases hs : Key.ofString s with
        | error limit => simp [Value.toKey, hs, Except.mapError] at h
        | ok key => simpa [Value.toKey, hs, Except.mapError] using h
      cases Key.ofString_eq_str hstring
      exact h
  | array table => cases h

/-! ## Tables -/

/-- The invariant of an array, less that of the arrays inside it. -/
structure Table.Sound {ν : Type} (table : Table ν) : Prop where
  distinct : (Dict.keys table.entries).Nodup
  next : table.next = nextKey (Dict.keys table.entries)
  normal : ∀ key ∈ Dict.keys table.entries, key.Normal

namespace Table

variable {ν : Type} {table : Table ν}

theorem Sound.empty : (Table.empty : Table ν).Sound :=
  ⟨List.nodup_nil, rfl, fun key hkey => by cases hkey⟩

/-- Storing at a key in the form that is kept leaves a table sound. -/
theorem Sound.set (h : table.Sound) {key : Key} (hkey : key.Normal) (v : ν) :
    (table.set key v).Sound := by
  have hkeys : Dict.keys (table.set key v).entries = _ := Dict.keys_insert key v table.entries
  by_cases hmem : key ∈ Dict.keys table.entries
  · rw [if_pos hmem] at hkeys
    refine ⟨hkeys ▸ h.distinct, ?_, hkeys ▸ h.normal⟩
    rw [hkeys, ← bumpNext_of_mem hmem, ← h.next]
    rfl
  · rw [if_neg hmem] at hkeys
    refine ⟨?_, ?_, fun other hother => ?_⟩
    · rw [hkeys, List.nodup_append]
      refine ⟨h.distinct, by simp, fun other hother last hlast heq => ?_⟩
      exact hmem (List.mem_singleton.mp hlast ▸ heq ▸ hother)
    · rw [hkeys, nextKey_append, ← h.next]
      rfl
    · rw [hkeys] at hother
      rcases List.mem_append.mp hother with hother | hother
      · exact h.normal other hother
      · exact List.mem_singleton.mp hother ▸ hkey

/-- The next key is not a key yet. -/
theorem Sound.next_not_mem (h : table.Sound) : .int table.next ∉ Dict.keys table.entries := by
  intro hmem
  have := lt_nextKey hmem
  rw [h.next] at this
  omega

/-- Appending is storing at the next key. -/
theorem append_eq_set (table : Table ν) (v : ν) :
    table.append v = table.set (.int table.next) v := by
  simp [append, set, bumpNext]

/-- Appending leaves a table sound. -/
theorem Sound.append (h : table.Sound) (v : ν) : (table.append v).Sound := by
  rw [append_eq_set]
  have hkey : (Key.int table.next).Normal := rfl
  exact h.set hkey v

/-- An appended element is new and goes last. -/
theorem Sound.entries_append (h : table.Sound) (v : ν) :
    (table.append v).entries = table.entries ++ [(.int table.next, v)] :=
  Dict.insert_of_not_mem h.next_not_mem

/-- What holds of the left table, and stays true when entries of the right one are added, holds of
    their union. -/
theorem union_induction {P : Table ν → Prop} {left right : Table ν} (hleft : P left)
    (hset : ∀ table key value, (key, value) ∈ right.entries → P table → P (table.set key value)) :
    P (left.union right) := by
  unfold union
  generalize right.entries = entries at hset
  induction entries generalizing left with
  | nil => exact hleft
  | cons entry rest ih =>
    rw [List.foldl_cons]
    refine ih ?_ fun table key value hmem => hset table key value (List.mem_cons_of_mem _ hmem)
    split
    · exact hleft
    · exact hset left entry.1 entry.2 List.mem_cons_self hleft

end Table

/-! ## Values -/

/-- A value is an array or holds one, at any depth. -/
inductive Value.Contains : Value → Table Value → Prop
  | self {table : Table Value} : Value.Contains (.array table) table
  | entry {table inner : Table Value} {key : Key} {value : Value}
    (hmem : (key, value) ∈ table.entries) (h : Value.Contains value inner) :
    Value.Contains (.array table) inner

/-- All arrays in a value are sound. -/
def Value.Sound (value : Value) : Prop := ∀ table, value.Contains table → table.Sound

namespace Value

/-- An array is sound if its table is and its elements are. -/
theorem sound_array {table : Table Value} :
    (Value.array table).Sound ↔ table.Sound ∧ ∀ entry ∈ table.entries, entry.2.Sound := by
  constructor
  · intro h
    exact ⟨h table .self, fun entry hentry inner hinner => h inner (.entry hentry hinner)⟩
  · rintro ⟨htable, hentries⟩ inner hinner
    cases hinner with
    | self => exact htable
    | entry hmem hinner => exact hentries _ hmem inner hinner

theorem Sound.set {table : Table Value} (h : (Value.array table).Sound) {key : Key}
    (hkey : key.Normal) {v : Value} (hv : v.Sound) : (Value.array (table.set key v)).Sound := by
  rw [sound_array] at h ⊢
  refine ⟨h.1.set hkey v, fun entry hentry => ?_⟩
  rcases Dict.mem_insert hentry with rfl | hentry
  · exact hv
  · exact h.2 entry hentry

theorem Sound.append {table : Table Value} (h : (Value.array table).Sound) {v : Value}
    (hv : v.Sound) : (Value.array (table.append v)).Sound := by
  have hkey : (Key.int table.next).Normal := rfl
  rw [Table.append_eq_set]
  exact h.set hkey hv

theorem Sound.entry {table : Table Value} (h : (Value.array table).Sound) {key : Key} {v : Value}
    (hmem : (key, v) ∈ table.entries) : key.Normal ∧ v.Sound := by
  rw [sound_array] at h
  exact ⟨h.1.normal key (List.mem_map.mpr ⟨_, hmem, rfl⟩), h.2 _ hmem⟩

theorem Sound.union {left right : Table Value} (hleft : (Value.array left).Sound)
    (hright : (Value.array right).Sound) : (Value.array (left.union right)).Sound := by
  apply Table.union_induction (P := fun table => (Value.array table).Sound) hleft
  intro table key value hmem htable
  obtain ⟨hkey, hvalue⟩ := hright.entry hmem
  exact htable.set hkey hvalue

/-- A value that is not an array. -/
def IsScalar : Value → Prop
  | .array _ => False
  | _ => True

theorem IsScalar.sound {v : Value} (h : v.IsScalar) : v.Sound := by
  intro table htable
  cases htable with
  | self => exact h.elim
  | entry hmem hinner => exact h.elim

end Value

/-! ## Operators -/

namespace Noted

variable {α β : Type}

/-- The result of an operation, if it has one, has a property. -/
def Gives (P : α → Prop) (noted : Noted α) : Prop := ∀ value, noted.result = .ok value → P value

variable {P : α → Prop} {Q : β → Prop}

theorem Gives.ofValue {value : α} (h : P value) : Gives P (pure value) := by
  intro result hresult
  cases hresult
  exact h

theorem Gives.bind {first : Noted α} {next : α → Noted β} (hfirst : Gives P first)
    (hnext : ∀ value, P value → Gives Q (next value)) : Gives Q (first >>= next) := by
  intro result hresult
  show Q result
  change (Noted.bind first next).result = .ok result at hresult
  unfold Noted.bind at hresult
  split at hresult
  · rename_i value hvalue
    exact hnext value (hfirst value hvalue) result hresult
  · cases hresult

theorem Gives.andThen {first : Noted α} {next : α → Noted β} (h : ∀ value, Gives Q (next value)) :
    Gives Q (first >>= next) :=
  Gives.bind (P := fun _ => True) (fun _ _ => trivial) fun value _ => h value

theorem Gives.refuse (cause : Cause) : Gives P (Noted.refuse cause) := by
  intro result hresult
  cases hresult

theorem Gives.ofLimit {result : Except Limit α} (h : ∀ value, result = .ok value → P value) :
    Gives P (Noted.ofLimit result) := by
  intro value hvalue
  cases result with
  | error limit => cases hvalue
  | ok found =>
    have hsame : found = value := Except.ok.inj hvalue
    exact h value (congrArg Except.ok hsame)

theorem Gives.ofLimitMap {f : β → α} (h : ∀ b, P (f b)) (result : Except Limit β) :
    Gives P (Noted.ofLimit (f <$> result)) := by
  refine Gives.ofLimit fun value hvalue => ?_
  cases result with
  | error limit => cases hvalue
  | ok b =>
    cases hvalue
    exact h b

end Noted

theorem Number.isScalar_toValue (number : Number) : number.toValue.IsScalar := by
  cases number <;> exact trivial

section Scalars

open Noted

theorem applyArithmetic_isScalar (op : BinaryOperator) (onInts : Int → Int → Int)
    (onFloats : Float → Float → Float) (left right : Value) :
    Gives Value.IsScalar (applyArithmetic op onInts onFloats left right) :=
  Gives.andThen fun _ => Gives.andThen fun result => Gives.ofValue result.isScalar_toValue

theorem applyDiv_isScalar (left right : Value) : Gives Value.IsScalar (applyDiv left right) := by
  refine Gives.andThen fun pair => ?_
  obtain ⟨x, y⟩ := pair
  dsimp only
  split
  · exact Gives.refuse _
  · exact Gives.andThen fun result => Gives.ofValue result.isScalar_toValue

theorem applyMod_isScalar (left right : Value) : Gives Value.IsScalar (applyMod left right) := by
  refine Gives.andThen fun pair => ?_
  obtain ⟨a, b⟩ := pair
  dsimp only
  split
  · exact Gives.refuse _
  · exact Gives.ofValue trivial

theorem applyPow_isScalar (left right : Value) : Gives Value.IsScalar (applyPow left right) :=
  Gives.andThen fun _ => Gives.andThen fun result => Gives.ofValue result.isScalar_toValue

theorem applyShift_isScalar (op : BinaryOperator) (shift : Int → Nat → Int) (left right : Value) :
    Gives Value.IsScalar (applyShift op shift left right) := by
  refine Gives.andThen fun pair => ?_
  obtain ⟨a, b⟩ := pair
  dsimp only
  split
  · exact Gives.refuse _
  · exact Gives.ofValue trivial

theorem applyBitwise_isScalar (op : BinaryOperator) (onChars : Nat → Nat → Nat)
    (onWords : BitVec 64 → BitVec 64 → BitVec 64) (pad : Bool) (left right : Value) :
    Gives Value.IsScalar (applyBitwise op onChars onWords pad left right) := by
  unfold applyBitwise
  split
  · refine Gives.ofLimit fun value hvalue => ?_
    obtain ⟨chars, -, hvalue⟩ := bind_eq_ok hvalue
    cases hvalue
    exact trivial
  · refine Gives.andThen fun pair => ?_
    obtain ⟨a, b⟩ := pair
    exact Gives.ofValue trivial

/-- Every unary operator gives a scalar. -/
theorem UnaryOperator.apply_isScalar (op : UnaryOperator) (operand : Value) :
    Gives Value.IsScalar (op.apply operand) := by
  cases op with
  | not => exact Gives.ofValue trivial
  | minus => exact Gives.andThen fun _ => Gives.andThen fun result =>
      Gives.ofValue result.isScalar_toValue
  | plus => exact Gives.andThen fun number => Gives.ofValue number.isScalar_toValue
  | bitwiseNot =>
    cases operand with
    | int n | float f | str s => exact Gives.ofValue trivial
    | _ => exact Gives.refuse _

/-- The operators that can give an array: `+` unites two, and `??` gives one of its operands. -/
theorem BinaryOperator.apply_gives (op : BinaryOperator) (left right : Value) :
    Gives (fun v => v.IsScalar ∨ v = left ∨ v = right ∨
      ∃ first second, left = .array first ∧ right = .array second ∧
        v = .array (first.union second)) (op.apply left right) := by
  intro v hv
  cases op with
  | coalesce =>
    cases left with
    | null =>
      cases hv
      exact Or.inr (Or.inr (Or.inl rfl))
    | _ =>
      cases hv
      exact Or.inr (Or.inl rfl)
  | plus =>
    change (applyPlus left right).result = .ok v at hv
    unfold applyPlus at hv
    split at hv
    · cases hv
      exact Or.inr (Or.inr (Or.inr ⟨_, _, rfl, rfl, rfl⟩))
    · exact Or.inl (applyArithmetic_isScalar _ _ _ _ _ v hv)
  | concat =>
    exact Or.inl (Gives.andThen (fun _ => Gives.andThen fun _ => Gives.ofValue trivial) v hv)
  | smaller | smallerOrEqual | greater | greaterOrEqual | equal | notEqual =>
    exact Or.inl (Gives.ofLimitMap (f := Value.bool) (fun _ => trivial) _ v hv)
  | spaceship =>
    exact Or.inl (Gives.ofLimitMap (f := Value.int ∘ orderToInt) (fun _ => trivial) _ v hv)
  | identical | notIdentical | booleanAnd | logicalAnd | booleanOr | logicalOr | logicalXor =>
    cases hv
    exact Or.inl trivial
  | minus | mul => exact Or.inl (applyArithmetic_isScalar _ _ _ _ _ v hv)
  | div => exact Or.inl (applyDiv_isScalar _ _ v hv)
  | mod => exact Or.inl (applyMod_isScalar _ _ v hv)
  | pow => exact Or.inl (applyPow_isScalar _ _ v hv)
  | bitwiseAnd | bitwiseOr | bitwiseXor => exact Or.inl (applyBitwise_isScalar _ _ _ _ _ _ v hv)
  | shiftLeft | shiftRight => exact Or.inl (applyShift_isScalar _ _ _ _ v hv)

end Scalars

/-! ## Runs -/

/-- All operations on values keep arrays sound. -/
def ValueInvariant.sound : ValueInvariant where
  value := Value.Sound
  key := Key.Normal
  null := Value.IsScalar.sound trivial
  bool _ := Value.IsScalar.sound trivial
  str _ := Value.IsScalar.sound trivial
  float _ := Value.IsScalar.sound trivial
  one := Value.IsScalar.sound trivial
  binary := by
    intro op left right result hleft hright h
    rcases op.apply_gives left right result h with
      hscalar | rfl | rfl | ⟨first, second, rfl, rfl, rfl⟩
    · exact hscalar.sound
    · exact hleft
    · exact hright
    · exact hleft.union hright
  unary _ h := (UnaryOperator.apply_isScalar _ _ _ h).sound
  toKey _ h := Value.normal_of_toKey h
  ofKey {k} _ := by
    cases k with
    | int n => exact Value.IsScalar.sound trivial
    | str s => exact Value.IsScalar.sound trivial
  empty := Value.sound_array.mpr ⟨.empty, fun entry hentry => by cases hentry⟩
  set h hk hv := h.set hk hv
  append h hv := h.append hv
  entry h hmem := h.entry hmem

/-- Programs start with values that are as every invariant wants them, for there are none. -/
theorem ValueInvariant.admitted_start (V : ValueInvariant) (depth : Nat) (library : Option Library)
    (output : String) (nodes : List Node) :
    (⟨depth, .statements nodes, (Machine.start library).withOutput output⟩ : Moment).Admitted
      (V.along fun _ => True) fun _ => True := by
  refine ⟨⟨.refl _, fun v hv => ?_, ?_⟩, fun _ _ => trivial⟩
  · cases hv
  · exact ⟨fun _ _ _ _ _ => trivial, fun _ _ _ _ _ _ _ _ _ => trivial⟩

/-- At every moment of every run, every array that there is, in a variable, in another array or as a
    result on the way, has distinct keys, a counter just past its largest integer key, and only keys
    that their own values stand for. So an appended element never replaces another one and is always
    the last. -/
theorem arrays_sound_at_moments (config : Config) (library : Option Library) (output : String)
    (nodes : List Node) (moment : Moment)
    (hmoment : Moment.Leads config
      ⟨maxNesting, .statements nodes, (Machine.start library).withOutput output⟩ moment)
    (value : Value) (hvalue : value ∈ moment.values config) (table : Table Value)
    (htable : value.Contains table) :
    ((Dict.keys table.entries).Nodup ∧
      table.next = nextKey (Dict.keys table.entries) ∧
      (∀ n, .int n ∈ Dict.keys table.entries → (Value.int n).toKey = .ok (.int n)) ∧
      ∀ s, .str s ∈ Dict.keys table.entries → (Value.str s).toKey = .ok (.str s)) ∧
    ∀ element, table.get? (.int table.next) = none ∧
      (table.append element).entries = table.entries ++ [(.int table.next, element)] ∧
      writePath (some (.array table)) element [none] = .ok (.array (table.append element)) := by
  have hsound : value.Sound :=
    ValueInvariant.sound.at_moments (fun _ => True) (fun _ _ => trivial)
      (fun _ => Value.IsScalar.sound trivial)
      (ValueInvariant.sound.admitted_start maxNesting library output nodes) hmoment value hvalue
  have htable := hsound table htable
  refine ⟨⟨htable.distinct, htable.next, fun n hn => htable.normal _ hn,
    fun s hs => htable.normal _ hs⟩, fun element => ⟨?_, htable.entries_append element, rfl⟩⟩
  exact Dict.get?_eq_none htable.next_not_mem

/-- While `$a = ["x" => 1, -5 => 2]; $a[] = 3;` runs, the array of the literal is in `$a` when the
    second statement is about to begin. -/
theorem arrays_sound_at_moments_append :
    let a : Node := ⟨none, .variable "a"⟩
    let literal : Node := ⟨none, .arrayLiteral
      [⟨none, ⟨none, .int 1⟩, some ⟨none, .str "x"⟩⟩,
        ⟨none, ⟨none, .int 2⟩, some ⟨none, .unary .minus ⟨none, .int 5⟩⟩⟩]⟩
    let assign : Node := ⟨none, .assign a literal⟩
    let append : Node := ⟨none, .assign ⟨none, .index a none⟩ ⟨none, .int 3⟩⟩
    let table : Table Value := ⟨[(.str "x", .int 1), (.int (-5), .int 2)], 0⟩
    let machine : Machine := ⟨⟨[("a", .array table)], 0⟩, .empty, none, "", [], 0⟩
    Moment.Leads {} ⟨maxNesting, .statements [assign, append], (Machine.start none).withOutput ""⟩
      ⟨maxNesting, .statements [append], machine⟩ ∧
    (Dict.keys table.entries).Nodup ∧ table.next = nextKey (Dict.keys table.entries) := by
  intro a literal assign append table machine
  have hleads : Moment.Leads {}
      ⟨maxNesting, .statements [assign, append], (Machine.start none).withOutput ""⟩
      ⟨maxNesting, .statements [append], machine⟩ := by
    have hrun : evalWithin {} maxNesting assign ((Machine.start none).withOutput "") =
        .ok (.array table) machine := by cbv
    exact .single (.statementsTail hrun)
  have hvalue : .array table ∈ Moment.values {} ⟨maxNesting, .statements [append], machine⟩ :=
    List.mem_append_left _ (List.mem_append_left _ List.mem_cons_self)
  obtain ⟨⟨hdistinct, hnext, -⟩, -⟩ :=
    arrays_sound_at_moments {} none "" [assign, append] _ hleads _ hvalue table .self
  exact ⟨hleads, hdistinct, hnext⟩

end WebScript
