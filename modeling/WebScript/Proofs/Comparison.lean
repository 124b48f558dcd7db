import WebScript.Proofs.ArrayShape
import WebScript.Proofs.NumberOrder

/-!
# Loose comparison

Loose equality and the three-way comparison of values are computed one beside the other, and agree:
two values are loosely equal if and only if comparing them gives equality. Loose equality is
symmetric, although it goes through the entries of two arrays in the order of the first one.
Comparing two values the other way round gives the opposite order, if they are `Comparable` and have
no NaNs in them. Comparing fails only where the number that a string denotes meets a limit.
-/

namespace WebScript

/-! ## Elements of values -/

namespace Value

theorem sizeOf_lt_of_mem {table : Table Value} {entry : Key × Value}
    (h : entry ∈ table.entries) : sizeOf entry.2 < sizeOf (Value.array table) := by
  have hentry := List.sizeOf_lt_of_mem h
  obtain ⟨entries, next⟩ := table
  obtain ⟨key, value⟩ := entry
  simp only [Prod.mk.sizeOf_spec] at hentry
  simp only [Value.array.sizeOf_spec, Table.mk.sizeOf_spec]
  omega

theorem isScalar_or_array (value : Value) : value.IsScalar ∨ ∃ table, value = .array table := by
  cases value with
  | array table => exact Or.inr ⟨table, rfl⟩
  | _ => exact Or.inl trivial

/-- Induction on a value by the values of its entries. -/
theorem inductionOnEntries {motive : Value → Prop}
    (scalar : ∀ value : Value, value.IsScalar → motive value)
    (array : ∀ table : Table Value,
      (∀ entry ∈ table.entries, motive entry.2) → motive (.array table))
    (value : Value) : motive value := by
  induction hsize : sizeOf value using Nat.strongRecOn generalizing value with
  | _ size ih =>
    subst hsize
    rcases value.isScalar_or_array with hscalar | ⟨table, rfl⟩
    · exact scalar value hscalar
    · exact array table fun entry hentry => ih _ (sizeOf_lt_of_mem hentry) entry.2 rfl

/-- A value is, or has in it at some depth, another value. -/
inductive Holds : Value → Value → Prop
  | self {value : Value} : Holds value value
  | entry {table : Table Value} {key : Key} {value inner : Value}
    (hmem : (key, value) ∈ table.entries) (h : Holds value inner) : Holds (.array table) inner

/-- A value is, or has in it, a NaN. -/
def HasNaN (value : Value) : Prop := ∃ f, value.Holds (.float f) ∧ FloatForm.ofFloat f = .nan

/-- No array in a value has a key twice. -/
def DistinctKeys (value : Value) : Prop :=
  ∀ table, value.Contains table → (Dict.keys table.entries).Nodup

/-- The values of a running program, being sound, have distinct keys. -/
theorem Sound.distinctKeys {value : Value} (h : value.Sound) : value.DistinctKeys :=
  fun table htable => (h table htable).distinct

theorem hasNaN_array {table : Table Value} :
    (Value.array table).HasNaN ↔ ∃ entry ∈ table.entries, entry.2.HasNaN := by
  constructor
  · rintro ⟨f, hf, hnan⟩
    cases hf with
    | entry hmem h => exact ⟨_, hmem, f, h, hnan⟩
  · rintro ⟨entry, hmem, f, hf, hnan⟩
    exact ⟨f, .entry hmem hf, hnan⟩

theorem hasNaN_float {f : Float} : (Value.float f).HasNaN ↔ FloatForm.ofFloat f = .nan := by
  constructor
  · rintro ⟨g, ⟨⟩, hnan⟩
    exact hnan
  · exact fun hnan => ⟨f, .self, hnan⟩

theorem not_hasNaN {value : Value} (hfloat : ∀ f, value ≠ .float f)
    (harray : ∀ table, value ≠ .array table) : ¬value.HasNaN := by
  rintro ⟨f, hf, -⟩
  cases hf with
  | self => exact hfloat f rfl
  | entry hmem hinner => exact harray _ rfl

/-- An array has distinct keys at all depths if its own keys are distinct and its elements have
    distinct keys. -/
theorem distinctKeys_array {table : Table Value} :
    (Value.array table).DistinctKeys ↔
      (Dict.keys table.entries).Nodup ∧ ∀ entry ∈ table.entries, entry.2.DistinctKeys := by
  constructor
  · intro h
    exact ⟨h table .self, fun entry hentry inner hinner => h inner (.entry hentry hinner)⟩
  · rintro ⟨htable, hentries⟩ inner hinner
    cases hinner with
    | self => exact htable
    | entry hmem h => exact hentries _ hmem inner h

theorem distinctKeys_of_ne_array {value : Value} (h : ∀ table, value ≠ .array table) :
    value.DistinctKeys := by
  intro table htable
  cases htable with
  | self => exact absurd rfl (h table)
  | entry hmem hinner => exact absurd rfl (h _)

theorem isOrdered_of_not_hasNaN {f : Float} (h : ¬(Value.float f).HasNaN) :
    (Number.float f).IsOrdered :=
  Number.isOrdered_float fun hnan => h (hasNaN_float.mpr hnan)

/-! ## Loose comparison by cases -/

theorem order_of_scalar {a b : Value} (h : a.IsScalar ∨ b.IsScalar) :
    a.order b = some <$> orderScalars a b := by
  cases a with
  | array left =>
    cases b with
    | array right => exact (h.elim id id).elim
    | _ => rfl
  | _ => rfl

theorem looseEq_of_scalar {a b : Value} (h : a.IsScalar ∨ b.IsScalar) :
    a.looseEq b = (· == .eq) <$> orderScalars a b := by
  cases a with
  | array left =>
    cases b with
    | array right => exact (h.elim id id).elim
    | _ => rfl
  | _ => rfl

theorem order_array (left right : Table Value) :
    (Value.array left).order (.array right) =
      if left.size = right.size then orderEntries left.entries right
      else .ok (some (compare left.size right.size)) := rfl

theorem looseEq_array (left right : Table Value) :
    (Value.array left).looseEq (.array right) =
      if left.size = right.size then looseEqEntries left.entries right else .ok false := rfl

end Value

/-- Entries are loosely equal if they compare equal, one after another. -/
theorem looseEqEntries_eq_orderEntries {entries : List (Key × Value)} {table : Table Value}
    (h : ∀ entry ∈ entries, ∀ b, entry.2.looseEq b = (· == some .eq) <$> entry.2.order b) :
    looseEqEntries entries table = (· == some .eq) <$> orderEntries entries table := by
  induction entries with
  | nil => rfl
  | cons entry rest ih =>
    obtain ⟨key, left⟩ := entry
    have hrest := ih fun entry hentry => h entry (List.mem_cons_of_mem _ hentry)
    unfold looseEqEntries orderEntries
    cases table.get? key with
    | none => rfl
    | some right =>
      simp only [h _ List.mem_cons_self right]
      cases left.order right with
      | error limit => rfl
      | ok found =>
        rcases found with _ | order
        · rfl
        · cases order with
          | eq => exact hrest
          | _ => rfl

/-- Values are loosely equal if and only if comparing them finds them equal. -/
theorem Value.looseEq_eq_order (a b : Value) :
    a.looseEq b = (· == some .eq) <$> a.order b := by
  induction a using Value.inductionOnEntries generalizing b with
  | scalar a ha =>
    rw [looseEq_of_scalar (Or.inl ha), order_of_scalar (Or.inl ha)]
    cases orderScalars a b with
    | error limit => rfl
    | ok order => cases order <;> rfl
  | array left ih =>
    rcases b.isScalar_or_array with hb | ⟨right, rfl⟩
    · rw [looseEq_of_scalar (Or.inr hb), order_of_scalar (Or.inr hb)]
      cases orderScalars (.array left) b with
      | error limit => rfl
      | ok order => cases order <;> rfl
    · rw [looseEq_array, order_array]
      split
      · exact looseEqEntries_eq_orderEntries ih
      · rename_i hsize
        have hcompare : compare left.size right.size ≠ .eq := fun heq =>
          hsize (Nat.compare_eq_eq.mp heq)
        cases horder : compare left.size right.size with
        | eq => exact absurd horder hcompare
        | _ => rfl

/-- Loosely equal values compare equal. -/
theorem Value.order_of_looseEq {a b : Value} (h : a.looseEq b = .ok true) :
    a.order b = .ok (some .eq) := by
  rw [looseEq_eq_order] at h
  cases horder : a.order b with
  | error limit =>
    rw [horder] at h
    cases h
  | ok found =>
    have hfound : found = some .eq := by simpa [horder] using h
    rw [hfound]

/-! ## Scalars the other way round -/

/-- Strings compare the other way round with the opposite result, as numbers or as texts. -/
theorem orderStrings_swap {s t : String} {order : Ordering} (h : orderStrings s t = .ok order) :
    orderStrings t s = .ok order.swap := by
  obtain ⟨first, hfirst, h⟩ := bind_eq_ok h
  obtain ⟨second, hsecond, h⟩ := bind_eq_ok h
  unfold orderStrings
  rw [hsecond, hfirst]
  cases first with
  | none =>
    cases h
    cases second <;> exact congrArg Except.ok (orderText_swap s t)
  | some x =>
    cases second with
    | none =>
      cases h
      exact congrArg Except.ok (orderText_swap s t)
    | some y =>
      cases h
      have hx := isOrdered_of_parseNumeric hfirst
      exact congrArg Except.ok (hx.order_swap (isOrdered_of_parseNumeric hsecond))

/-- A number compares with a string as the string does with the number, the other way round. -/
theorem orderNumberString_eq_ok {number : Number} {text : String} {order : Ordering}
    (hnumber : order = .eq ∨ number.IsOrdered) :
    orderNumberString number text = .ok order ↔ orderStringNumber text number = .ok order.swap := by
  unfold orderNumberString orderStringNumber
  cases hparsed : parseNumeric text with
  | error limit => exact iff_of_false nofun nofun
  | ok parsed =>
    cases parsed with
    | none =>
      show Except.ok _ = _ ↔ Except.ok _ = _
      rw [orderText_swap number.toValue.scalarText text, Except.ok.injEq, Except.ok.injEq,
        Ordering.swap_inj]
    | some x =>
      have hx := isOrdered_of_parseNumeric hparsed
      show Except.ok (number.order x) = _ ↔ Except.ok (x.order number) = _
      rw [Except.ok.injEq, Except.ok.injEq]
      rcases hnumber with rfl | hnumber
      · constructor
        · intro h
          rw [(Number.isOrdered_of_order_eq h).1.order_swap hx, h]
        · intro h
          rw [hx.order_swap (Number.isOrdered_of_order_eq h).2, h]
          rfl
      · rw [hnumber.order_swap hx, Ordering.swap_inj]

theorem Number.order_swap {x y : Number} {order : Ordering}
    (hordered : order = .eq ∨ x.IsOrdered ∧ y.IsOrdered)
    (h : (.ok (x.order y) : Except Limit Ordering) = .ok order) :
    (.ok (y.order x) : Except Limit Ordering) = .ok order.swap := by
  cases h
  obtain ⟨hx, hy⟩ := hordered.elim Number.isOrdered_of_order_eq id
  exact congrArg Except.ok (hx.order_swap hy)

/-- Two scalars, or a scalar and an array, compare the other way round with the opposite order,
    if they are found equal or are no NaNs. -/
theorem orderScalars_swap {a b : Value} {order : Ordering} (hscalar : a.IsScalar ∨ b.IsScalar)
    (hnan : order = .eq ∨ ¬a.HasNaN ∧ ¬b.HasNaN) (h : orderScalars a b = .ok order) :
    orderScalars b a = .ok order.swap := by
  have hbool : ∀ {p q : Bool}, (.ok (orderBool p q) : Except Limit Ordering) = .ok order →
      (.ok (orderBool q p) : Except Limit Ordering) = .ok order.swap := by
    intro p q h
    cases h
    exact congrArg Except.ok (orderBool_swap p q)
  have hone : order = .eq ∨ ¬a.HasNaN := hnan.imp_right And.left
  have hother : order = .eq ∨ ¬b.HasNaN := hnan.imp_right And.right
  cases a with
  | null =>
    cases b with
    | null =>
      cases h
      rfl
    | str s =>
      cases h
      by_cases hs : s = "" <;> simp [orderScalars, hs, Ordering.swap]
    | _ => exact hbool h
  | bool p => cases b <;> exact hbool h
  | int m =>
    cases b with
    | null | bool q => exact hbool h
    | int n => exact Number.order_swap (Or.inr ⟨Number.isOrdered_int m, Number.isOrdered_int n⟩) h
    | float g =>
      have hordered := hother.imp_right Value.isOrdered_of_not_hasNaN
      exact Number.order_swap (hordered.imp_right (.intro (Number.isOrdered_int m))) h
    | str t => exact (orderNumberString_eq_ok (Or.inr (Number.isOrdered_int m))).mp h
    | array right =>
      cases h
      rfl
  | float f =>
    have hordered := hone.imp_right Value.isOrdered_of_not_hasNaN
    cases b with
    | null | bool q => exact hbool h
    | int n => exact Number.order_swap (hordered.imp_right fun hf => ⟨hf, Number.isOrdered_int n⟩) h
    | float g =>
      refine Number.order_swap (hnan.imp_right fun hnan => ?_) h
      exact ⟨Value.isOrdered_of_not_hasNaN hnan.1, Value.isOrdered_of_not_hasNaN hnan.2⟩
    | str t => exact (orderNumberString_eq_ok hordered).mp h
    | array right =>
      cases h
      rfl
  | str s =>
    have hnumber : ∀ {number : Number}, order = .eq ∨ number.IsOrdered →
        orderStringNumber s number = .ok order → orderNumberString number s = .ok order.swap := by
      intro number hnumber h
      have hback : order.swap = .eq ∨ number.IsOrdered :=
        hnumber.imp_left fun heq => by rw [heq, Ordering.swap_eq]
      rw [orderNumberString_eq_ok hback, Ordering.swap_swap]
      exact h
    cases b with
    | null =>
      cases h
      by_cases hs : s = "" <;> simp [orderScalars, hs, Ordering.swap]
    | bool q => exact hbool h
    | int n => exact hnumber (Or.inr (Number.isOrdered_int n)) h
    | float g => exact hnumber (hother.imp_right Value.isOrdered_of_not_hasNaN) h
    | str t => exact orderStrings_swap h
    | array right =>
      cases h
      rfl
  | array left =>
    cases b with
    | array right => exact (hscalar.elim id id).elim
    | null | bool q => exact hbool h
    | _ =>
      cases h
      rfl

/-! ## Entries one by one -/

section Entries

variable {key : Key} {left right : Value} {rest : List (Key × Value)} {table : Table Value}

theorem orderEntries_cons_eq (hget : table.get? key = some right)
    (h : left.order right = .ok (some .eq)) :
    orderEntries ((key, left) :: rest) table = orderEntries rest table := by
  rw [orderEntries, hget]
  simp only [h]
  rfl

/-- The first entry that is not equal to that of the other array decides. -/
theorem orderEntries_cons_ne {found : Option Ordering} (hget : table.get? key = some right)
    (h : left.order right = .ok found) (hne : found ≠ some .eq) :
    orderEntries ((key, left) :: rest) table = .ok found := by
  rw [orderEntries, hget]
  simp only [h]
  rcases found with _ | order
  · rfl
  · cases order with
    | eq => exact absurd rfl hne
    | _ => rfl

theorem orderEntries_cons_error {limit : Limit} (hget : table.get? key = some right)
    (h : left.order right = .error limit) :
    orderEntries ((key, left) :: rest) table = .error limit := by
  rw [orderEntries, hget]
  simp only [h]
  rfl

/-- The elements under the same keys decide: if each pair of them compares the other way round with
    the opposite order, so do the entries. -/
theorem orderEntries_swap {one other : Table Value} {entries others : List (Key × Value)}
    (hkeys : Dict.keys entries = Dict.keys others)
    (hone : ∀ entry ∈ entries, one.get? entry.1 = some entry.2)
    (hother : ∀ entry ∈ others, other.get? entry.1 = some entry.2)
    (hswap : ∀ key v w, one.get? key = some v → other.get? key = some w → ∀ found,
      v.order w = .ok found → ∃ order, found = some order ∧ w.order v = .ok (some order.swap))
    {found : Option Ordering} (h : orderEntries entries other = .ok found) :
    ∃ order, found = some order ∧ orderEntries others one = .ok (some order.swap) := by
  induction entries generalizing others with
  | nil =>
    cases others with
    | nil =>
      cases h
      exact ⟨.eq, rfl, rfl⟩
    | cons second others => cases hkeys
  | cons first rest ih =>
    cases others with
    | nil => cases hkeys
    | cons second others =>
      obtain ⟨key, v⟩ := first
      obtain ⟨key', w⟩ := second
      obtain ⟨hkey, hrest⟩ := List.cons.inj hkeys
      replace hkey : key = key' := hkey
      subst hkey
      have hv : one.get? key = some v := hone _ List.mem_cons_self
      have hw : other.get? key = some w := hother _ List.mem_cons_self
      cases hfirst : v.order w with
      | error limit =>
        rw [orderEntries_cons_error hw hfirst] at h
        cases h
      | ok result =>
        obtain ⟨order, rfl, hback⟩ := hswap key v w hv hw result hfirst
        by_cases heq : order = .eq
        · subst heq
          rw [orderEntries_cons_eq hw hfirst] at h
          rw [orderEntries_cons_eq hv hback]
          exact ih hrest (fun entry hentry => hone entry (List.mem_cons_of_mem _ hentry))
            (fun entry hentry => hother entry (List.mem_cons_of_mem _ hentry)) h
        · have hne : (some order : Option Ordering) ≠ some .eq := by simpa using heq
          rw [orderEntries_cons_ne hw hfirst hne] at h
          cases h
          refine ⟨order, rfl, orderEntries_cons_ne hv hback ?_⟩
          cases order <;> simp_all

/-- Loosely equal entries are found in the other array, each at its key. -/
theorem looseEqEntries_eq_true {entries : List (Key × Value)} {table : Table Value} :
    looseEqEntries entries table = .ok true ↔
      ∀ entry ∈ entries, ∃ w, table.get? entry.1 = some w ∧ entry.2.looseEq w = .ok true := by
  induction entries with
  | nil => simp [looseEqEntries]
  | cons entry rest ih =>
    obtain ⟨key, v⟩ := entry
    rw [looseEqEntries, List.forall_mem_cons, ← ih]
    cases table.get? key with
    | none => simp
    | some w =>
      cases hfirst : v.looseEq w with
      | error limit => simp [hfirst, bind, Except.bind]
      | ok equal => cases equal <;> simp [hfirst, bind, Except.bind, pure, Except.pure]

end Entries

/-! ## Errors come from the texts of numbers -/

theorem bind_eq_error_cases {ε α β : Type} {first : Except ε α} {next : α → Except ε β}
    {failure : ε} (h : first >>= next = .error failure) :
    first = .error failure ∨ ∃ result, first = .ok result ∧ next result = .error failure := by
  cases first with
  | error found =>
    cases h
    exact Or.inl rfl
  | ok result => exact Or.inr ⟨result, rfl, h⟩

theorem orderStrings_error {s t : String} {limit : Limit} (h : orderStrings s t = .error limit) :
    parseNumeric s = .error limit ∨ parseNumeric t = .error limit := by
  rcases bind_eq_error_cases h with hs | ⟨first, -, h⟩
  · exact Or.inl hs
  · rcases bind_eq_error_cases h with ht | ⟨second, -, h⟩
    · exact Or.inr ht
    · cases first <;> cases second <;> cases h

theorem orderNumberString_error {number : Number} {text : String} {limit : Limit}
    (h : orderNumberString number text = .error limit) : parseNumeric text = .error limit := by
  rcases bind_eq_error_cases h with hparsed | ⟨parsed, -, h⟩
  · exact hparsed
  · cases parsed <;> cases h

theorem orderStringNumber_error {number : Number} {text : String} {limit : Limit}
    (h : orderStringNumber text number = .error limit) : parseNumeric text = .error limit := by
  rcases bind_eq_error_cases h with hparsed | ⟨parsed, -, h⟩
  · exact hparsed
  · cases parsed <;> cases h

theorem orderScalars_error {a b : Value} {limit : Limit} (h : orderScalars a b = .error limit) :
    ∃ s, (a = .str s ∨ b = .str s) ∧ parseNumeric s = .error limit := by
  cases a with
  | str s =>
    cases b with
    | str t =>
      rcases orderStrings_error h with hs | ht
      · exact ⟨s, Or.inl rfl, hs⟩
      · exact ⟨t, Or.inr rfl, ht⟩
    | int n | float g => exact ⟨s, Or.inl rfl, orderStringNumber_error h⟩
    | _ => cases h
  | int m | float f =>
    cases b with
    | str t => exact ⟨t, Or.inr rfl, orderNumberString_error h⟩
    | _ => cases h
  | _ => cases b <;> cases h

theorem orderEntries_error {entries : List (Key × Value)} {table : Table Value} {limit : Limit}
    (h : orderEntries entries table = .error limit) :
    ∃ entry ∈ entries, ∃ w, table.get? entry.1 = some w ∧ entry.2.order w = .error limit := by
  induction entries with
  | nil => cases h
  | cons first rest ih =>
    obtain ⟨key, v⟩ := first
    cases hget : table.get? key with
    | none =>
      rw [orderEntries, hget] at h
      cases h
    | some w =>
      cases hfirst : v.order w with
      | error found =>
        rw [orderEntries_cons_error hget hfirst] at h
        cases h
        exact ⟨(key, v), List.mem_cons_self, w, hget, hfirst⟩
      | ok found =>
        by_cases heq : found = some .eq
        · subst heq
          rw [orderEntries_cons_eq hget hfirst] at h
          obtain ⟨entry, hentry, hrest⟩ := ih h
          exact ⟨entry, List.mem_cons_of_mem _ hentry, hrest⟩
        · rw [orderEntries_cons_ne hget hfirst heq] at h
          cases h

/-- Comparing fails only where the number that a string in one of the values denotes meets a
    limit. -/
theorem Value.exists_text_of_order_error {a b : Value} {limit : Limit}
    (h : a.order b = .error limit) :
    ∃ s, (a.Holds (.str s) ∨ b.Holds (.str s)) ∧ parseNumeric s = .error limit := by
  have hscalars : ∀ {a b : Value}, a.IsScalar ∨ b.IsScalar → a.order b = .error limit →
      ∃ s, (a.Holds (.str s) ∨ b.Holds (.str s)) ∧ parseNumeric s = .error limit := by
    intro a b hscalar h
    rw [order_of_scalar hscalar] at h
    cases horder : orderScalars a b with
    | ok order =>
      rw [horder] at h
      cases h
    | error found =>
      rw [horder] at h
      cases h
      obtain ⟨s, rfl | rfl, hparse⟩ := orderScalars_error horder
      · exact ⟨s, Or.inl .self, hparse⟩
      · exact ⟨s, Or.inr .self, hparse⟩
  induction a using Value.inductionOnEntries generalizing b with
  | scalar a ha => exact hscalars (Or.inl ha) h
  | array left ih =>
    rcases b.isScalar_or_array with hb | ⟨right, rfl⟩
    · exact hscalars (Or.inr hb) h
    · rw [order_array] at h
      split at h
      · obtain ⟨entry, hentry, w, hw, h⟩ := orderEntries_error h
        obtain ⟨s, hs, hparse⟩ := ih entry hentry h
        refine ⟨s, hs.imp (.entry hentry) ?_, hparse⟩
        exact Holds.entry (Dict.mem_of_get? hw)
      · cases h

/-! ## Symmetry -/

/-- Tables of equal size have the same keys if all keys of one, no two of them equal, are keys of
    the other. -/
theorem keys_subset_of_size {left right : Table Value} (hsize : left.size = right.size)
    (hdistinct : (Dict.keys left.entries).Nodup)
    (hkeys : Dict.keys left.entries ⊆ Dict.keys right.entries) :
    Dict.keys right.entries ⊆ Dict.keys left.entries := by
  have hlength : (Dict.keys right.entries).length ≤ (Dict.keys left.entries).length := by
    simp only [Dict.keys, List.length_map]
    exact hsize.ge
  exact ((List.subperm_of_subset hdistinct hkeys).perm_of_length_le hlength).symm.subset

/-- Every entry of the second table has its key in the first, where its counterpart is the element
    that it is loosely equal to. -/
theorem looseEqEntries_symm {left right : Table Value} (hsize : left.size = right.size)
    (hleft : (Dict.keys left.entries).Nodup) (hright : (Dict.keys right.entries).Nodup)
    (hsymm : ∀ entry ∈ left.entries, ∀ other ∈ right.entries,
      entry.2.looseEq other.2 = .ok true → other.2.looseEq entry.2 = .ok true)
    (h : looseEqEntries left.entries right = .ok true) :
    looseEqEntries right.entries left = .ok true := by
  rw [looseEqEntries_eq_true] at h ⊢
  have hkeys : Dict.keys left.entries ⊆ Dict.keys right.entries := by
    intro key hkey
    obtain ⟨entry, hentry, rfl⟩ := List.mem_map.mp hkey
    obtain ⟨w, hw, -⟩ := h entry hentry
    exact Dict.mem_keys_of_get? hw
  -- The comparison went through the keys of `left`; by counting, these are all keys of `right`.
  intro other hother
  have hkey := keys_subset_of_size hsize hleft hkeys (List.mem_map_of_mem hother)
  obtain ⟨⟨key, v⟩, hentry, hsame⟩ := List.mem_map.mp hkey
  obtain ⟨w, hw, hequal⟩ := h _ hentry
  have hfound : right.get? other.1 = some other.2 := Dict.get?_of_mem hright hother
  simp only at hsame
  subst hsame
  cases hw.symm.trans hfound
  exact ⟨v, Dict.get?_of_mem hleft hentry, hsymm _ hentry _ hother hequal⟩

/-- Loose equality is symmetric. -/
theorem Value.looseEq_symm {a b : Value} (ha : a.DistinctKeys) (hb : b.DistinctKeys)
    (h : a.looseEq b = .ok true) : b.looseEq a = .ok true := by
  have hscalars : ∀ {a b : Value}, a.IsScalar ∨ b.IsScalar → a.looseEq b = .ok true →
      b.looseEq a = .ok true := by
    intro a b hscalar h
    rw [looseEq_of_scalar hscalar] at h
    rw [looseEq_of_scalar hscalar.symm]
    cases horder : orderScalars a b with
    | error limit =>
      rw [horder] at h
      cases h
    | ok order =>
      have heq : order = .eq := by simpa [horder] using h
      subst heq
      rw [orderScalars_swap hscalar (Or.inl rfl) horder]
      rfl
  induction a using Value.inductionOnEntries generalizing b with
  | scalar a hscalar => exact hscalars (Or.inl hscalar) h
  | array left ih =>
    rcases b.isScalar_or_array with hscalar | ⟨right, rfl⟩
    · exact hscalars (Or.inr hscalar) h
    · rw [looseEq_array] at h ⊢
      split at h
      · rename_i hsize
        rw [if_pos hsize.symm]
        obtain ⟨hleft, hlefts⟩ := distinctKeys_array.mp ha
        obtain ⟨hright, hrights⟩ := distinctKeys_array.mp hb
        exact looseEqEntries_symm hsize hleft hright (fun entry hentry other hother =>
          ih entry hentry (hlefts entry hentry) (hrights other hother)) h
      · cases h

/-- Loose equality holds just where comparing finds equality, and "smaller or equal" just where one
    of the two holds; all meet the same errors. Where neither order of the operands meets an error,
    loose equality does not depend on it. -/
theorem looseEq_agrees_with_order (a b : Value) (ha : a.DistinctKeys) (hb : b.DistinctKeys) :
    a.looseEq b = (· == some .eq) <$> a.order b ∧
    (a.isSmallerOrEqual b = do
      let smaller ← a.isSmaller b
      let equal ← a.looseEq b
      pure (smaller || equal)) ∧
    ∀ one other, a.looseEq b = .ok one → b.looseEq a = .ok other → one = other := by
  refine ⟨a.looseEq_eq_order b, ?_, ?_⟩
  · rw [a.looseEq_eq_order b]
    unfold Value.isSmallerOrEqual Value.isSmaller
    cases a.order b <;> rfl
  · intro one other hone hother
    cases one with
    | true => exact (Except.ok.inj ((Value.looseEq_symm ha hb hone).symm.trans hother))
    | false =>
      cases other with
      | true => exact (Except.ok.inj ((Value.looseEq_symm hb ha hother).symm.trans hone)).symm
      | false => rfl

/-- `["x" => ["1e1", " 7"], 5 => null]` and `[5 => "", "x" => [1 => 7, 0 => 10]]` are loosely
    equal. -/
theorem looseEq_agrees_with_order_shuffled :
    let a : Value := .array ⟨[(.str "x", .array ⟨[(.int 0, .str "1e1"), (.int 1, .str " 7")], 2⟩),
      (.int 5, .null)], 6⟩
    let b : Value := .array ⟨[(.int 5, .str ""),
      (.str "x", .array ⟨[(.int 1, .int 7), (.int 0, .int 10)], 2⟩)], 6⟩
    a.DistinctKeys ∧ b.DistinctKeys ∧ a.looseEq b = .ok true ∧ a.isSmallerOrEqual b = .ok true ∧
      ∀ other, b.looseEq a = .ok other → other = true := by
  intro a b
  have ha : a.DistinctKeys := by
    simp [a, Value.distinctKeys_array, Value.distinctKeys_of_ne_array, Dict.keys]
  have hb : b.DistinctKeys := by
    simp [b, Value.distinctKeys_array, Value.distinctKeys_of_ne_array, Dict.keys]
  have horder : a.order b = .ok (some .eq) := by decide +kernel
  obtain ⟨hequal, hsmaller, hsymm⟩ := looseEq_agrees_with_order a b ha hb
  have hloose : a.looseEq b = .ok true := by
    rw [hequal, horder]
    rfl
  refine ⟨ha, hb, hloose, ?_, fun other hother => (hsymm true other hloose hother).symm⟩
  rw [hsmaller, hloose]
  unfold Value.isSmaller
  rw [horder]
  rfl

/-! ## Comparable values -/

/-- Values that can be compared: not both arrays, or arrays of different sizes, or arrays with the
    same keys in the same order and elements that can be compared. -/
inductive Value.Comparable : Value → Value → Prop
  | scalar {a b : Value} (h : a.IsScalar ∨ b.IsScalar) : Value.Comparable a b
  | sizes {left right : Table Value} (h : left.size ≠ right.size) :
    Value.Comparable (.array left) (.array right)
  | entries {left right : Table Value}
    (hkeys : Dict.keys left.entries = Dict.keys right.entries)
    (h : ∀ key v w, left.get? key = some v → right.get? key = some w → Value.Comparable v w) :
    Value.Comparable (.array left) (.array right)

/-- Values that can be compared are in some order, and the other way round in the opposite one. -/
theorem Value.Comparable.order_swap {a b : Value} (h : a.Comparable b) (ha : ¬a.HasNaN)
    (hb : ¬b.HasNaN) (hdistinct : a.DistinctKeys) (hdistinct' : b.DistinctKeys)
    {found : Option Ordering} (hfound : a.order b = .ok found) :
    ∃ order, found = some order ∧ b.order a = .ok (some order.swap) := by
  induction h generalizing found with
  | @scalar a b hscalar =>
    rw [order_of_scalar hscalar] at hfound
    rw [order_of_scalar hscalar.symm]
    cases horder : orderScalars a b with
    | error limit =>
      rw [horder] at hfound
      cases hfound
    | ok order =>
      rw [horder] at hfound
      cases hfound
      rw [orderScalars_swap hscalar (Or.inr ⟨ha, hb⟩) horder]
      exact ⟨order, rfl, rfl⟩
  | @sizes left right hsize =>
    rw [order_array, if_neg hsize] at hfound
    rw [order_array, if_neg hsize.symm]
    cases hfound
    refine ⟨_, rfl, ?_⟩
    rw [Nat.compare_swap]
  | @entries left right hkeys hentries ih =>
    have hsize : left.size = right.size := by
      simpa [Dict.keys, Table.size] using congrArg List.length hkeys
    rw [order_array, if_pos hsize] at hfound
    rw [order_array, if_pos hsize.symm]
    obtain ⟨hleft, hlefts⟩ := distinctKeys_array.mp hdistinct
    obtain ⟨hright, hrights⟩ := distinctKeys_array.mp hdistinct'
    refine orderEntries_swap hkeys (fun entry => Dict.get?_of_mem hleft)
      (fun entry => Dict.get?_of_mem hright) ?_ hfound
    intro key v w hv hw found hfound
    have hvmem := Dict.mem_of_get? hv
    have hwmem := Dict.mem_of_get? hw
    exact ih key v w hv hw (fun hnan => ha (hasNaN_array.mpr ⟨_, hvmem, hnan⟩))
      (fun hnan => hb (hasNaN_array.mpr ⟨_, hwmem, hnan⟩)) (hlefts _ hvmem) (hrights _ hwmem) hfound

theorem orderToInt_swap (order : Ordering) : orderToInt order.swap = -orderToInt order := by
  cases order <;> rfl

/-- Values that can be compared and have no NaNs are in exactly one of the three orders, unless the
    text of a number in one of them cannot be read, and comparing them the other way round gives the
    opposite order. -/
theorem order_opposite_of_comparable {a b : Value} (h : a.Comparable b) (ha : ¬a.HasNaN)
    (hb : ¬b.HasNaN) (hdistinct : a.DistinctKeys) (hdistinct' : b.DistinctKeys) :
    (∃ s limit, (a.Holds (.str s) ∨ b.Holds (.str s)) ∧ parseNumeric s = .error limit ∧
      a.order b = .error limit) ∨
    ∃ order, a.order b = .ok (some order) ∧ b.order a = .ok (some order.swap) ∧
      orderToInt order.swap = -orderToInt order ∧
      BinaryOperator.spaceship.apply a b = pure (.int (orderToInt order)) ∧
      BinaryOperator.spaceship.apply b a = pure (.int (-orderToInt order)) ∧
      ∃ less equal greater, BinaryOperator.smaller.apply a b = pure (.bool less) ∧
        BinaryOperator.equal.apply a b = pure (.bool equal) ∧
        BinaryOperator.greater.apply a b = pure (.bool greater) ∧
        [less, equal, greater].count true = 1 := by
  cases hfound : a.order b with
  | error limit =>
    obtain ⟨s, hs, hparse⟩ := Value.exists_text_of_order_error hfound
    exact Or.inl ⟨s, limit, hs, hparse, rfl⟩
  | ok found =>
    obtain ⟨order, rfl, hback⟩ := h.order_swap ha hb hdistinct hdistinct' hfound
    refine Or.inr ⟨order, rfl, hback, orderToInt_swap order, ?_, ?_, ?_⟩
    · simp only [BinaryOperator.apply, Value.spaceship, hfound]
      rfl
    · simp only [BinaryOperator.apply, Value.spaceship, hback, ← orderToInt_swap]
      rfl
    · refine ⟨order == .lt, order == .eq, order == .gt, ?_, ?_, ?_, ?_⟩
      · simp only [BinaryOperator.apply, Value.isSmaller, hfound]
        cases order <;> rfl
      · simp only [BinaryOperator.apply, Value.looseEq_eq_order, hfound]
        cases order <;> rfl
      · simp only [BinaryOperator.apply, Value.isSmaller, hback]
        cases order <;> rfl
      · cases order <;> rfl

/-- `["x" => ["1e1"], 0 => "abc"]` is above `["x" => [10], 0 => -0.0]`: the first elements are
    equal, and `"abc"` comes after the text of the float. -/
theorem order_opposite_of_comparable_nested :
    let a : Value :=
      .array ⟨[(.str "x", .array ⟨[(.int 0, .str "1e1")], 1⟩), (.int 0, .str "abc")], 1⟩
    let b : Value :=
      .array ⟨[(.str "x", .array ⟨[(.int 0, .int 10)], 1⟩), (.int 0, .float (-0.0))], 1⟩
    a.Comparable b ∧ ¬a.HasNaN ∧ ¬b.HasNaN ∧ a.order b = .ok (some .gt) ∧
      b.order a = .ok (some .lt) ∧ BinaryOperator.spaceship.apply b a = pure (.int (-1)) := by
  intro a b
  have hcomparable : a.Comparable b := by
    refine .entries rfl fun key v w hv hw => ?_
    have hmem := Dict.mem_of_get? hv
    simp only [List.mem_cons, Prod.mk.injEq, List.not_mem_nil, or_false] at hmem
    rcases hmem with ⟨rfl, rfl⟩ | ⟨rfl, rfl⟩
    · cases hw
      refine .entries rfl fun key v w hv hw => ?_
      have hmem := Dict.mem_of_get? hv
      simp only [List.mem_singleton, Prod.mk.injEq] at hmem
      obtain ⟨rfl, rfl⟩ := hmem
      exact .scalar (Or.inl trivial)
    · exact .scalar (Or.inl trivial)
  have ha : ¬a.HasNaN := by
    simp [a, Value.hasNaN_array, Value.not_hasNaN]
  have hb : ¬b.HasNaN := by
    have hzero : FloatForm.ofFloat (-0.0) ≠ .nan := by decide +kernel
    simp [b, Value.hasNaN_array, Value.hasNaN_float, Value.not_hasNaN, hzero]
  have hdistinct : a.DistinctKeys := by
    simp [a, Value.distinctKeys_array, Value.distinctKeys_of_ne_array, Dict.keys]
  have hdistinct' : b.DistinctKeys := by
    simp [b, Value.distinctKeys_array, Value.distinctKeys_of_ne_array, Dict.keys]
  have hgreater : a.order b = .ok (some .gt) := by decide +kernel
  rcases order_opposite_of_comparable hcomparable ha hb hdistinct hdistinct' with
    ⟨s, limit, -, -, herror⟩ | ⟨order, horder, hback, -, -, hspaceship, -⟩
  · cases hgreater.symm.trans herror
  · cases hgreater.symm.trans horder
    exact ⟨hcomparable, ha, hb, hgreater, hback, hspaceship⟩

end WebScript
