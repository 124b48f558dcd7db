import WebScript.Proofs.Comparison

/-!
# Strict equality

Strict equality is an equivalence of values without NaNs, and implies loose equality: strictly equal
values have the same type, and comparing them finds them equal, unless the number that a string in
them denotes meets a limit.
-/

namespace WebScript

namespace Value

theorem strictEq_array (left right : Table Value) :
    (Value.array left).strictEq (.array right) = strictEqEntries left.entries right.entries := rfl

/-- Floats are strictly equal if and only if they have the same exact value. -/
theorem strictEq_float {f g : Float} :
    (Value.float f).strictEq (.float g) = true ↔
      ∃ extent, (Number.float f).extent = some extent ∧ (Number.float g).extent = some extent := by
  have hextent : ∀ h : Float, (Number.float h).extent = (FloatForm.ofFloat h).extent :=
    fun _ => rfl
  simp only [strictEq, hextent]
  cases (FloatForm.ofFloat f).extent with
  | none => simp
  | some x =>
    cases (FloatForm.ofFloat g).extent with
    | none => simp
    | some y =>
      rw [beq_iff_eq]
      constructor
      · rintro rfl
        exact ⟨x, rfl, rfl⟩
      · rintro ⟨extent, hx, hy⟩
        exact (Option.some.inj hx).trans (Option.some.inj hy).symm

/-- Scalars other than floats are strictly equal to themselves only. -/
theorem strictEq_iff_eq {a b : Value} (hscalar : a.IsScalar) (hfloat : ∀ f, a ≠ .float f) :
    a.strictEq b = true ↔ a = b := by
  cases a with
  | float f => exact absurd rfl (hfloat f)
  | array table => exact hscalar.elim
  | null => cases b <;> simp [strictEq]
  | bool p => cases b <;> simp [strictEq]
  | int n => cases b <;> simp [strictEq]
  | str s => cases b <;> simp [strictEq]

/-- Strictly equal values are of one type. -/
theorem type_eq_of_strictEq {a b : Value} (h : a.strictEq b = true) : a.type = b.type := by
  cases a <;> cases b <;> first | rfl | cases h

end Value

/-- Entries are compared in their order, each with its key. -/
theorem strictEqEntries_cons_cons (k l : Key) (v w : Value) (left right : List (Key × Value)) :
    strictEqEntries ((k, v) :: left) ((l, w) :: right) = true ↔
      k = l ∧ v.strictEq w = true ∧ strictEqEntries left right = true := by
  simp [strictEqEntries, and_assoc]

/-! ## An equivalence -/

theorem strictEqEntries_self {entries : List (Key × Value)}
    (h : ∀ entry ∈ entries, entry.2.strictEq entry.2 = true) :
    strictEqEntries entries entries = true := by
  induction entries with
  | nil => rfl
  | cons first rest ih =>
    rw [strictEqEntries_cons_cons]
    exact ⟨rfl, h _ List.mem_cons_self,
      ih fun entry hentry => h entry (List.mem_cons_of_mem _ hentry)⟩

/-- A value that holds no NaN is strictly equal to itself. -/
theorem Value.strictEq_self {a : Value} (h : ¬a.HasNaN) : a.strictEq a = true := by
  induction a using Value.inductionOnEntries with
  | scalar a hscalar =>
    cases a with
    | float f =>
      obtain ⟨extent, hextent⟩ := isOrdered_of_not_hasNaN h
      exact strictEq_float.mpr ⟨extent, hextent, hextent⟩
    | _ => exact (strictEq_iff_eq hscalar (by simp)).mpr rfl
  | array table ih =>
    rw [strictEq_array]
    refine strictEqEntries_self fun entry hentry => ih entry hentry fun hnan => ?_
    exact h (hasNaN_array.mpr ⟨entry, hentry, hnan⟩)

theorem strictEqEntries_comm {left right : List (Key × Value)}
    (h : ∀ entry ∈ left, ∀ b, entry.2.strictEq b = b.strictEq entry.2) :
    strictEqEntries left right = strictEqEntries right left := by
  induction left generalizing right with
  | nil => cases right <;> rfl
  | cons first left ih =>
    cases right with
    | nil => rfl
    | cons second right =>
      have hrest := @ih right fun entry hentry => h entry (List.mem_cons_of_mem _ hentry)
      rw [Bool.eq_iff_iff, strictEqEntries_cons_cons, strictEqEntries_cons_cons,
        h _ List.mem_cons_self, hrest, eq_comm]

/-- Strict equality does not depend on the order of the values, entry by entry. -/
theorem Value.strictEq_comm (a b : Value) : a.strictEq b = b.strictEq a := by
  induction a using Value.inductionOnEntries generalizing b with
  | scalar a hscalar =>
    cases a with
    | array table => exact hscalar.elim
    | float f =>
      cases b with
      | float g =>
        rw [Bool.eq_iff_iff, strictEq_float, strictEq_float]
        exact exists_congr fun extent => and_comm
      | _ => rfl
    | _ => cases b <;> first | rfl | exact Bool.beq_comm
  | array left ih =>
    cases b with
    | array right => exact strictEqEntries_comm ih
    | _ => rfl

theorem strictEqEntries_trans {left middle right : List (Key × Value)}
    (h : ∀ entry ∈ left, ∀ b c, entry.2.strictEq b = true → b.strictEq c = true →
      entry.2.strictEq c = true)
    (hleft : strictEqEntries left middle = true) (hright : strictEqEntries middle right = true) :
    strictEqEntries left right = true := by
  induction left generalizing middle right with
  | nil =>
    cases middle with
    | nil => exact hright
    | cons second middle => cases hleft
  | cons first left ih =>
    cases middle with
    | nil => cases hleft
    | cons second middle =>
      cases right with
      | nil => cases hright
      | cons third right =>
        rw [strictEqEntries_cons_cons] at hleft hright ⊢
        obtain ⟨hkey, hvalue, hrest⟩ := hleft
        obtain ⟨hkey', hvalue', hrest'⟩ := hright
        exact ⟨hkey.trans hkey', h _ List.mem_cons_self _ _ hvalue hvalue',
          ih (fun entry hentry => h entry (List.mem_cons_of_mem _ hentry)) hrest hrest'⟩

/-- Strict equality goes on from value to value, entry by entry. -/
theorem Value.strictEq_trans {a b c : Value} (hab : a.strictEq b = true)
    (hbc : b.strictEq c = true) : a.strictEq c = true := by
  induction a using Value.inductionOnEntries generalizing b c with
  | scalar a hscalar =>
    cases a with
    | array table => exact hscalar.elim
    | float f =>
      cases b with
      | float g =>
        cases c with
        | float h =>
          obtain ⟨x, hf, hg⟩ := strictEq_float.mp hab
          obtain ⟨y, hg', hh⟩ := strictEq_float.mp hbc
          cases hg.symm.trans hg'
          exact strictEq_float.mpr ⟨x, hf, hh⟩
        | _ => cases hbc
      | _ => cases hab
    | _ =>
      cases (strictEq_iff_eq hscalar (by simp)).mp hab
      exact hbc
  | array left ih =>
    cases b with
    | array middle =>
      cases c with
      | array right =>
        exact strictEqEntries_trans (fun entry hentry b c => ih entry hentry) hab hbc
      | _ => cases hbc
    | _ => cases hab

/-! ## Strictly equal values compare equal -/

theorem length_eq_of_strictEqEntries {left right : List (Key × Value)}
    (h : strictEqEntries left right = true) : left.length = right.length := by
  induction left generalizing right with
  | nil =>
    cases right with
    | nil => rfl
    | cons second right => cases h
  | cons first left ih =>
    cases right with
    | nil => cases h
    | cons second right =>
      obtain ⟨-, -, hrest⟩ := (strictEqEntries_cons_cons ..).mp h
      exact congrArg Nat.succ (ih hrest)

/-- Entries that are strictly equal one after another are found in the other array, and compare
    equal. -/
theorem orderEntries_of_strictEqEntries {entries others : List (Key × Value)} {table : Table Value}
    (hget : ∀ entry ∈ others, table.get? entry.1 = some entry.2)
    (hequal : ∀ entry ∈ entries, ∀ other ∈ others, entry.2.strictEq other.2 = true →
      ∀ found, entry.2.order other.2 = .ok found → found = some .eq)
    (h : strictEqEntries entries others = true) {found : Option Ordering}
    (horder : orderEntries entries table = .ok found) : found = some .eq := by
  induction entries generalizing others with
  | nil =>
    cases horder
    rfl
  | cons first entries ih =>
    cases others with
    | nil => cases h
    | cons second others =>
      obtain ⟨key, v⟩ := first
      obtain ⟨key', w⟩ := second
      obtain ⟨rfl, hvalue, hrest⟩ := (strictEqEntries_cons_cons ..).mp h
      -- `orderEntries` looks up the key, which finds the entry at the same place.
      have hw : table.get? key = some w := hget _ List.mem_cons_self
      cases hfirst : v.order w with
      | error limit =>
        rw [orderEntries_cons_error hw hfirst] at horder
        cases horder
      | ok result =>
        cases hequal _ List.mem_cons_self _ List.mem_cons_self hvalue result hfirst
        rw [orderEntries_cons_eq hw hfirst] at horder
        exact ih (fun entry hentry => hget entry (List.mem_cons_of_mem _ hentry))
          (fun entry hentry other hother =>
            hequal entry (List.mem_cons_of_mem _ hentry) other (List.mem_cons_of_mem _ hother))
          hrest horder

theorem orderStrings_self {s : String} {order : Ordering} (h : orderStrings s s = .ok order) :
    order = .eq := by
  obtain ⟨parsed, hparsed, h⟩ := bind_eq_ok h
  rw [hparsed] at h
  cases parsed with
  | none =>
    cases h
    exact orderText_self s
  | some number =>
    cases h
    exact (isOrdered_of_parseNumeric hparsed).order_self

/-- Strictly equal scalars compare equal. -/
theorem orderScalars_of_strictEq {a b : Value} {order : Ordering} (hscalar : a.IsScalar)
    (h : a.strictEq b = true) (horder : orderScalars a b = .ok order) : order = .eq := by
  cases a with
  | array table => exact hscalar.elim
  | float f =>
    cases b with
    | float g =>
      obtain ⟨extent, hf, hg⟩ := Value.strictEq_float.mp h
      cases horder
      simp only [Number.order, hf, hg, Extended.order_self]
    | _ => cases h
  | str s =>
    cases (Value.strictEq_iff_eq hscalar (by simp)).mp h
    exact orderStrings_self horder
  | int n =>
    cases (Value.strictEq_iff_eq hscalar (by simp)).mp h
    cases horder
    exact (Number.isOrdered_int n).order_self
  | bool p =>
    cases (Value.strictEq_iff_eq hscalar (by simp)).mp h
    cases horder
    cases p <;> rfl
  | null =>
    cases (Value.strictEq_iff_eq hscalar (by simp)).mp h
    cases horder
    rfl

/-- Comparing strictly equal values finds them equal, if it meets no error. -/
theorem Value.order_of_strictEq {a b : Value} (hb : b.DistinctKeys)
    (h : a.strictEq b = true) {found : Option Ordering} (horder : a.order b = .ok found) :
    found = some .eq := by
  induction a using Value.inductionOnEntries generalizing b found with
  | scalar a hscalar =>
    rw [order_of_scalar (Or.inl hscalar)] at horder
    cases hfound : orderScalars a b with
    | error limit =>
      rw [hfound] at horder
      cases horder
    | ok order =>
      rw [hfound] at horder
      cases horder
      exact congrArg some (orderScalars_of_strictEq hscalar h hfound)
  | array left ih =>
    cases b with
    | array right =>
      rw [strictEq_array] at h
      have hsize : left.size = right.size := length_eq_of_strictEqEntries h
      rw [order_array, if_pos hsize] at horder
      obtain ⟨hright, hrights⟩ := distinctKeys_array.mp hb
      exact orderEntries_of_strictEqEntries (fun entry => Dict.get?_of_mem hright)
        (fun entry hentry other hother hvalue found =>
          ih entry hentry (hrights other hother) hvalue) h horder
    | _ => cases h

/-- On values without NaNs, strict equality is an equivalence. Strictly equal values, whatever is in
    them, have the same type and compare equal either way round, unless the text of a number in one
    of them cannot be read. -/
theorem strictEq_refines_looseEq :
    Equivalence (fun a b : { value : Value // ¬value.HasNaN } => a.1.strictEq b.1 = true) ∧
    ∀ a b : Value, a.DistinctKeys → b.DistinctKeys → a.strictEq b = true → a.type = b.type ∧
      ((∃ s limit, (a.Holds (.str s) ∨ b.Holds (.str s)) ∧ parseNumeric s = .error limit ∧
          a.order b = .error limit) ∨
        a.looseEq b = .ok true ∧ a.spaceship b = .ok .eq ∧ a.isSmaller b = .ok false ∧
          b.isSmaller a = .ok false) := by
  refine ⟨⟨fun a => Value.strictEq_self a.2, fun {a b} h => ?_, Value.strictEq_trans⟩, ?_⟩
  · rwa [Value.strictEq_comm]
  · intro a b ha hb h
    refine ⟨Value.type_eq_of_strictEq h, ?_⟩
    cases horder : a.order b with
    | error limit =>
      obtain ⟨s, hs, hparse⟩ := Value.exists_text_of_order_error horder
      exact Or.inl ⟨s, limit, hs, hparse, rfl⟩
    | ok found =>
      cases Value.order_of_strictEq hb h horder
      have hloose : a.looseEq b = .ok true := by
        rw [Value.looseEq_eq_order, horder]
        rfl
      have hback : b.order a = .ok (some .eq) :=
        Value.order_of_looseEq (Value.looseEq_symm ha hb hloose)
      refine Or.inr ⟨hloose, ?_, ?_, ?_⟩
      · rw [Value.spaceship, horder]
        rfl
      · rw [Value.isSmaller, horder]
        rfl
      · rw [Value.isSmaller, hback]
        rfl

/-- `[0 => 0.0, "x" => ["1e1"]]` and `[0 => -0.0, "x" => ["1e1"]]` are strictly equal. -/
theorem strictEq_refines_looseEq_signed_zeros :
    let a : Value :=
      .array ⟨[(.int 0, .float 0.0), (.str "x", .array ⟨[(.int 0, .str "1e1")], 1⟩)], 1⟩
    let b : Value :=
      .array ⟨[(.int 0, .float (-0.0)), (.str "x", .array ⟨[(.int 0, .str "1e1")], 1⟩)], 1⟩
    a.DistinctKeys ∧ b.DistinctKeys ∧ ¬a.HasNaN ∧ a.strictEq a = true ∧ a.strictEq b = true ∧
      a.type = b.type ∧ a.looseEq b = .ok true ∧ a.spaceship b = .ok .eq := by
  intro a b
  have ha : a.DistinctKeys := by
    simp [a, Value.distinctKeys_array, Value.distinctKeys_of_ne_array, Dict.keys]
  have hb : b.DistinctKeys := by
    simp [b, Value.distinctKeys_array, Value.distinctKeys_of_ne_array, Dict.keys]
  have hnan : ¬a.HasNaN := by
    have hzero : FloatForm.ofFloat 0.0 ≠ .nan := by decide +kernel
    simp [a, Value.hasNaN_array, Value.hasNaN_float, Value.not_hasNaN, hzero]
  have hstrict : a.strictEq b = true := by decide +kernel
  have horder : a.order b = .ok (some .eq) := by decide +kernel
  obtain ⟨hequivalence, hrefines⟩ := strictEq_refines_looseEq
  obtain ⟨htype, ⟨s, limit, -, -, herror⟩ | ⟨hloose, hspaceship, -⟩⟩ := hrefines a b ha hb hstrict
  · cases horder.symm.trans herror
  · exact ⟨ha, hb, hnan, hequivalence.refl ⟨a, hnan⟩, hstrict, htype, hloose, hspaceship⟩

end WebScript
