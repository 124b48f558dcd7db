import WebScript.Proofs.Comparison
import WebScript.Proofs.FloatRange

/-!
# Numbers that cannot be read

The text of an integer meets a limit if it has too many digits to be read, or if its nearest float is
infinite. Such a text is met by comparisons: comparing two values fails just where it comes to one,
beside a number or another string.
-/

namespace WebScript

/-! ## Number texts -/

/-- A number text is that of an integer that has too many digits to be read, or whose nearest float
    is infinite. -/
def NumberText.IsUnreadable (text : NumberText) : Prop :=
  text.fraction = none ∧ text.exponent = none ∧
    (maxDecimalDigits < text.whole.length ∨ leastInfinite ≤ ofDigits 10 text.whole)

/-- A string is the text of an integer that cannot be read. -/
def IsUnreadableNumeric (s : String) : Prop :=
  ∃ text, NumberText.ofString? s = some text ∧ text.IsUnreadable

theorem natAbs_withSign (negative : Bool) (n : Nat) : (withSign negative n).natAbs = n := by
  unfold withSign
  split <;> simp

/-- A number text has no value if and only if it has an unreadable form. -/
theorem NumberText.exists_error_iff (text : NumberText) :
    (∃ limit, text.value = .error limit) ↔ text.IsUnreadable := by
  obtain ⟨negative, whole, fraction, exponent⟩ := text
  unfold NumberText.IsUnreadable NumberText.value
  cases fraction with
  | some digits => exact iff_of_false nofun nofun
  | none =>
    cases exponent with
    | some power => exact iff_of_false nofun nofun
    | none =>
      simp only [true_and]
      split_ifs with hlong
      · exact iff_of_true ⟨_, rfl⟩ (Or.inl hlong)
      · simp only [Number.ofInt_eq_error_iff, natAbs_withSign, hlong, false_or, exists_eq_left]

theorem NumberText.leading?_of_ofString? {s : String} {text : NumberText}
    (h : NumberText.ofString? s = some text) : NumberText.leading? s = some text := by
  unfold NumberText.ofString? at h
  unfold NumberText.leading?
  split at h
  · rename_i number rest hnumber
    split_ifs at h
    rw [hnumber]
    exact h
  · cases h

theorem exists_map_error_iff {α β : Type} (f : α → β) (result : Except Limit α) :
    (∃ limit, f <$> result = .error limit) ↔ ∃ limit, result = .error limit := by
  cases result with
  | error limit => exact iff_of_true ⟨limit, rfl⟩ ⟨limit, rfl⟩
  | ok value => exact iff_of_false nofun nofun

/-- Reading a string as a number meets a limit for just the unreadable numeric strings. -/
theorem parseNumeric_error_iff (s : String) :
    (∃ limit, parseNumeric s = .error limit) ↔ IsUnreadableNumeric s := by
  unfold parseNumeric IsUnreadableNumeric
  cases NumberText.ofString? s with
  | none => exact iff_of_false nofun nofun
  | some text =>
    simp only [Option.some.injEq, exists_eq_left']
    rw [← text.exists_error_iff]
    exact exists_map_error_iff some text.value

/-- What comes after a failure does not undo it. -/
theorem exists_bind_error {ε α β : Type} {first : Except ε α} (next : α → Except ε β)
    (h : ∃ failure, first = .error failure) : ∃ failure, first >>= next = .error failure := by
  obtain ⟨failure, rfl⟩ := h
  exact ⟨failure, rfl⟩

/-! ## Comparisons -/

section Comparisons

variable {a b : Value}

/-- Comparing two strings meets a limit if one of them is an unreadable numeric string. -/
theorem orderStrings_error_iff {s t : String} :
    (∃ limit, orderStrings s t = .error limit) ↔
      IsUnreadableNumeric s ∨ IsUnreadableNumeric t := by
  rw [← parseNumeric_error_iff, ← parseNumeric_error_iff]
  constructor
  · rintro ⟨limit, h⟩
    exact (orderStrings_error h).imp (.intro limit) (.intro limit)
  · intro h
    unfold orderStrings
    cases hs : parseNumeric s with
    | error limit => exact ⟨limit, rfl⟩
    | ok first =>
      obtain ⟨limit, ht⟩ := h.resolve_left (by simp [hs])
      rw [ht]
      exact ⟨limit, rfl⟩

theorem orderNumberString_error_iff {number : Number} {text : String} :
    (∃ limit, orderNumberString number text = .error limit) ↔ IsUnreadableNumeric text := by
  rw [← parseNumeric_error_iff]
  exact ⟨fun ⟨limit, h⟩ => ⟨limit, orderNumberString_error h⟩, exists_bind_error _⟩

theorem orderStringNumber_error_iff {number : Number} {text : String} :
    (∃ limit, orderStringNumber text number = .error limit) ↔ IsUnreadableNumeric text := by
  rw [← parseNumeric_error_iff]
  exact ⟨fun ⟨limit, h⟩ => ⟨limit, orderStringNumber_error h⟩, exists_bind_error _⟩

namespace Value

/-- Numbers and strings are compared with strings as numbers. -/
def IsNumberOrText : Value → Prop
  | .int _ | .float _ | .str _ => True
  | _ => False

/-- One of two values is the text of an integer that cannot be read, and the other one a number or
    a string. -/
def ComparesUnreadable (a b : Value) : Prop :=
  ∃ s, IsUnreadableNumeric s ∧
    (a = .str s ∧ b.IsNumberOrText ∨ b = .str s ∧ a.IsNumberOrText)

/-- Comparing two values comes to comparing two others: the values themselves, or what comparing the
    elements under one key comes to, in arrays of the same size whose entries before it are found
    equal. -/
inductive ComesTo : Value → Value → Value → Value → Prop
  | self {a b : Value} : ComesTo a b a b
  | element {left right : Table Value} {before after : List (Key × Value)} {key : Key}
    {v w l r : Value} (hsize : left.size = right.size)
    (hentries : left.entries = before ++ (key, v) :: after)
    (hbefore : orderEntries before right = .ok (some .eq)) (hget : right.get? key = some w)
    (h : ComesTo v w l r) : ComesTo (.array left) (.array right) l r

/-- Comparing two values comes to the text of an integer that cannot be read. -/
def ComparisonMeetsLimit (a b : Value) : Prop := ∃ l r, a.ComesTo b l r ∧ l.ComparesUnreadable r

end Value

/-- Where a scalar is compared, only reading a string as a number can meet a limit. -/
theorem orderScalars_error_iff (hscalar : a.IsScalar ∨ b.IsScalar) :
    (∃ limit, orderScalars a b = .error limit) ↔ a.ComparesUnreadable b := by
  unfold Value.ComparesUnreadable
  cases a with
  | str s =>
    cases b with
    | str t =>
      refine orderStrings_error_iff.trans ⟨?_, ?_⟩
      · rintro (h | h)
        · exact ⟨s, h, Or.inl ⟨rfl, trivial⟩⟩
        · exact ⟨t, h, Or.inr ⟨rfl, trivial⟩⟩
      · rintro ⟨_, h, ⟨⟨⟩, -⟩ | ⟨⟨⟩, -⟩⟩
        · exact Or.inl h
        · exact Or.inr h
    | int n | float g =>
      refine orderStringNumber_error_iff.trans ⟨fun h => ⟨s, h, Or.inl ⟨rfl, trivial⟩⟩, ?_⟩
      rintro ⟨_, h, ⟨⟨⟩, -⟩ | ⟨⟨⟩, -⟩⟩
      exact h
    | _ =>
      refine iff_of_false nofun ?_
      rintro ⟨_, -, ⟨-, ⟨⟩⟩ | ⟨⟨⟩, -⟩⟩
  | int m | float f =>
    cases b with
    | str t =>
      refine orderNumberString_error_iff.trans ⟨fun h => ⟨t, h, Or.inr ⟨rfl, trivial⟩⟩, ?_⟩
      rintro ⟨_, h, ⟨⟨⟩, -⟩ | ⟨⟨⟩, -⟩⟩
      exact h
    | _ =>
      refine iff_of_false nofun ?_
      rintro ⟨_, -, ⟨⟨⟩, -⟩ | ⟨⟨⟩, -⟩⟩
  | _ =>
    refine iff_of_false (by cases b <;> nofun) ?_
    rintro ⟨_, -, ⟨⟨⟩, -⟩ | ⟨rfl, ⟨⟩⟩⟩

/-- Entries that are equal to those of the other array pass the comparison on to the entries after
    them. -/
theorem orderEntries_append {before rest : List (Key × Value)} {table : Table Value}
    (h : orderEntries before table = .ok (some .eq)) :
    orderEntries (before ++ rest) table = orderEntries rest table := by
  induction before with
  | nil => rfl
  | cons entry before ih =>
    obtain ⟨key, v⟩ := entry
    cases hget : table.get? key with
    | none =>
      rw [orderEntries, hget] at h
      cases h
    | some w =>
      cases hfirst : v.order w with
      | error limit =>
        rw [orderEntries_cons_error hget hfirst] at h
        cases h
      | ok found =>
        by_cases heq : found = some .eq
        · subst heq
          rw [orderEntries_cons_eq hget hfirst] at h
          rw [List.cons_append, orderEntries_cons_eq hget hfirst]
          exact ih h
        · rw [orderEntries_cons_ne hget hfirst heq] at h
          cases h
          exact absurd rfl heq

/-- The first entry that is not found equal decides. -/
theorem orderEntries_error_iff {entries : List (Key × Value)} {table : Table Value} :
    (∃ limit, orderEntries entries table = .error limit) ↔
      ∃ before key v after w, entries = before ++ (key, v) :: after ∧
        orderEntries before table = .ok (some .eq) ∧ table.get? key = some w ∧
        ∃ limit, v.order w = .error limit := by
  constructor
  · induction entries with
    | nil => nofun
    | cons entry rest ih =>
      rintro ⟨limit, h⟩
      obtain ⟨key, v⟩ := entry
      cases hget : table.get? key with
      | none =>
        rw [orderEntries, hget] at h
        cases h
      | some w =>
        cases hfirst : v.order w with
        | error found => exact ⟨[], key, v, rest, w, rfl, rfl, hget, found, hfirst⟩
        | ok found =>
          by_cases heq : found = some .eq
          · subst heq
            rw [orderEntries_cons_eq hget hfirst] at h
            obtain ⟨before, key', v', after, w', rfl, hbefore, hrest⟩ := ih ⟨limit, h⟩
            refine ⟨(key, v) :: before, key', v', after, w', rfl, ?_, hrest⟩
            rw [orderEntries_cons_eq hget hfirst]
            exact hbefore
          · rw [orderEntries_cons_ne hget hfirst heq] at h
            cases h
  · rintro ⟨before, key, v, after, w, rfl, hbefore, hget, limit, h⟩
    rw [orderEntries_append hbefore]
    exact ⟨limit, orderEntries_cons_error hget h⟩

/-- Comparing two values fails just where it comes to the text of an integer that cannot be read. -/
theorem Value.order_error_iff (a b : Value) :
    (∃ limit, a.order b = .error limit) ↔ a.ComparisonMeetsLimit b := by
  have hscalars : ∀ {a b : Value}, a.IsScalar ∨ b.IsScalar →
      ((∃ limit, a.order b = .error limit) ↔ a.ComparisonMeetsLimit b) := by
    intro a b hscalar
    rw [order_of_scalar hscalar]
    refine (exists_map_error_iff some _).trans ((orderScalars_error_iff hscalar).trans ?_)
    refine ⟨fun h => ⟨a, b, .self, h⟩, ?_⟩
    rintro ⟨l, r, hcomes, h⟩
    cases hcomes with
    | self => exact h
    | element hsize hentries hbefore hget hinner => exact (hscalar.elim id id).elim
  induction a using Value.inductionOnEntries generalizing b with
  | scalar a ha => exact hscalars (Or.inl ha)
  | array left ih =>
    rcases b.isScalar_or_array with hb | ⟨right, rfl⟩
    · exact hscalars (Or.inr hb)
    · rw [order_array]
      constructor
      · split
        · rename_i hsize
          intro h
          obtain ⟨before, key, v, after, w, hentries, hbefore, hget, h⟩ :=
            orderEntries_error_iff.mp h
          have hmem : (key, v) ∈ left.entries := by simp [hentries]
          obtain ⟨l, r, hcomes, hunreadable⟩ := (ih (key, v) hmem w).mp h
          exact ⟨l, r, .element hsize hentries hbefore hget hcomes, hunreadable⟩
        · nofun
      · rintro ⟨l, r, hcomes, hunreadable⟩
        cases hcomes with
        | self =>
          obtain ⟨s, -, ⟨⟨⟩, -⟩ | ⟨⟨⟩, -⟩⟩ := hunreadable
        | element hsize hentries hbefore hget hcomes =>
          rw [if_pos hsize]
          have hmem := hentries ▸ List.mem_append_right _ List.mem_cons_self
          exact orderEntries_error_iff.mpr ⟨_, _, _, _, _, hentries, hbefore, hget,
            (ih _ hmem _).mpr ⟨l, r, hcomes, hunreadable⟩⟩

end Comparisons

end WebScript
