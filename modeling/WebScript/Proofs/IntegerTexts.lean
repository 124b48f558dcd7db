import WebScript.Proofs.Comparison
import WebScript.Proofs.KeyTexts
import WebScript.Proofs.NumericStrings

/-!
# The decimal forms of integers

An integer that fits is read back from its decimal form: as a number and as an operand, with blanks
around the form or not, and as an array key. Comparing it in this form gives the order of integers.
An integer that does not fit is read as a float, and its decimal form is a key of its own.
-/

namespace WebScript

/-! ## Reading a decimal form -/

/-- The decimal form of an integer as a number text. -/
def NumberText.ofInt (n : Int) : NumberText where
  negative := decide (n < 0)
  whole := (Nat.toDigits 10 n.natAbs).map fun c => c.toNat - '0'.toNat
  fraction := none
  exponent := none

theorem spellsDigits_of_isDigit {chars : List Char} (h : ∀ c ∈ chars, c.isDigit) :
    SpellsDigits (chars.map fun c => c.toNat - '0'.toNat) chars := by
  unfold SpellsDigits
  rw [List.forall₂_map_left_iff, List.forall₂_same]
  exact fun c hc => digitValue?_of_isDigit (h c hc)

/-- The decimal form of an integer spells a sign and digits. -/
theorem NumberText.spells_toString (n : Int) : (ofInt n).Spells (toString n).toList := by
  have hwhole : SpellsDigits (ofInt n).whole (Nat.toDigits 10 n.natAbs) :=
    spellsDigits_of_isDigit fun c hc => isDigit_of_mem_toDigits hc
  have hdigit : (ofInt n).HasDigit := by
    refine Or.inl fun hnil => Nat.toDigits_ne_nil (List.map_eq_nil_iff.mp hnil)
  have hsigned (sign : List Char) (hsign : SpellsSign (ofInt n).negative sign) :
      (ofInt n).Spells (sign ++ Nat.toDigits 10 n.natAbs) := by
    have h := Spells.mk hsign hwhole .missing .missing hdigit
    rw [List.append_nil, List.append_nil] at h
    exact h
  rw [toList_toString]
  split
  · rename_i hn
    have hnegative : (ofInt n).negative = true := decide_eq_true hn
    exact hsigned ['-'] (hnegative ▸ .minus)
  · rename_i hn
    have hnegative : (ofInt n).negative = false := decide_eq_false hn
    exact hsigned [] (hnegative ▸ .missing)

/-- The decimal form denotes its integer unless it has too many digits to be read. -/
theorem NumberText.value_ofInt (n : Int) :
    (ofInt n).value =
      if maxDecimalDigits < decimalLength n.natAbs then .error .digits else Number.ofInt n := by
  have hinteger : (ofInt n).integer = n := withSign_toDigits n
  have hlength : (ofInt n).whole.length = decimalLength n.natAbs := List.length_map _
  rw [value_of_isInteger ⟨rfl, rfl⟩, hinteger, hlength]

/-- A string is the decimal form of an integer with blanks around it. -/
def PadsDecimal (n : Int) (s : String) : Prop :=
  ∃ before after, s.toList = before ++ ((Value.int n).scalarText.toList ++ after) ∧
    (∀ c ∈ before, isNumericBlank c) ∧ ∀ c ∈ after, isNumericBlank c

section Padded

variable {n : Int} {s : String}

theorem padsDecimal_toString (n : Int) : PadsDecimal n (Value.int n).scalarText :=
  ⟨[], [], by simp, nofun, nofun⟩

/-- Blanks around a decimal form do not keep it from being all of the text. -/
theorem PadsDecimal.fills (h : PadsDecimal n s) : (NumberText.ofInt n).Fills s := by
  obtain ⟨before, after, hs, hbefore, hafter⟩ := h
  exact ⟨before, _, after, hs, NumberText.spells_toString n, hbefore, hafter⟩

/-- An integer that fits has few enough digits. -/
theorem value_ofInt_of_fits (h : FitsInt n) : (NumberText.ofInt n).value = .ok (.int n) := by
  rw [NumberText.value_ofInt, if_neg (Nat.not_lt.mpr (Key.decimalLength_le_of_fits h)),
    Number.ofInt_of_fits h]

/-- A padded decimal form is a numeric string for its integer. -/
theorem PadsDecimal.parseNumeric (h : PadsDecimal n s) (hfits : FitsInt n) :
    WebScript.parseNumeric s = .ok (some (.int n)) := by
  rw [parseNumeric_of_fills h.fills, value_ofInt_of_fits hfits]
  rfl

theorem PadsDecimal.toNumber (h : PadsDecimal n s) (hfits : FitsInt n) :
    (Value.str s).toNumber = pure (some (.int n)) := by
  rw [Value.toNumber_of_fills h.fills, value_ofInt_of_fits hfits]
  rfl

theorem PadsDecimal.toInt (h : PadsDecimal n s) (hfits : FitsInt n) :
    (Value.str s).toInt = pure (some n) := by
  rw [Value.toInt, h.toNumber hfits]
  rfl

end Padded

/-! ## Comparing decimal forms -/

theorem Number.order_int (m n : Int) : (Number.int m).order (.int n) = compare m n := by
  show compare (m * (unitsPerOne : Int)) (n * unitsPerOne) = compare m n
  have hpos : (0 : Int) < unitsPerOne := by exact_mod_cast unitsPerOne_pos
  rcases lt_trichotomy m n with h | rfl | h
  · rw [compare_lt_iff_lt.mpr h, compare_lt_iff_lt.mpr (mul_lt_mul_of_pos_right h hpos)]
  · rw [compare_eq_iff_eq.mpr rfl, compare_eq_iff_eq.mpr rfl]
  · rw [compare_gt_iff_gt.mpr h, compare_gt_iff_gt.mpr (mul_lt_mul_of_pos_right h hpos)]

/-- The number that stands for an order is the sign of the difference. -/
theorem orderToInt_compare (m n : Int) : orderToInt (compare m n) = (m - n).sign := by
  rcases lt_trichotomy m n with h | rfl | h
  · rw [compare_lt_iff_lt.mpr h, Int.sign_eq_neg_one_of_neg (by omega)]
    rfl
  · rw [compare_eq_iff_eq.mpr rfl, Int.sub_self]
    rfl
  · rw [compare_gt_iff_gt.mpr h, Int.sign_eq_one_of_pos (by omega)]
    rfl

/-- A value is an integer, or its decimal form with blanks around it. -/
def Value.StandsFor (value : Value) (n : Int) : Prop :=
  value = .int n ∨ ∃ s, PadsDecimal n s ∧ value = .str s

/-- An integer and its texts compare as the integer does. -/
theorem Value.StandsFor.order {left right : Value} {m n : Int} (hleft : left.StandsFor m)
    (hright : right.StandsFor n) (hm : FitsInt m) (hn : FitsInt n) :
    left.order right = .ok (some (compare m n)) := by
  have hscalars : orderScalars left right = .ok (compare m n) := by
    rw [← Number.order_int]
    rcases hleft with rfl | ⟨s, hs, rfl⟩
    · rcases hright with rfl | ⟨t, ht, rfl⟩
      · rfl
      · rw [orderScalars, orderNumberString, ht.parseNumeric hn]
        rfl
    · rcases hright with rfl | ⟨t, ht, rfl⟩
      · rw [orderScalars, orderStringNumber, hs.parseNumeric hm]
        rfl
      · rw [orderScalars, orderStrings, hs.parseNumeric hm, ht.parseNumeric hn]
        rfl
  have hscalar : left.IsScalar := by
    rcases hleft with rfl | ⟨s, -, rfl⟩ <;> trivial
  rw [Value.order_of_scalar (Or.inl hscalar), hscalars]
  rfl

/-! ## Decimal forms of all integers -/

/-- An integer that fits is read from its decimal form, with blanks around it or not, without a
    warning, and is the key that the form stands for; compared with another integer that fits, each
    of them written out or not, it gives the sign of their difference. The decimal form of an
    integer that does not fit is a key of its own and is read as the nearest float, unless it has
    too many digits or is beyond the range of floats. -/
theorem integers_survive_texts (n : Int) :
    (FitsInt n →
      (∀ s, PadsDecimal n s →
        parseNumeric s = .ok (some (.int n)) ∧
        (Value.str s).toNumber = pure (some (.int n)) ∧
        (Value.str s).toInt = pure (some n)) ∧
      (Value.str (Value.int n).scalarText).toKey = .ok (.int n) ∧
      (Value.int n).toKey = .ok (.int n) ∧
      ∀ m left right, FitsInt m → Value.StandsFor left m → Value.StandsFor right n →
        ∃ order, left.order right = .ok (some order) ∧ orderToInt order = (m - n).sign) ∧
    (¬FitsInt n → decimalLength n.natAbs ≤ maxDecimalDigits →
      (Value.str (Value.int n).scalarText).toKey = .ok (.str (Value.int n).scalarText) ∧
      (n.natAbs < leastInfinite → ∃ f, floatOfInt? n = some f ∧
        parseNumeric (Value.int n).scalarText = .ok (some (.float f)))) := by
  have hdecimal : IsDecimalText (Value.int n).scalarText n := Or.inl rfl
  constructor
  · intro hfits
    refine ⟨fun s hs => ⟨hs.parseNumeric hfits, hs.toNumber hfits, hs.toInt hfits⟩, ?_, rfl,
      fun m left right hm hleft hright =>
        ⟨_, hleft.order hright hm hfits, orderToInt_compare m n⟩⟩
    rw [Value.toKey, Key.ofString_eq_int_iff.mpr ⟨hfits, hdecimal⟩]
    rfl
  · intro hbeyond hlength
    have hlength := Nat.not_lt.mpr hlength
    constructor
    · rw [Value.toKey, Key.ofString_of_decimal hdecimal, if_neg hlength, if_neg hbeyond]
      rfl
    · intro hrange
      obtain ⟨f, hf⟩ := Number.exists_floatOfInt? hrange
      refine ⟨f, hf, ?_⟩
      rw [parseNumeric_of_fills (padsDecimal_toString n).fills, NumberText.value_ofInt,
        if_neg hlength, Number.ofInt_of_not_fits hbeyond, hf]
      rfl

/-- The least integer of programs is read from its decimal form between a blank and a line end, and
    is found less than the greatest one; the integer below it is a key of its own. -/
theorem integers_survive_texts_least :
    parseNumeric " -9223372036854775808\n" = .ok (some (.int intMin)) ∧
      (Value.str "-9223372036854775808").toKey = .ok (.int intMin) ∧
      (∃ order, (Value.int intMax).order (.str " -9223372036854775808\n") = .ok (some order) ∧
        orderToInt order = 1) ∧
      (Value.str "-9223372036854775809").toKey = .ok (.str "-9223372036854775809") := by
  have hfits : FitsInt intMin := by decide
  have hpads : PadsDecimal intMin " -9223372036854775808\n" :=
    ⟨[' '], ['\n'], by decide +kernel, by simp [isNumericBlank], by simp [isNumericBlank]⟩
  obtain ⟨hread, hkey, -, horder⟩ := (integers_survive_texts intMin).1 hfits
  have hbeyond := (integers_survive_texts (intMin - 1)).2 (by decide) (by decide +kernel)
  exact ⟨(hread _ hpads).1, hkey,
    horder intMax _ _ (by decide) (Or.inl rfl) (Or.inr ⟨_, hpads, rfl⟩), hbeyond.1⟩

end WebScript
