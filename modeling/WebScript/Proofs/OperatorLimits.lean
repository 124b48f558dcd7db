import WebScript.Proofs.IntegerOperators
import WebScript.Proofs.UnreadableNumbers

/-!
# Operators and limits of representation

An operator that is applied to values whose integers fit gives a value, or an error of the running
program, except in four cases, in which it meets a limit of representation. An operand that is used
as a number may start with the text of an integer that is too long to be read or beyond the range of
floats; a comparison may come to such a text; two characters may combine to a number that is no code
point; and a power with an exponent below 64 may be beyond the range of floats.
-/

namespace WebScript

/-! ## Operations that meet a limit -/

namespace Noted

variable {α β : Type}

/-- The operation ends at a limit of representation. -/
def IsLimited (noted : Noted α) : Prop := ∃ limit, noted.result = .error (.limit limit)

/-- An operation that meets no limit has a value or refuses with a cause. -/
theorem not_isLimited_iff {noted : Noted α} :
    ¬noted.IsLimited ↔ (∃ value, noted.result = .ok value) ∨
      ∃ cause, noted.result = .error (.cause cause) := by
  unfold IsLimited
  rcases noted.result with (cause | limit) | value
  · exact iff_of_true nofun (Or.inr ⟨cause, rfl⟩)
  · refine iff_of_false (fun h => h ⟨limit, rfl⟩) ?_
    rintro (⟨value, ⟨⟩⟩ | ⟨cause, ⟨⟩⟩)
  · exact iff_of_true nofun (Or.inl ⟨value, rfl⟩)

@[simp] theorem isLimited_pure (value : α) : ¬(pure value : Noted α).IsLimited := nofun

@[simp] theorem isLimited_refuse (cause : Cause) : ¬(refuse cause : Noted α).IsLimited := nofun

@[simp] theorem isLimited_warn (warning : Warning) : ¬(warn warning).IsLimited := nofun

@[simp] theorem isLimited_ofLimit (result : Except Limit α) :
    (ofLimit result).IsLimited ↔ ∃ limit, result = .error limit := by
  unfold IsLimited ofLimit
  cases result with
  | error limit => exact iff_of_true ⟨limit, rfl⟩ ⟨limit, rfl⟩
  | ok value => exact iff_of_false nofun nofun

theorem result_bind_eq_ok {first : Noted α} {next : α → Noted β} {value : β} :
    (first >>= next).result = .ok value ↔
      ∃ x, first.result = .ok x ∧ (next x).result = .ok value := by
  show (Noted.bind first next).result = .ok value ↔ _
  unfold Noted.bind
  rcases first.result with refusal | x <;> simp

theorem result_bind_ne_cause {first : Noted α} {next : α → Noted β} {cause : Cause}
    (hfirst : first.result ≠ .error (.cause cause))
    (hnext : ∀ x, (next x).result ≠ .error (.cause cause)) :
    (first >>= next).result ≠ .error (.cause cause) := by
  show (Noted.bind first next).result ≠ _
  unfold Noted.bind
  split
  · exact hnext _
  · rename_i hrefusal
    rw [hrefusal] at hfirst
    rintro ⟨⟩
    exact hfirst rfl

/-- Of operations one after another, one that is reached has to meet the limit. -/
theorem isLimited_bind (first : Noted α) (next : α → Noted β) :
    (first >>= next).IsLimited ↔
      first.IsLimited ∨ ∃ value, first.result = .ok value ∧ (next value).IsLimited := by
  show (Noted.bind first next).IsLimited ↔ _
  unfold Noted.bind IsLimited
  rcases first.result with refusal | value <;> simp

/-- What follows an operation meets no limit of its own, so the operation alone decides. -/
theorem isLimited_bind_iff {first : Noted α} {next : α → Noted β} {P : α → Prop}
    (hfirst : Gives P first) (hnext : ∀ value, P value → ¬(next value).IsLimited) :
    (first >>= next).IsLimited ↔ first.IsLimited := by
  rw [isLimited_bind]
  constructor
  · rintro (h | ⟨value, hvalue, h⟩)
    · exact h
    · exact absurd h (hnext value (hfirst value hvalue))
  · exact Or.inl

/-- Two operations that are no errors of the program, one after the other, and what follows them
    meets no limit of its own. -/
theorem isLimited_pair {γ : Type} {first : Noted α} {second : Noted β} {next : α → β → Noted γ}
    (hfirst : ∀ cause, first.result ≠ .error (.cause cause))
    (hnext : ∀ x y, ¬(next x y).IsLimited) :
    (do
      let x ← first
      let y ← second
      next x y).IsLimited ↔ first.IsLimited ∨ second.IsLimited := by
  rw [isLimited_bind]
  simp only [isLimited_bind, hnext, and_false, exists_false, or_false]
  constructor
  · exact Or.imp_right fun ⟨_, _, h⟩ => h
  · rintro (h | h)
    · exact Or.inl h
    · by_cases hlimited : first.IsLimited
      · exact Or.inl hlimited
      · rcases not_isLimited_iff.mp hlimited with ⟨x, hx⟩ | ⟨cause, hcause⟩
        · exact Or.inr ⟨x, hx, h⟩
        · exact absurd hcause (hfirst cause)

end Noted

/-! ## Operands that are used as numbers -/

/-- A value is a string that starts with the text of an integer that cannot be read. -/
def Value.IsUnreadable (value : Value) : Prop :=
  ∃ s text, value = .str s ∧ NumberText.leading? s = some text ∧ text.IsUnreadable

namespace Value

theorem not_isUnreadable_of_ne_str {value : Value} (h : ∀ s, value ≠ .str s) :
    ¬value.IsUnreadable :=
  fun ⟨s, _, hs, _⟩ => h s hs

/-- Only an unreadable numeric string cannot be used as a number. -/
theorem isLimited_toNumber (value : Value) : value.toNumber.IsLimited ↔ value.IsUnreadable := by
  cases value with
  | str s =>
    have hunreadable : (Value.str s).IsUnreadable ↔
        ∃ text, NumberText.leading? s = some text ∧ text.IsUnreadable := by
      simp [Value.IsUnreadable]
    rw [hunreadable]
    cases hwhole : NumberText.ofString? s with
    | some text =>
      have hleading := NumberText.leading?_of_ofString? hwhole
      simp only [toNumber, hwhole, hleading, Noted.isLimited_ofLimit, exists_map_error_iff,
        text.exists_error_iff, Option.some.injEq, exists_eq_left']
    | none =>
      cases hleading : NumberText.leading? s with
      | none => simp [toNumber, hwhole, hleading]
      | some text =>
        have hwarn : (Noted.warn (.nonNumeric s)).result = .ok () := rfl
        simp only [toNumber, hwhole, hleading, Noted.isLimited_bind, Noted.isLimited_warn, hwarn,
          Noted.isLimited_ofLimit, exists_map_error_iff, text.exists_error_iff, Option.some.injEq,
          exists_eq_left', false_or, exists_const, true_and]
  | _ => exact iff_of_false (Noted.isLimited_pure _) (not_isUnreadable_of_ne_str nofun)

theorem isLimited_toInt (value : Value) : value.toInt.IsLimited ↔ value.IsUnreadable := by
  rw [← isLimited_toNumber]
  exact Noted.isLimited_bind_iff (P := fun _ => True) (fun _ _ => trivial)
    fun _ _ => Noted.isLimited_pure _

theorem ofLimit_ne_cause {α : Type} (result : Except Limit α) (cause : Cause) :
    (Noted.ofLimit result).result ≠ .error (.cause cause) := by
  cases result <;> nofun

/-- Using a value as a number is no error of the program. -/
theorem toNumber_ne_cause (value : Value) (cause : Cause) :
    value.toNumber.result ≠ .error (.cause cause) := by
  cases value with
  | str s =>
    rw [toNumber]
    split
    · exact ofLimit_ne_cause _ cause
    · split
      · exact ofLimit_ne_cause _ cause
      · nofun
  | _ => nofun

theorem toInt_ne_cause (value : Value) (cause : Cause) :
    value.toInt.result ≠ .error (.cause cause) :=
  Noted.result_bind_ne_cause (value.toNumber_ne_cause cause) nofun

end Value

/-! ## Pairs of operands -/

section Pairs

open Noted

variable (op : BinaryOperator) {left right : Value}

/-- Both operands are read before either is refused, so that an unreadable one is met in either
    place. -/
theorem isLimited_numericPair :
    (numericPair op left right).IsLimited ↔ left.IsUnreadable ∨ right.IsUnreadable := by
  rw [← Value.isLimited_toNumber, ← Value.isLimited_toNumber]
  refine isLimited_pair left.toNumber_ne_cause fun first second => ?_
  cases first <;> cases second <;> nofun

theorem isLimited_intPair :
    (intPair op left right).IsLimited ↔ left.IsUnreadable ∨ right.IsUnreadable := by
  rw [← Value.isLimited_toInt, ← Value.isLimited_toInt]
  refine isLimited_pair left.toInt_ne_cause fun first second => ?_
  cases first <;> cases second <;> nofun

variable {op}

theorem numericPair_eq_ok_iff {x y : Number} :
    (numericPair op left right).result = .ok (x, y) ↔
      left.toNumber.result = .ok (some x) ∧ right.toNumber.result = .ok (some y) := by
  unfold numericPair
  simp only [result_bind_eq_ok]
  constructor
  · rintro ⟨first, hfirst, second, hsecond, hpair⟩
    rw [hfirst, hsecond]
    cases first with
    | none => cases hpair
    | some found =>
      cases second with
      | none => cases hpair
      | some other =>
        cases hpair
        exact ⟨rfl, rfl⟩
  · rintro ⟨hx, hy⟩
    exact ⟨_, hx, _, hy, rfl⟩

/-- Numbers of values that fit do. -/
theorem fits_numericPair (hleft : left.Fits) (hright : right.Fits) :
    Gives (fun pair => pair.1.Fits ∧ pair.2.Fits) (numericPair op left right) := by
  rintro ⟨x, y⟩ h
  obtain ⟨hx, hy⟩ := numericPair_eq_ok_iff.mp h
  exact ⟨hleft.toNumber _ hx x rfl, hright.toNumber _ hy y rfl⟩

end Pairs

/-! ## Arithmetic -/

section Arithmetic

variable {x y : Number}

/-- An integer that fits is not too large for a float. -/
theorem Number.Fits.exists_toFloat (h : x.Fits) : ∃ f, x.toFloat = .ok f := by
  cases x with
  | int n =>
    obtain ⟨f, hf⟩ := Number.exists_floatOfInt?
      (lt_leastInfinite_of_le (Nat.le_trans (natAbs_le_of_fits h) (by decide)))
    rw [Number.toFloat_int, hf]
    exact ⟨f, rfl⟩
  | float f => exact ⟨f, rfl⟩

/-- What is computed from the floats nearest to two numbers of programs meets no limit. -/
theorem exists_of_floats (hx : x.Fits) (hy : y.Fits) (onFloats : Float → Float → Float) :
    ∃ f, (do
      let f ← x.toFloat
      let g ← y.toFloat
      pure (.float (onFloats f g)) : Except Limit Number) = .ok (.float f) := by
  obtain ⟨f, hf⟩ := hx.exists_toFloat
  obtain ⟨g, hg⟩ := hy.exists_toFloat
  rw [hf, hg]
  exact ⟨onFloats f g, rfl⟩

/-- Arithmetic on numbers that fit has a result if that on integers reaches no further than 2^128,
    where there are still floats. -/
theorem exists_arithmetic {onInts : Int → Int → Int} (onFloats : Float → Float → Float)
    (hints : ∀ a b, FitsInt a → FitsInt b → (onInts a b).natAbs ≤ 2 ^ 128) (hx : x.Fits)
    (hy : y.Fits) : ∃ number, arithmetic onInts onFloats x y = .ok number := by
  unfold arithmetic
  split
  · exact Number.exists_ofInt_of_le (hints _ _ hx hy)
  · obtain ⟨f, hf⟩ := exists_of_floats hx hy onFloats
    exact ⟨_, hf⟩

/-- A division of numbers that fit by one other than zero has a result. -/
theorem exists_divideNumbers (hx : x.Fits) (hy : y.Fits) (hzero : ¬y.isZero) :
    ∃ number, divideNumbers x y = .ok number := by
  have hfloats := exists_of_floats hx hy (· / ·)
  cases x with
  | int a =>
    cases y with
    | int b =>
      rw [isZero_int, decide_eq_true_eq] at hzero
      have hsize : a.natAbs ≤ 2 ^ 128 := Nat.le_trans (natAbs_le_of_fits hx) (by decide)
      simp only [divideNumbers]
      split_ifs with hwhole
      · exact Number.exists_ofInt_of_le (Nat.le_trans (Int.natAbs_ediv_le_natAbs a b) hsize)
      · obtain ⟨f, hf⟩ := exists_nearestFloat? (decide (a < 0) != decide (b < 0))
          (Int.natAbs_pos.mpr hzero) hsize
        simp only [divideInts_eq, hf]
        exact ⟨.float f, rfl⟩
    | float g =>
      obtain ⟨f, hf⟩ := hfloats
      exact ⟨_, hf⟩
  | float f =>
    obtain ⟨f, hf⟩ := hfloats
    exact ⟨_, hf⟩

theorem exists_negateNumber (hx : x.Fits) : ∃ number, negateNumber x = .ok number := by
  cases x with
  | int n =>
    have hsize := natAbs_le_of_fits hx
    exact Number.exists_ofInt_of_le (by omega)
  | float f => exact ⟨_, rfl⟩

/-- Two numbers are integers, the second an exponent below 64, whose power is beyond the range of
    floats. -/
def Number.PowerOverflows (x y : Number) : Prop :=
  ∃ a b, x = .int a ∧ y = .int b ∧ 0 ≤ b ∧ b < 64 ∧ leastInfinite ≤ (a ^ b.toNat).natAbs

theorem natAbs_pow_le_one {a : Int} (ha : a.natAbs ≤ 1) (n : Nat) : (a ^ n).natAbs ≤ 1 := by
  rw [Int.natAbs_pow]
  exact pow_le_one₀ (Nat.zero_le _) ha

section Integers

variable {a b : Int}

/-- A power with an exponent below 64 is computed exactly. -/
theorem powerNumbers_of_lt (hb : 0 ≤ b) (hsmall : b < 64) :
    powerNumbers (.int a) (.int b) = Number.ofInt (a ^ b.toNat) := by
  simp only [powerNumbers, Int.pow_eq, hb, hsmall, and_self, if_true]

/-- Bases that only repeat have a power that depends on the parity of the exponent. -/
theorem pow_parity (ha : a.natAbs ≤ 1) {n : Nat} (hn : n ≠ 0) : a ^ (62 + n % 2) = a ^ n := by
  have hcases : a = -1 ∨ a = 0 ∨ a = 1 := by omega
  rcases hcases with rfl | rfl | rfl
  · rw [neg_one_pow_eq_pow_mod_two (62 + n % 2), neg_one_pow_eq_pow_mod_two n]
    congr 1
    omega
  · rw [zero_pow (by omega), zero_pow hn]
  · rw [one_pow, one_pow]

/-- A power of -1, 0 or 1 is that of a smaller exponent of the same parity. -/
theorem powerNumbers_of_repeats (hlarge : 64 ≤ b) (ha : a.natAbs ≤ 1) :
    powerNumbers (.int a) (.int b) = Number.ofInt (a ^ b.toNat) := by
  have hnot : ¬(0 ≤ b ∧ b < 64) := by omega
  have hrepeats : 0 ≤ b ∧ a.natAbs ≤ 1 := ⟨by omega, ha⟩
  simp only [powerNumbers, Int.pow_eq, if_neg hnot, if_pos hrepeats]
  rw [pow_parity ha (by omega)]

/-- A power of another base with a large exponent is a float. -/
theorem powerNumbers_of_le (ha : FitsInt a) (hb : FitsInt b) (hlarge : 64 ≤ b)
    (hgrows : ¬a.natAbs ≤ 1) : ∃ f, powerNumbers (.int a) (.int b) = .ok (.float f) := by
  have hnot : ¬(0 ≤ b ∧ b < 64) := by omega
  simp only [powerNumbers, if_neg hnot, hgrows, and_false, if_false]
  exact exists_of_floats (x := .int a) (y := .int b) ha hb powerFloats

end Integers

/-- The power of two numbers of programs meets a limit just where it is beyond the range of
    floats. -/
theorem powerNumbers_error_iff (hx : x.Fits) (hy : y.Fits) :
    (∃ limit, powerNumbers x y = .error limit) ↔ x.PowerOverflows y := by
  have hfloats := exists_of_floats hx hy powerFloats
  have hfloat (h : ∃ f, powerNumbers x y = .ok (.float f)) :
      ¬∃ limit, powerNumbers x y = .error limit := by
    obtain ⟨f, hf⟩ := h
    rw [hf]
    nofun
  unfold Number.PowerOverflows
  cases x with
  | float f => exact iff_of_false (hfloat hfloats) nofun
  | int a =>
    cases y with
    | float g => exact iff_of_false (hfloat hfloats) nofun
    | int b =>
      simp only [Number.int.injEq, exists_and_left, exists_eq_left']
      by_cases hnonneg : 0 ≤ b
      · by_cases hsmall : b < 64
        · simp only [powerNumbers_of_lt hnonneg hsmall, Number.ofInt_eq_error_iff, exists_eq_left,
            hnonneg, hsmall, true_and]
        · refine iff_of_false ?_ fun h => hsmall h.2.1
          by_cases hrepeats : a.natAbs ≤ 1
          · have hpower := natAbs_pow_le_one hrepeats b.toNat
            have hbound : (a ^ b.toNat).natAbs < leastInfinite :=
              lt_leastInfinite_of_le (Nat.le_trans hpower (by decide))
            simp only [powerNumbers_of_repeats (Int.not_lt.mp hsmall) hrepeats,
              Number.ofInt_eq_error_iff, exists_eq_left]
            exact Nat.not_le.mpr hbound
          · exact hfloat (powerNumbers_of_le hx hy (Int.not_lt.mp hsmall) hrepeats)
      · refine iff_of_false (hfloat ?_) fun h => hnonneg h.1
        simp only [powerNumbers, hnonneg, false_and, if_false]
        exact hfloats

end Arithmetic

/-! ## Operators on numbers -/

section Operators

open Noted

variable {left right : Value}

theorem not_isLimited_ofNumber {result : Except Limit Number}
    (h : ∃ number, result = .ok number) :
    ¬(do
      let number ← Noted.ofLimit result
      pure number.toValue : Noted Value).IsLimited := by
  obtain ⟨number, rfl⟩ := h
  nofun

theorem isLimited_applyArithmetic (op : BinaryOperator) {onInts : Int → Int → Int}
    (onFloats : Float → Float → Float) (hleft : left.Fits) (hright : right.Fits)
    (hints : ∀ a b, FitsInt a → FitsInt b → (onInts a b).natAbs ≤ 2 ^ 128) :
    (applyArithmetic op onInts onFloats left right).IsLimited ↔
      left.IsUnreadable ∨ right.IsUnreadable := by
  rw [← isLimited_numericPair op]
  refine isLimited_bind_iff (fits_numericPair hleft hright) fun pair hpair => ?_
  exact not_isLimited_ofNumber (exists_arithmetic onFloats hints hpair.1 hpair.2)

theorem isLimited_applyDiv (hleft : left.Fits) (hright : right.Fits) :
    (applyDiv left right).IsLimited ↔ left.IsUnreadable ∨ right.IsUnreadable := by
  rw [← isLimited_numericPair .div]
  refine isLimited_bind_iff (fits_numericPair hleft hright) fun pair hpair => ?_
  obtain ⟨x, y⟩ := pair
  dsimp only
  split
  · exact isLimited_refuse _
  · rename_i hzero
    exact not_isLimited_ofNumber (exists_divideNumbers hpair.1 hpair.2 hzero)

theorem isLimited_applyMod :
    (applyMod left right).IsLimited ↔ left.IsUnreadable ∨ right.IsUnreadable := by
  rw [← isLimited_intPair .mod]
  refine isLimited_bind_iff (P := fun _ => True) (fun _ _ => trivial) fun pair _ => ?_
  obtain ⟨a, b⟩ := pair
  dsimp only
  split
  · exact isLimited_refuse _
  · exact isLimited_pure _

theorem isLimited_applyShift (op : BinaryOperator) (shift : Int → Nat → Int) :
    (applyShift op shift left right).IsLimited ↔ left.IsUnreadable ∨ right.IsUnreadable := by
  rw [← isLimited_intPair op]
  refine isLimited_bind_iff (P := fun _ => True) (fun _ _ => trivial) fun pair _ => ?_
  obtain ⟨a, b⟩ := pair
  dsimp only
  split
  · exact isLimited_refuse _
  · exact isLimited_pure _

/-- Two values are used as numbers whose power is beyond the range of floats. -/
def Value.PowerOverflows (left right : Value) : Prop :=
  ∃ x y, left.toNumber.result = .ok (some x) ∧ right.toNumber.result = .ok (some y) ∧
    x.PowerOverflows y

/-- A power meets a limit if an operand is unreadable or the exact power is too large for a
    float. -/
theorem isLimited_applyPow (hleft : left.Fits) (hright : right.Fits) :
    (applyPow left right).IsLimited ↔
      (left.IsUnreadable ∨ right.IsUnreadable) ∨ left.PowerOverflows right := by
  rw [← isLimited_numericPair .pow]
  unfold applyPow
  rw [isLimited_bind]
  refine or_congr_right ?_
  have hpower (x y : Number) (hx : left.toNumber.result = .ok (some x))
      (hy : right.toNumber.result = .ok (some y)) :
      (do
        let result ← Noted.ofLimit (powerNumbers x y)
        pure result.toValue : Noted Value).IsLimited ↔ x.PowerOverflows y := by
    rw [isLimited_bind_iff (P := fun _ => True) (fun _ _ => trivial) fun _ _ => isLimited_pure _,
      isLimited_ofLimit]
    exact powerNumbers_error_iff (hleft.toNumber _ hx x rfl) (hright.toNumber _ hy y rfl)
  constructor
  · rintro ⟨⟨x, y⟩, hpair, hlimited⟩
    obtain ⟨hx, hy⟩ := numericPair_eq_ok_iff.mp hpair
    exact ⟨x, y, hx, hy, (hpower x y hx hy).mp hlimited⟩
  · rintro ⟨x, y, hx, hy, hoverflows⟩
    exact ⟨(x, y), numericPair_eq_ok_iff.mpr ⟨hx, hy⟩, (hpower x y hx hy).mpr hoverflows⟩

theorem isLimited_numericOperand (op : UnaryOperator) (operand : Value) :
    (numericOperand op operand).IsLimited ↔ operand.IsUnreadable := by
  rw [← Value.isLimited_toNumber]
  refine isLimited_bind_iff (P := fun _ => True) (fun _ _ => trivial) fun number _ => ?_
  cases number <;> nofun

end Operators

/-! ## Bitwise operators on strings -/

section Characters

variable {combine : Nat → Nat → Nat}

theorem toNat_le_lastCodePoint (c : Char) : c.toNat ≤ 0x10FFFF := by
  have hvalid : c.toNat < 0xd800 ∨ 0xdfff < c.toNat ∧ c.toNat < 0x110000 := c.valid
  omega

/-- A number beyond the last code point is no character. -/
theorem charOfNat_error_iff (n : Nat) :
    (∃ limit, charOfNat n = .error limit) ↔ 0x10FFFF < n := by
  unfold charOfNat
  split_ifs with hpoint hsize
  · exact iff_of_false nofun (by omega)
  · exact iff_of_true ⟨_, rfl⟩ (by omega)
  · exact iff_of_true ⟨_, rfl⟩ (by omega)

/-- Two texts have, at the same place, characters that combine to a number that is no code point. -/
def CombinesBeyond (combine : Nat → Nat → Nat) (left right : List Char) : Prop :=
  ∃ (i : Nat) (x y : Char), left[i]? = some x ∧ right[i]? = some y ∧
    0x10FFFF < combine x.toNat y.toNat

theorem combinesBeyond_cons {x y : Char} {left right : List Char} :
    CombinesBeyond combine (x :: left) (y :: right) ↔
      0x10FFFF < combine x.toNat y.toNat ∨ CombinesBeyond combine left right := by
  constructor
  · rintro ⟨i, u, v, hu, hv, h⟩
    cases i with
    | zero =>
      cases hu
      cases hv
      exact Or.inl h
    | succ i => exact Or.inr ⟨i, u, v, hu, hv, h⟩
  · rintro (h | ⟨i, u, v, hu, hv, h⟩)
    · exact ⟨0, x, y, rfl, rfl, h⟩
    · exact ⟨i + 1, u, v, hu, hv, h⟩

/-- Combining characters meets a limit if some combined number is beyond the last code point. -/
theorem combineChars_error_iff {left right : List Char} :
    (∃ limit, combineChars combine left right = .error limit) ↔
      CombinesBeyond combine left right := by
  induction left generalizing right with
  | nil =>
    refine iff_of_false nofun ?_
    rintro ⟨i, x, y, ⟨⟩, -⟩
  | cons x left ih =>
    cases right with
    | nil =>
      refine iff_of_false nofun ?_
      rintro ⟨i, x, y, -, ⟨⟩, -⟩
    | cons y right =>
      rw [combinesBeyond_cons, ← ih, ← charOfNat_error_iff]
      simp only [combineChars]
      cases charOfNat (combine x.toNat y.toNat) with
      | error limit => exact iff_of_true ⟨limit, rfl⟩ (Or.inl ⟨limit, rfl⟩)
      | ok c =>
        cases combineChars combine left right with
        | error limit => exact iff_of_true ⟨limit, rfl⟩ (Or.inr ⟨limit, rfl⟩)
        | ok rest => exact iff_of_false nofun (by rintro (⟨_, ⟨⟩⟩ | ⟨_, ⟨⟩⟩))

theorem padNull_of_getElem? {width i : Nat} {text : List Char} {x : Char}
    (h : text[i]? = some x) : (padNull width text)[i]? = some x := by
  unfold padNull
  rw [List.getElem?_append_left (List.getElem?_eq_some_iff.mp h).1]
  exact h

/-- What is filled in combines with every character to a code point. -/
theorem getElem?_of_padNull {width i : Nat} {text : List Char} {x : Char}
    (h : (padNull width text)[i]? = some x) : text[i]? = some x ∨ x.toNat = 0 := by
  unfold padNull at h
  rw [List.getElem?_append] at h
  split at h
  · exact Or.inl h
  · rw [List.getElem?_replicate] at h
    split at h
    · cases h
      exact Or.inr rfl
    · cases h

/-- Padding with NUL characters adds no combined number that is too large. -/
theorem combinesBeyond_padNull {width : Nat} {left right : List Char}
    (hzero : ∀ n, combine n 0 ≤ n ∧ combine 0 n ≤ n) :
    CombinesBeyond combine (padNull width left) (padNull width right) ↔
      CombinesBeyond combine left right := by
  constructor
  · rintro ⟨i, x, y, hx, hy, h⟩
    have hxle := toNat_le_lastCodePoint x
    have hyle := toNat_le_lastCodePoint y
    rcases getElem?_of_padNull hx with hx | hx
    · rcases getElem?_of_padNull hy with hy | hy
      · exact ⟨i, x, y, hx, hy, h⟩
      · have := (hzero x.toNat).1
        rw [hy] at h
        omega
    · have := (hzero y.toNat).2
      rw [hx] at h
      omega
  · rintro ⟨i, x, y, hx, hy, h⟩
    exact ⟨i, x, y, padNull_of_getElem? hx, padNull_of_getElem? hy, h⟩

/-- A bitwise operator meets a limit: on two strings where two characters combine to a number that
    is no code point, on other values where one of them cannot be read as a number. -/
def Value.BitwiseMeetsLimit (combine : Nat → Nat → Nat) : Value → Value → Prop
  | .str s, .str t => CombinesBeyond combine s.toList t.toList
  | left, right => left.IsUnreadable ∨ right.IsUnreadable

theorem Value.bitwiseMeetsLimit_of_not_str {left right : Value}
    (h : ∀ s t, left = .str s → right = .str t → False) :
    left.BitwiseMeetsLimit combine right ↔ left.IsUnreadable ∨ right.IsUnreadable := by
  unfold Value.BitwiseMeetsLimit
  split
  · exact (h _ _ rfl rfl).elim
  · exact Iff.rfl

/-- A bitwise operator meets a limit in the characters of two strings or in reading an operand as an
    integer. -/
theorem isLimited_applyBitwise (op : BinaryOperator) (onWords : BitVec 64 → BitVec 64 → BitVec 64)
    (pad : Bool) (left right : Value) (hzero : ∀ n, combine n 0 ≤ n ∧ combine 0 n ≤ n) :
    (applyBitwise op combine onWords pad left right).IsLimited ↔
      left.BitwiseMeetsLimit combine right := by
  unfold applyBitwise
  split
  · rw [Noted.isLimited_ofLimit, Value.BitwiseMeetsLimit, ← combinesBeyond_padNull hzero,
      ← combineChars_error_iff]
    exact exists_map_error_iff (fun chars => Value.str (String.ofList chars)) _
  · rename_i hother
    rw [Value.bitwiseMeetsLimit_of_not_str hother, ← isLimited_intPair op]
    exact Noted.isLimited_bind_iff (P := fun _ => True) (fun _ _ => trivial)
      fun _ _ => Noted.isLimited_pure _

end Characters

/-! ## All operators -/

section

variable {left right : Value}

/-- A binary operator applied to two values meets a limit of representation. -/
def BinaryOperator.MeetsLimit (op : BinaryOperator) (left right : Value) : Prop :=
  match op with
  | .plus | .minus | .mul | .div | .mod | .shiftLeft | .shiftRight =>
    left.IsUnreadable ∨ right.IsUnreadable
  | .pow => (left.IsUnreadable ∨ right.IsUnreadable) ∨ left.PowerOverflows right
  | .bitwiseAnd => left.BitwiseMeetsLimit (· &&& ·) right
  | .bitwiseOr => left.BitwiseMeetsLimit (· ||| ·) right
  | .bitwiseXor => left.BitwiseMeetsLimit (· ^^^ ·) right
  | .smaller | .smallerOrEqual | .spaceship | .equal | .notEqual => left.ComparisonMeetsLimit right
  | .greater | .greaterOrEqual => right.ComparisonMeetsLimit left
  | .concat | .identical | .notIdentical | .booleanAnd | .booleanOr | .logicalAnd | .logicalOr
  | .logicalXor | .coalesce => False

/-- A unary operator applied to a value meets a limit of representation. -/
def UnaryOperator.MeetsLimit (op : UnaryOperator) (operand : Value) : Prop :=
  match op with
  | .minus | .plus => operand.IsUnreadable
  | .not | .bitwiseNot => False

theorem isLimited_applyPlus (hleft : left.Fits) (hright : right.Fits) :
    (applyPlus left right).IsLimited ↔ left.IsUnreadable ∨ right.IsUnreadable := by
  unfold applyPlus
  split
  · refine iff_of_false (Noted.isLimited_pure _) ?_
    rintro (⟨_, _, ⟨⟩, -⟩ | ⟨_, _, ⟨⟩, -⟩)
  · refine isLimited_applyArithmetic _ _ hleft hright fun a b ha hb => ?_
    have ha := natAbs_le_of_fits ha
    have hb := natAbs_le_of_fits hb
    omega

theorem isLimited_compare {β : Type} (toValue : β → Value) (toResult : Option Ordering → β)
    {result : Except Limit β} (h : result = toResult <$> left.order right) :
    (Noted.ofLimit (toValue <$> result)).IsLimited ↔ left.ComparisonMeetsLimit right := by
  rw [Noted.isLimited_ofLimit, exists_map_error_iff, h, exists_map_error_iff]
  exact left.order_error_iff right

/-- Which operands make a binary operator meet a limit. -/
theorem BinaryOperator.isLimited_apply (op : BinaryOperator) (hleft : left.Fits)
    (hright : right.Fits) : (op.apply left right).IsLimited ↔ op.MeetsLimit left right := by
  cases op with
  | plus => exact isLimited_applyPlus hleft hright
  | minus =>
    refine isLimited_applyArithmetic _ _ hleft hright fun a b ha hb => ?_
    have ha := natAbs_le_of_fits ha
    have hb := natAbs_le_of_fits hb
    omega
  | mul =>
    refine isLimited_applyArithmetic _ _ hleft hright fun a b ha hb => ?_
    rw [Int.natAbs_mul]
    exact Nat.le_trans (Nat.mul_le_mul (natAbs_le_of_fits ha) (natAbs_le_of_fits hb)) (by decide)
  | div => exact isLimited_applyDiv hleft hright
  | mod => exact isLimited_applyMod
  | pow => exact isLimited_applyPow hleft hright
  | shiftLeft | shiftRight => exact isLimited_applyShift _ _
  | bitwiseAnd => exact isLimited_applyBitwise _ _ _ _ _ (by simp)
  | bitwiseOr => exact isLimited_applyBitwise _ _ _ _ _ (by simp)
  | bitwiseXor => exact isLimited_applyBitwise _ _ _ _ _ (by simp)
  | smaller | smallerOrEqual | greater | greaterOrEqual => exact isLimited_compare .bool _ rfl
  | spaceship => exact isLimited_compare (.int ∘ orderToInt) _ rfl
  | equal => exact isLimited_compare .bool _ (left.looseEq_eq_order right)
  | notEqual =>
    refine isLimited_compare .bool (fun found => !(found == some .eq)) ?_
    rw [left.looseEq_eq_order right]
    cases left.order right <;> rfl
  | identical | notIdentical | booleanAnd | booleanOr | logicalAnd | logicalOr | logicalXor =>
    exact iff_of_false (Noted.isLimited_pure _) id
  | concat =>
    refine iff_of_false ?_ id
    cases left <;> cases right <;> nofun
  | coalesce =>
    refine iff_of_false ?_ id
    cases left <;> exact Noted.isLimited_pure _

/-- Which operands make a unary operator meet a limit. -/
theorem UnaryOperator.isLimited_apply (op : UnaryOperator) {operand : Value}
    (h : operand.Fits) : (op.apply operand).IsLimited ↔ op.MeetsLimit operand := by
  cases op with
  | not => exact iff_of_false (Noted.isLimited_pure _) id
  | minus =>
    refine Iff.trans ?_ (isLimited_numericOperand .minus operand)
    exact Noted.isLimited_bind_iff (fits_numericOperand h .minus) fun x hx =>
      not_isLimited_ofNumber (exists_negateNumber hx)
  | plus =>
    refine Iff.trans ?_ (isLimited_numericOperand .plus operand)
    exact Noted.isLimited_bind_iff (fits_numericOperand h .plus) fun _ _ => Noted.isLimited_pure _
  | bitwiseNot =>
    refine iff_of_false ?_ id
    cases operand <;> nofun

end

/-! ## Powers of integers -/

/-- Powers of integers whose exponents are not negative. Below 64, a power within the range of
    floats is exact or the nearest float, and one beyond that range meets a limit. From 64 on,
    powers that fit are exact, and all others are floats. -/
structure PowersAreExact (a b : Int) : Prop where
  small : b < 64 → (a ^ b.toNat).natAbs < leastInfinite →
    ∃ value, BinaryOperator.pow.apply (.int a) (.int b) = pure value ∧ value.Denotes (a ^ b.toNat)
  limited : (BinaryOperator.pow.apply (.int a) (.int b)).result = .error (.limit .magnitude) ↔
    b < 64 ∧ leastInfinite ≤ (a ^ b.toNat).natAbs
  large : 64 ≤ b → FitsInt (a ^ b.toNat) →
    BinaryOperator.pow.apply (.int a) (.int b) = pure (.int (a ^ b.toNat))
  large_float : 64 ≤ b → ¬FitsInt (a ^ b.toNat) →
    ∃ f, BinaryOperator.pow.apply (.int a) (.int b) = pure (.float f)

section Powers

variable {a b : Int}

theorem pow_eq (a b : Int) :
    BinaryOperator.pow.apply (.int a) (.int b) = (do
      let result ← Noted.ofLimit (powerNumbers (.int a) (.int b))
      pure result.toValue) := rfl

/-- A base that grows has no power that fits from 64 on. -/
theorem not_fits_pow (hlarge : 64 ≤ b) (hgrows : ¬a.natAbs ≤ 1) : ¬FitsInt (a ^ b.toNat) := by
  intro hfits
  have hsize := natAbs_le_of_fits hfits
  have hpower : 2 ^ 64 ≤ (a ^ b.toNat).natAbs := by
    rw [Int.natAbs_pow]
    calc 2 ^ 64 ≤ 2 ^ b.toNat := Nat.pow_le_pow_right (by decide) (by omega)
      _ ≤ a.natAbs ^ b.toNat := Nat.pow_le_pow_left (by omega) _
  omega

/-- From 64 on, a power is an integer if it fits, and otherwise a float. -/
theorem pow_of_le (ha : FitsInt a) (hb : FitsInt b) (hlarge : 64 ≤ b) :
    FitsInt (a ^ b.toNat) ∧
        BinaryOperator.pow.apply (.int a) (.int b) = pure (.int (a ^ b.toNat)) ∨
      ¬FitsInt (a ^ b.toNat) ∧
        ∃ f, BinaryOperator.pow.apply (.int a) (.int b) = pure (.float f) := by
  rw [pow_eq]
  by_cases hrepeats : a.natAbs ≤ 1
  · have hfits : FitsInt (a ^ b.toNat) := by
      have hsize := natAbs_pow_le_one hrepeats b.toNat
      rw [fitsInt_iff]
      omega
    rw [powerNumbers_of_repeats hlarge hrepeats, Number.ofInt_of_fits hfits]
    exact Or.inl ⟨hfits, rfl⟩
  · obtain ⟨f, hf⟩ := powerNumbers_of_le ha hb hlarge hrepeats
    rw [hf]
    exact Or.inr ⟨not_fits_pow hlarge hrepeats, f, rfl⟩

/-- What `**` gives for integers that fit. -/
theorem powersAreExact (ha : FitsInt a) (hb : FitsInt b) (hnonneg : 0 ≤ b) :
    PowersAreExact a b := by
  by_cases hsmall : b < 64
  · have hpower := pow_eq a b
    rw [powerNumbers_of_lt hnonneg hsmall] at hpower
    refine ⟨fun _ hrange => hpower ▸ exists_denotes_ofInt hrange, ?_, by omega, by omega⟩
    rw [hpower]
    by_cases hrange : (a ^ b.toNat).natAbs < leastInfinite
    · obtain ⟨value, hvalue, -⟩ := exists_denotes_ofInt hrange
      rw [hvalue]
      exact iff_of_false nofun (by omega)
    · rw [Number.ofInt_eq_error_iff.mpr ⟨rfl, Nat.not_lt.mp hrange⟩]
      exact iff_of_true rfl (by omega)
  · have hlarge := pow_of_le ha hb (Int.not_lt.mp hsmall)
    refine ⟨fun h => absurd h hsmall, ?_, fun _ hfits => ?_, fun _ hfits => ?_⟩
    · rcases hlarge with ⟨-, h⟩ | ⟨-, f, h⟩
      · rw [h]
        exact iff_of_false nofun fun h => hsmall h.1
      · rw [h]
        exact iff_of_false nofun fun h => hsmall h.1
    · exact (hlarge.resolve_right fun h => h.1 hfits).2
    · exact (hlarge.resolve_left fun h => hfits h.1).2

end Powers

/-- For all values whose integers and integer keys fit, an operator gives a value or an error of the
    running program unless it meets a limit of representation. The power of two integers, the
    exponent not negative, is exact if it fits and a float if not, and meets a limit just where the
    exponent is below 64 and the power beyond the range of floats. -/
theorem operators_refuse_with_cause_iff {left right : Value} (hleft : left.Fits)
    (hright : right.Fits) :
    (∀ op : BinaryOperator, ((∃ value, (op.apply left right).result = .ok value) ∨
      ∃ cause, (op.apply left right).result = .error (.cause cause)) ↔ ¬op.MeetsLimit left right) ∧
    (∀ op : UnaryOperator, ((∃ value, (op.apply left).result = .ok value) ∨
      ∃ cause, (op.apply left).result = .error (.cause cause)) ↔ ¬op.MeetsLimit left) ∧
    ∀ a b, FitsInt a → FitsInt b → 0 ≤ b → PowersAreExact a b := by
  refine ⟨fun op => ?_, fun op => ?_, fun a b => powersAreExact⟩
  · rw [← Noted.not_isLimited_iff, op.isLimited_apply hleft hright]
  · rw [← Noted.not_isLimited_iff, op.isLimited_apply hleft]

/-- The text of seven can be negated; `3 ** 40` is a float, and `(-1) ** 65` is `-1`. -/
theorem operators_refuse_with_cause_iff_seven :
    (Value.str "7").Fits ∧ Value.null.Fits ∧
      ((∃ value, (UnaryOperator.minus.apply (.str "7")).result = .ok value) ∨
        ∃ cause, (UnaryOperator.minus.apply (.str "7")).result = .error (.cause cause)) ∧
      (∃ f, BinaryOperator.pow.apply (.int 3) (.int 40) = pure (.float f)) ∧
      BinaryOperator.pow.apply (.int (-1)) (.int 65) = pure (.int (-1)) := by
  have hseven : (Value.str "7").Fits := Value.fits_str "7"
  obtain ⟨-, hunary, hpower⟩ := operators_refuse_with_cause_iff hseven Value.fits_null
  have hreadable : ¬(Value.str "7").IsUnreadable := by
    rintro ⟨s, text, ⟨⟩, htext, -, -, hlarge⟩
    have hdigits : NumberText.leading? "7" = some ⟨false, [7], none, none⟩ := by decide +kernel
    cases hdigits.symm.trans htext
    rcases hlarge with hlong | hlarge
    · exact absurd hlong (by decide)
    · exact absurd hlarge (Nat.not_le.mpr (lt_leastInfinite_of_le (by decide)))
  have hsmall := hpower 3 40 (by decide) (by decide) (by decide)
  have hlarge := hpower (-1) 65 (by decide) (by decide) (by decide)
  refine ⟨hseven, Value.fits_null, (hunary .minus).mpr hreadable, ?_,
    hlarge.large (by decide) (by decide)⟩
  obtain ⟨value, hvalue, hdenotes⟩ := hsmall.small (by decide)
    (lt_leastInfinite_of_le (by decide))
  rw [Value.Denotes, if_neg (by decide)] at hdenotes
  obtain ⟨f, -, rfl⟩ := hdenotes
  exact ⟨f, hvalue⟩

/-- The greatest integer to the power of 63 is beyond the range of floats: the operator gives
    neither a value nor an error of the program, although both operands fit. -/
theorem pow_greatest_meets_limit :
    FitsInt 9223372036854775807 ∧ FitsInt 63 ∧
      (BinaryOperator.pow.apply (.int 9223372036854775807) (.int 63)).result =
        .error (.limit .magnitude) := by
  refine ⟨by decide, by decide, ?_⟩
  have hbeyond : leastInfinite ≤ ((9223372036854775807 : Int) ^ (63 : Int).toNat).natAbs := by
    decide +kernel
  rw [pow_eq, powerNumbers_of_lt (by decide) (by decide),
    Number.ofInt_eq_error_iff.mpr ⟨rfl, hbeyond⟩]
  rfl

end WebScript
