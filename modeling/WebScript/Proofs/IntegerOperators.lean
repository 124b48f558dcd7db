import WebScript.Proofs.FloatRange
import WebScript.Proofs.Integers

/-!
# Operators on integers

Integers of programs have 64 bits. Sums, differences, products and negatives are exact: the integer
if it fits, and otherwise the float nearest to it. Quotients are integers where they are whole and
fit. Remainders have the sign of the dividend. Bitwise operators and shifts work on the two's
complement of 64 bits. No operator makes an integer that does not fit.
-/

namespace WebScript

/-- A value is an exact integer result: the integer if it fits, else the float nearest to it. -/
def Value.Denotes (value : Value) (n : Int) : Prop :=
  if FitsInt n then value = .int n else ∃ f, floatOfInt? n = some f ∧ value = .float f

/-! ## Exact results -/

theorem natAbs_le_of_fits {n : Int} (h : FitsInt n) : n.natAbs ≤ 2 ^ 63 := by
  rw [fitsInt_iff] at h
  omega

/-- An integer result within the range of floats is made an exact value. -/
theorem exists_denotes_ofInt {n : Int} (h : n.natAbs < leastInfinite) :
    ∃ value, (do
      let result ← Noted.ofLimit (Number.ofInt n)
      pure result.toValue : Noted Value) = pure value ∧ value.Denotes n := by
  obtain ⟨number, hnumber, hexact⟩ := Number.exists_ofInt h
  refine ⟨number.toValue, by rw [hnumber]; rfl, ?_⟩
  unfold Value.Denotes
  split_ifs at hexact ⊢
  · rw [hexact]
    rfl
  · obtain ⟨f, hf, rfl⟩ := hexact
    exact ⟨f, hf, rfl⟩

/-- Sums, differences, products and negatives are exact. -/
structure ArithmeticIsExact (a b : Int) : Prop where
  plus : ∃ value, BinaryOperator.plus.apply (.int a) (.int b) = pure value ∧ value.Denotes (a + b)
  minus : ∃ value, BinaryOperator.minus.apply (.int a) (.int b) = pure value ∧ value.Denotes (a - b)
  mul : ∃ value, BinaryOperator.mul.apply (.int a) (.int b) = pure value ∧ value.Denotes (a * b)
  negative : ∃ value, UnaryOperator.minus.apply (.int a) = pure value ∧ value.Denotes (-a)

section Exact

variable {a b : Int}

theorem exists_denotes_applyArithmetic {onInts : Int → Int → Int} {op : BinaryOperator}
    {onFloats : Float → Float → Float} (h : (onInts a b).natAbs ≤ 2 ^ 128) :
    ∃ value, applyArithmetic op onInts onFloats (.int a) (.int b) = pure value ∧
      value.Denotes (onInts a b) :=
  exists_denotes_ofInt (lt_leastInfinite_of_le h)

/-- What sums, differences, products and signs give for integers that fit. -/
theorem arithmeticIsExact (ha : FitsInt a) (hb : FitsInt b) : ArithmeticIsExact a b := by
  have hasize := natAbs_le_of_fits ha
  have hbsize := natAbs_le_of_fits hb
  have hsum : (a + b).natAbs ≤ 2 ^ 128 := by omega
  have hdifference : (a - b).natAbs ≤ 2 ^ 128 := by omega
  have hnegative : (-a).natAbs ≤ 2 ^ 128 := by omega
  have hproduct : (a * b).natAbs ≤ 2 ^ 128 := by
    rw [Int.natAbs_mul]
    exact Nat.le_trans (Nat.mul_le_mul hasize hbsize) (by decide)
  exact {
    plus := exists_denotes_applyArithmetic hsum
    minus := exists_denotes_applyArithmetic hdifference
    mul := exists_denotes_applyArithmetic hproduct
    negative := exists_denotes_ofInt (lt_leastInfinite_of_le hnegative) }

end Exact

/-! ## Division -/

/-- Division by zero is refused. Other quotients are integers if they are whole and fit, and else
    floats. The remainder is smaller than the divisor and has the sign of the dividend. -/
structure DivisionIsExact (a b : Int) : Prop where
  div_zero : (BinaryOperator.div.apply (.int a) (.int b)).result =
    .error (.cause (.divisionByZero .div)) ↔ b = 0
  div_whole : ∀ q, BinaryOperator.div.apply (.int a) (.int b) = pure (.int q) ↔
    b ≠ 0 ∧ a = b * q ∧ FitsInt q
  div_float : b ≠ 0 → (∀ q, a = b * q → ¬FitsInt q) →
    ∃ f, BinaryOperator.div.apply (.int a) (.int b) = pure (.float f)
  mod_zero : (BinaryOperator.mod.apply (.int a) (.int b)).result =
    .error (.cause (.divisionByZero .mod)) ↔ b = 0
  mod : b ≠ 0 → ∃ q r, BinaryOperator.mod.apply (.int a) (.int b) = pure (.int r) ∧
    a = b * q + r ∧ |r| < |b| ∧ (r = 0 ∨ r.sign = a.sign)

section Division

variable {a b : Int}

theorem Noted.pure_inj {v w : Value} : (pure v : Noted Value) = pure w ↔ v = w :=
  ⟨fun h => Except.ok.inj (congrArg Noted.result h), congrArg pure⟩

theorem isZero_int (n : Int) : (Number.int n).isZero = decide (n = 0) := by
  have hunits : (unitsPerOne : Int) ≠ 0 := Int.natCast_ne_zero.mpr unitsPerOne_pos.ne'
  show (some (Extended.finite (n * (unitsPerOne : Int))) == some (Extended.finite 0)) = _
  generalize (unitsPerOne : Int) = units at hunits
  by_cases hn : n = 0 <;> simp [hn, hunits]

theorem div_eq (a b : Int) :
    BinaryOperator.div.apply (.int a) (.int b) =
      if b = 0 then Noted.refuse (.divisionByZero .div)
      else (do
        let result ← Noted.ofLimit (divideNumbers (.int a) (.int b))
        pure result.toValue) := by
  have hdiv : BinaryOperator.div.apply (.int a) (.int b) =
      if (Number.int b).isZero then Noted.refuse (.divisionByZero .div)
      else (do
        let result ← Noted.ofLimit (divideNumbers (.int a) (.int b))
        pure result.toValue) := rfl
  rw [hdiv, isZero_int]
  simp only [decide_eq_true_eq]

-- Stated for functions, and for any rounding of quotients first, for the reason given at
-- `Number.toFloat_cases`.
theorem divideInts_cases (nearest : Bool → Nat → Nat → Option Float) :
    (fun a b : Int =>
      (match nearest (decide (a < 0) != decide (b < 0)) a.natAbs b.natAbs with
      | some f => .ok f
      | none => .error .magnitude : Except Limit Float)) =
    fun a b => (nearest (decide (a < 0) != decide (b < 0)) a.natAbs b.natAbs).elim
      (.error .magnitude) .ok := by
  funext a b
  cases nearest (decide (a < 0) != decide (b < 0)) a.natAbs b.natAbs <;> rfl

theorem divideInts_eq :
    divideInts = fun a b => (nearestFloat? (decide (a < 0) != decide (b < 0)) a.natAbs
      b.natAbs).elim (.error .magnitude) .ok := divideInts_cases nearestFloat?

/-- A quotient that is whole is exact. -/
theorem exists_denotes_div (ha : FitsInt a) (hb : b ≠ 0) (hwhole : a % b = 0) :
    ∃ value, BinaryOperator.div.apply (.int a) (.int b) = pure value ∧
      value.Denotes (a / b) := by
  have hquotient : (a / b).natAbs ≤ 2 ^ 128 := by
    have habs := Int.natAbs_ediv_le_natAbs a b
    have ha := natAbs_le_of_fits ha
    omega
  rw [div_eq, if_neg hb]
  simp only [divideNumbers, if_pos hwhole]
  exact exists_denotes_ofInt (lt_leastInfinite_of_le hquotient)

/-- A quotient that is not whole is the float nearest to it. -/
theorem exists_float_div (ha : FitsInt a) (hb : b ≠ 0) (hwhole : a % b ≠ 0) :
    ∃ f, nearestFloat? (decide (a < 0) != decide (b < 0)) a.natAbs b.natAbs = some f ∧
      BinaryOperator.div.apply (.int a) (.int b) = pure (.float f) := by
  have hsize : a.natAbs ≤ 2 ^ 128 := Nat.le_trans (natAbs_le_of_fits ha) (by decide)
  obtain ⟨f, hf⟩ := exists_nearestFloat? (decide (a < 0) != decide (b < 0))
    (Int.natAbs_pos.mpr hb) hsize
  refine ⟨f, hf, ?_⟩
  rw [div_eq, if_neg hb]
  simp only [divideNumbers, if_neg hwhole, divideInts_eq, hf, Option.elim_some]
  rfl

theorem mod_eq (a b : Int) :
    BinaryOperator.mod.apply (.int a) (.int b) =
      if b = 0 then Noted.refuse (.divisionByZero .mod) else pure (.int (a.tmod b)) := rfl

/-- The remainder goes with a quotient that is rounded towards zero. -/
theorem tmod_bounds (a : Int) (hb : b ≠ 0) :
    a = b * a.tdiv b + a.tmod b ∧ |a.tmod b| < |b| ∧
      (a.tmod b = 0 ∨ (a.tmod b).sign = a.sign) := by
  refine ⟨(Int.mul_tdiv_add_tmod a b).symm, ?_, ?_⟩
  · rw [Int.abs_eq_natAbs, Int.abs_eq_natAbs, Int.natAbs_tmod, Int.ofNat_lt]
    exact Nat.mod_lt _ (Int.natAbs_pos.mpr hb)
  · have hsign := Int.sign_tmod a b
    split_ifs at hsign
    · exact Or.inl (Int.sign_eq_zero_iff_zero.mp hsign)
    · exact Or.inr hsign

/-- Two integers divide into an integer or a float. -/
theorem div_cases (ha : FitsInt a) (hb : b ≠ 0) :
    (∃ q, BinaryOperator.div.apply (.int a) (.int b) = pure (.int q) ∧ a = b * q ∧ FitsInt q) ∨
    (∃ f, BinaryOperator.div.apply (.int a) (.int b) = pure (.float f)) ∧
      ∀ q, a = b * q → ¬FitsInt q := by
  by_cases hwhole : a % b = 0
  · have hquotient : ∀ q, a = b * q → q = a / b := by
      rintro q rfl
      exact (Int.mul_ediv_cancel_left q hb).symm
    obtain ⟨value, hvalue, hdenotes⟩ := exists_denotes_div ha hb hwhole
    unfold Value.Denotes at hdenotes
    split_ifs at hdenotes with hfits
    · have hproduct : a = b * (a / b) := (Int.mul_ediv_cancel' (Int.dvd_of_emod_eq_zero hwhole)).symm
      exact Or.inl ⟨a / b, hdenotes ▸ hvalue, hproduct, hfits⟩
    · obtain ⟨f, -, rfl⟩ := hdenotes
      exact Or.inr ⟨⟨f, hvalue⟩, fun q hq => hquotient q hq ▸ hfits⟩
  · obtain ⟨f, -, hf⟩ := exists_float_div ha hb hwhole
    refine Or.inr ⟨⟨f, hf⟩, ?_⟩
    rintro q rfl
    exact absurd (Int.mul_emod_right b q) hwhole

/-- What quotients and remainders are of an integer that fits. -/
theorem divisionIsExact (ha : FitsInt a) : DivisionIsExact a b := by
  by_cases hb : b = 0
  · have hdiv := div_eq a b
    have hmod := mod_eq a b
    rw [if_pos hb] at hdiv hmod
    refine ⟨?_, fun q => ?_, fun h => absurd hb h, ?_, fun h => absurd hb h⟩
    · rw [hdiv]
      exact iff_of_true rfl hb
    · rw [hdiv]
      exact iff_of_false nofun fun h => h.1 hb
    · rw [hmod]
      exact iff_of_true rfl hb
  have hmod := mod_eq a b
  rw [if_neg hb] at hmod
  have hzero : (BinaryOperator.mod.apply (.int a) (.int b)).result =
      .error (.cause (.divisionByZero .mod)) ↔ b = 0 := by
    rw [hmod]
    exact iff_of_false nofun hb
  have hremainder : b ≠ 0 → ∃ q r, BinaryOperator.mod.apply (.int a) (.int b) = pure (.int r) ∧
      a = b * q + r ∧ |r| < |b| ∧ (r = 0 ∨ r.sign = a.sign) :=
    fun hb => ⟨a.tdiv b, a.tmod b, hmod, tmod_bounds a hb⟩
  rcases div_cases ha hb with ⟨q, hdiv, hproduct, hfits⟩ | ⟨⟨f, hdiv⟩, hnone⟩
  · refine ⟨?_, fun q' => ?_, fun _ h => absurd hfits (h q hproduct), hzero, hremainder⟩
    · rw [hdiv]
      exact iff_of_false nofun hb
    · rw [hdiv, Noted.pure_inj, Value.int.injEq]
      constructor
      · rintro rfl
        exact ⟨hb, hproduct, hfits⟩
      · rintro ⟨-, hproduct', -⟩
        exact Int.eq_of_mul_eq_mul_left hb (hproduct.symm.trans hproduct')
  · refine ⟨?_, fun q => ?_, fun _ _ => ⟨f, hdiv⟩, hzero, hremainder⟩
    · rw [hdiv]
      exact iff_of_false nofun hb
    · rw [hdiv, Noted.pure_inj]
      exact iff_of_false nofun fun h => hnone q h.2.1 h.2.2

end Division

/-! ## Shifts -/

/-- Shifts by negative counts are refused. Other shifts multiply by a power of two modulo `2⁶⁴`, or
    divide by one and round down. -/
structure ShiftsAreExact (a b : Int) : Prop where
  left_negative : (BinaryOperator.shiftLeft.apply (.int a) (.int b)).result =
    .error (.cause (.negativeShift .shiftLeft)) ↔ b < 0
  left : 0 ≤ b → ∃ n, BinaryOperator.shiftLeft.apply (.int a) (.int b) = pure (.int n) ∧
    FitsInt n ∧ n ≡ a * 2 ^ b.toNat [ZMOD 2 ^ 64]
  right_negative : (BinaryOperator.shiftRight.apply (.int a) (.int b)).result =
    .error (.cause (.negativeShift .shiftRight)) ↔ b < 0
  right : 0 ≤ b → BinaryOperator.shiftRight.apply (.int a) (.int b) =
    pure (.int ⌊(a : ℚ) / 2 ^ b.toNat⌋)

section Shifts

variable {a b : Int}

theorem shift_eq (op : BinaryOperator) (shift : Int → Nat → Int) (a b : Int) :
    applyShift op shift (.int a) (.int b) =
      if b < 0 then Noted.refuse (.negativeShift op) else pure (.int (shift a b.toNat)) := rfl

/-- Shifting to the left multiplies by a power of two, but for multiples of `2⁶⁴`. -/
theorem shiftWordLeft_modEq (a : Int) (count : Nat) :
    shiftWordLeft a count ≡ a * 2 ^ count [ZMOD 2 ^ 64] := by
  unfold shiftWordLeft
  split
  · rename_i hcount
    have hdvd : (2 ^ 64 : Int) ∣ a * 2 ^ count := (pow_dvd_pow 2 hcount).mul_left a
    exact ((Int.modEq_zero_iff_dvd.mpr hdvd)).symm
  · exact Int.bmod_emod

/-- Shifting to the right divides by a power of two and rounds down. -/
theorem shiftWordRight_eq (ha : FitsInt a) (count : Nat) :
    shiftWordRight a count = ⌊(a : ℚ) / 2 ^ count⌋ := by
  have hfloor : ⌊(a : ℚ) / 2 ^ count⌋ = a / 2 ^ count := by
    have hcast := Rat.floor_intCast_div_natCast a (2 ^ count)
    push_cast at hcast
    exact hcast
  rw [hfloor]
  unfold shiftWordRight
  split
  · rename_i hcount
    rw [fitsInt_iff] at ha
    have hpower : (2 : Int) ^ 64 ≤ 2 ^ count := pow_le_pow_right₀ (by decide) hcount
    split
    · rename_i hnonneg
      exact (Int.ediv_eq_zero_of_lt hnonneg (by omega)).symm
    · refine ((Int.ediv_eq_iff_of_pos (by omega)).mpr ⟨?_, ?_⟩).symm <;> omega
  · rfl

theorem negativeShift_iff (op : BinaryOperator) (shift : Int → Nat → Int) (a b : Int) :
    (applyShift op shift (.int a) (.int b)).result = .error (.cause (.negativeShift op)) ↔
      b < 0 := by
  rw [shift_eq]
  split_ifs with hb
  · exact iff_of_true rfl hb
  · exact iff_of_false nofun hb

theorem shift_of_nonneg (op : BinaryOperator) (shift : Int → Nat → Int) (a : Int) (hb : 0 ≤ b) :
    applyShift op shift (.int a) (.int b) = pure (.int (shift a b.toNat)) := by
  rw [shift_eq, if_neg (Int.not_lt.mpr hb)]

/-- What shifts give for integers that fit. -/
theorem shiftsAreExact (ha : FitsInt a) : ShiftsAreExact a b where
  left_negative := negativeShift_iff .shiftLeft shiftWordLeft a b
  left hb := ⟨shiftWordLeft a b.toNat, shift_of_nonneg .shiftLeft shiftWordLeft a hb,
    fitsInt_shiftWordLeft a b.toNat, shiftWordLeft_modEq a b.toNat⟩
  right_negative := negativeShift_iff .shiftRight shiftWordRight a b
  right hb := by
    rw [← shiftWordRight_eq ha]
    exact shift_of_nonneg .shiftRight shiftWordRight a hb

end Shifts

/-! ## Bits -/

/-- Bitwise operators work on each bit of the two's complement of 64 bits. -/
structure BitwiseIsExact (a b : Int) : Prop where
  and : ∃ n, BinaryOperator.bitwiseAnd.apply (.int a) (.int b) = pure (.int n) ∧ FitsInt n ∧
    ∀ i, n.testBit i = (a.testBit i && b.testBit i)
  or : ∃ n, BinaryOperator.bitwiseOr.apply (.int a) (.int b) = pure (.int n) ∧ FitsInt n ∧
    ∀ i, n.testBit i = (a.testBit i || b.testBit i)
  xor : ∃ n, BinaryOperator.bitwiseXor.apply (.int a) (.int b) = pure (.int n) ∧ FitsInt n ∧
    ∀ i, n.testBit i = (a.testBit i ^^ b.testBit i)
  not : ∃ n, UnaryOperator.bitwiseNot.apply (.int a) = pure (.int n) ∧ FitsInt n ∧
    ∀ i, n.testBit i = !a.testBit i

section Bits

variable {a b : Int}

/-- The bits of the two's complement of 64 bits; those from the last one on are the sign. -/
theorem testBit_toInt (word : BitVec 64) (i : Nat) :
    Int.testBit word.toInt i = word.getLsbD (min i 63) := by
  have hlast : word.getLsbD (min i 63) = if i < 64 then word.getLsbD i else word.msb := by
    split
    · rw [show min i 63 = i by omega]
    · rw [show min i 63 = 63 by omega]
      rfl
  rw [hlast, BitVec.toInt_eq_msb_cond]
  cases hmsb : word.msb with
  | false =>
    show word.toNat.testBit i = _
    rw [BitVec.testBit_toNat]
    split
    · rfl
    · exact BitVec.getLsbD_of_ge word i (by omega)
  | true =>
    have hnegative : (word.toNat : Int) - (2 ^ 64 : Nat) =
        Int.negSucc (2 ^ 64 - (word.toNat + 1)) := by
      have := word.isLt
      omega
    rw [if_pos rfl, hnegative]
    show (!(2 ^ 64 - (word.toNat + 1)).testBit i) = _
    rw [Nat.testBit_two_pow_sub_succ word.isLt, BitVec.testBit_toNat]
    by_cases hi : i < 64 <;> simp [hi]

/-- An integer that fits is the word of its low 64 bits. -/
theorem toInt_ofInt_of_fits (ha : FitsInt a) : (BitVec.ofInt 64 a).toInt = a := by
  rw [fitsInt_iff] at ha
  exact BitVec.toInt_ofInt_eq_self (by decide) (by omega) (by omega)

/-- Combining the words of two integers bit by bit combines the integers bit by bit. -/
theorem testBit_combined {onWords : BitVec 64 → BitVec 64 → BitVec 64}
    {onBits : Bool → Bool → Bool} (ha : FitsInt a) (hb : FitsInt b)
    (hbits : ∀ x y i, (onWords x y).getLsbD i = onBits (x.getLsbD i) (y.getLsbD i)) (i : Nat) :
    (onWords (BitVec.ofInt 64 a) (BitVec.ofInt 64 b)).toInt.testBit i =
      onBits (a.testBit i) (b.testBit i) := by
  rw [← toInt_ofInt_of_fits ha, ← toInt_ofInt_of_fits hb]
  simp only [testBit_toInt, BitVec.ofInt_toInt]
  exact hbits _ _ _

/-- The complement has the other bit in every place. -/
theorem testBit_complement (n : Int) (i : Nat) : (-n - 1).testBit i = !n.testBit i := by
  have hlnot : -n - 1 = Int.lnot n := by
    cases n with
    | ofNat n =>
      show -(n : Int) - 1 = Int.negSucc n
      omega
    | negSucc n =>
      show -(Int.negSucc n) - 1 = (n : Int)
      omega
  rw [hlnot, Int.testBit_lnot]

/-- What bitwise operators give for integers that fit. -/
theorem bitwiseIsExact (ha : FitsInt a) (hb : FitsInt b) : BitwiseIsExact a b where
  and := ⟨_, rfl, fitsInt_toInt _, testBit_combined ha hb fun _ _ _ => BitVec.getLsbD_and⟩
  or := ⟨_, rfl, fitsInt_toInt _, testBit_combined ha hb fun _ _ _ => BitVec.getLsbD_or⟩
  xor := ⟨_, rfl, fitsInt_toInt _, testBit_combined ha hb fun _ _ _ => BitVec.getLsbD_xor⟩
  not := ⟨-a - 1, rfl, fitsInt_complement ha, testBit_complement a⟩

end Bits

/-! ## All operators -/

/-- For all integers of 64 bits, arithmetic is exact, where a result that does not fit is the
    nearest float; quotients are integers if and only if they are whole and fit; remainders, shifts
    of any width and bitwise operators are exact. Operators of any kind, on any values whose
    integers and integer keys fit, give only such values. -/
theorem integer_operators_exact {a b : Int} (ha : FitsInt a) (hb : FitsInt b) :
    ArithmeticIsExact a b ∧ DivisionIsExact a b ∧ ShiftsAreExact a b ∧ BitwiseIsExact a b ∧
    (∀ (op : BinaryOperator) (left right value : Value), left.Fits → right.Fits →
      (op.apply left right).result = .ok value → value.Fits) ∧
    ∀ (op : UnaryOperator) (operand value : Value), operand.Fits →
      (op.apply operand).result = .ok value → value.Fits :=
  ⟨arithmeticIsExact ha hb, divisionIsExact ha, shiftsAreExact ha, bitwiseIsExact ha hb,
    fun _ _ _ value hleft hright h => BinaryOperator.fits_apply hleft hright value h,
    fun _ _ value h hresult => UnaryOperator.fits_apply h value hresult⟩

/-- The least integer divided by `-1` is a float, and its remainder is zero; shifted right by any
    count from 63 on, it is `-1`. -/
theorem integer_operators_exact_least :
    FitsInt (-9223372036854775808) ∧ FitsInt (-1) ∧ FitsInt 100 ∧
      (∃ f, floatOfInt? 9223372036854775808 = some f ∧
        UnaryOperator.minus.apply (.int (-9223372036854775808)) = pure (.float f)) ∧
      (∃ f, BinaryOperator.div.apply (.int (-9223372036854775808)) (.int (-1)) =
        pure (.float f)) ∧
      BinaryOperator.shiftRight.apply (.int (-9223372036854775808)) (.int 100) =
        pure (.int (-1)) := by
  have hleast : FitsInt (-9223372036854775808) := by decide
  have hone : FitsInt (-1) := by decide
  have hcount : FitsInt 100 := by decide
  obtain ⟨harithmetic, hdivision, -⟩ := integer_operators_exact hleast hone
  obtain ⟨-, -, hshifts, -⟩ := integer_operators_exact hleast hcount
  refine ⟨hleast, hone, hcount, ?_, ?_, ?_⟩
  · obtain ⟨value, hvalue, hdenotes⟩ := harithmetic.negative
    rw [Value.Denotes, if_neg (by decide)] at hdenotes
    obtain ⟨f, hf, rfl⟩ := hdenotes
    exact ⟨f, hf, hvalue⟩
  · refine hdivision.div_float (by decide) fun q hq => ?_
    have hq : q = 9223372036854775808 := by omega
    rw [hq]
    decide
  · have hfloor : ⌊((-9223372036854775808 : Int) : ℚ) / 2 ^ (100 : Int).toNat⌋ = -1 := by
      rw [show (100 : Int).toNat = 100 from rfl, Int.floor_eq_iff]
      norm_num
    rw [hshifts.right (by decide), hfloor]

end WebScript
