import Mathlib
import WebScript.Number

/-!
# The range of floats

Rounding a quotient of natural numbers to a float fails just where the quotient reaches
`2¹⁰²⁴ - 2⁹⁷⁰`, half way from the greatest float to the power of two after it. No quotient of two
integers of programs comes near that bound, and neither do their sums, differences and products.
-/

namespace WebScript

/-- The least number whose nearest float is infinite. -/
def leastInfinite : Nat := (2 ^ 54 - 1) * 2 ^ 970

theorem unitsPerOne_pos : 0 < unitsPerOne := by
  unfold unitsPerOne
  generalize unitBits = bits
  exact Nat.two_pow_pos bits

theorem unitsPerOne_eq : unitsPerOne = 2 ^ unitBits := by
  unfold unitsPerOne
  generalize unitBits = bits
  exact Nat.pow_eq

/-! ## Rounding to an integer -/

section Rounding

variable {num den : Nat}

/-- Rounding a quotient takes the integer below it or the next one. -/
theorem roundDiv_eq (num den : Nat) : roundDiv num den = num / den ∨
    roundDiv num den = num / den + 1 := by
  unfold roundDiv
  dsimp only
  split_ifs <;> simp

theorem le_roundDiv {bound : Nat} (hden : 0 < den) (h : bound * den ≤ num) :
    bound ≤ roundDiv num den := by
  have hquotient : bound ≤ num / den := (Nat.le_div_iff_mul_le hden).mpr h
  rcases roundDiv_eq num den with h | h <;> omega

theorem roundDiv_le {bound : Nat} (hden : 0 < den) (h : num < bound * den) :
    roundDiv num den ≤ bound := by
  have hquotient : num / den < bound := (Nat.div_lt_iff_lt_mul hden).mpr h
  rcases roundDiv_eq num den with h | h <;> omega

/-- Less than a half is rounded to zero. -/
theorem roundDiv_eq_zero (h : 2 * num < den) : roundDiv num den = 0 := by
  have hlt : num < den := by omega
  unfold roundDiv
  dsimp only
  rw [Nat.mod_eq_of_lt hlt, if_pos h, Nat.div_eq_of_lt hlt]

/-- Rounding goes past an odd number from the half after it on, since a half goes to the even
    neighbour. -/
theorem lt_roundDiv_iff_of_odd {m : Nat} (hden : 0 < den) (hodd : m % 2 = 1) :
    m < roundDiv num den ↔ (2 * m + 1) * den ≤ 2 * num := by
  have hsplit : den * (num / den) + num % den = num := Nat.div_add_mod num den
  have hrest : num % den < den := Nat.mod_lt num hden
  have hexpand : (2 * m + 1) * den = 2 * (den * m) + den := by ring
  rw [hexpand]
  rcases Nat.lt_trichotomy (num / den) m with hlt | heq | hgt
  · have hstep : den * (num / den + 1) ≤ den * m := Nat.mul_le_mul_left den hlt
    rw [Nat.mul_add, Nat.mul_one] at hstep
    refine iff_of_false ?_ (by omega)
    rcases roundDiv_eq num den with h | h <;> omega
  · rw [heq] at hsplit
    unfold roundDiv
    simp only [heq, hodd, Nat.one_ne_zero, if_false]
    split_ifs <;> omega
  · have hstep : den * (m + 1) ≤ den * (num / den) := Nat.mul_le_mul_left den hgt
    rw [Nat.mul_add, Nat.mul_one] at hstep
    refine iff_of_true ?_ (by omega)
    rcases roundDiv_eq num den with h | h <;> omega

end Rounding

/-! ## Rounding to a float -/

section Words

variable {num den : Nat}

/-- The word of a quotient with few bits is its rounding to units. -/
theorem nearestBits_of_lt (hden : 0 < den) (h : num * unitsPerOne < 2 ^ 53 * den) :
    nearestBits num den = roundDiv (num * unitsPerOne) den := by
  have hlog : (num * unitsPerOne / den).log2 - 52 = 0 := by
    by_cases hzero : num * unitsPerOne / den = 0
    · rw [hzero]
      rfl
    · have hlt := (Nat.log2_lt hzero).mpr ((Nat.div_lt_iff_lt_mul hden).mpr h)
      omega
  simp only [nearestBits, hlog, Nat.pow_eq, Nat.pow_zero, Nat.mul_one, Nat.zero_mul, Nat.zero_add]

/-- The word of a quotient with `k + 53` bits, in units: the exponent field is `k`, and then the
    mantissa is rounded to 53 bits. -/
theorem nearestBits_of_le {k : Nat} (hden : 0 < den)
    (hlow : 2 ^ (k + 52) * den ≤ num * unitsPerOne)
    (hhigh : num * unitsPerOne < 2 ^ (k + 53) * den) :
    nearestBits num den = k * fractionCount + roundDiv (num * unitsPerOne) (den * 2 ^ k) := by
  have hlow : 2 ^ (k + 52) ≤ num * unitsPerOne / den := (Nat.le_div_iff_mul_le hden).mpr hlow
  have hhigh : num * unitsPerOne / den < 2 ^ (k + 53) := (Nat.div_lt_iff_lt_mul hden).mpr hhigh
  have hne : num * unitsPerOne / den ≠ 0 :=
    Nat.ne_of_gt (Nat.lt_of_lt_of_le (Nat.two_pow_pos _) hlow)
  have hlog : (num * unitsPerOne / den).log2 - 52 = k := by
    have := (Nat.le_log2 hne).mpr hlow
    have := (Nat.log2_lt hne).mpr hhigh
    omega
  simp only [nearestBits, hlog, Nat.pow_eq]

/-- A quotient of at least `2⁵²` units has `k + 53` bits for some `k`. -/
theorem exists_bits (hden : 0 < den) (h : 2 ^ 52 * den ≤ num * unitsPerOne) :
    ∃ k, 2 ^ (k + 52) * den ≤ num * unitsPerOne ∧ num * unitsPerOne < 2 ^ (k + 53) * den := by
  have hquotient : 2 ^ 52 ≤ num * unitsPerOne / den := (Nat.le_div_iff_mul_le hden).mpr h
  have hne : num * unitsPerOne / den ≠ 0 := by omega
  obtain ⟨k, hk⟩ := Nat.exists_eq_add_of_le ((Nat.le_log2 hne).mpr hquotient)
  refine ⟨k, (Nat.le_div_iff_mul_le hden).mp ((Nat.le_log2 hne).mp ?_),
    (Nat.div_lt_iff_lt_mul hden).mp ((Nat.log2_lt hne).mp ?_)⟩ <;> omega

/-- Rounding a quotient to a float gives infinity from `leastInfinite` on. -/
theorem infinityBits_le_nearestBits_iff (num : Nat) (hden : 0 < den) :
    infinityBits ≤ nearestBits num den ↔ leastInfinite * den ≤ num := by
  have hcount : fractionCount = 2 ^ 52 := rfl
  have hinfinity : infinityBits = 2047 * 2 ^ 52 := rfl
  -- In units, the bound is `2⁵⁴ - 1` times `2²⁰⁴⁴`.
  generalize hscale : 2 ^ 2044 * den = scale
  have hbound : leastInfinite * den ≤ num ↔ (2 ^ 54 - 1) * scale ≤ num * unitsPerOne := by
    have hscaled : leastInfinite * den * unitsPerOne = (2 ^ 54 - 1) * scale := by
      rw [← hscale, unitsPerOne_eq, unitBits, leastInfinite]
      ring
    rw [← hscaled]
    exact (Nat.mul_le_mul_right_iff unitsPerOne_pos).symm
  have hle : den ≤ scale := by
    rw [← hscale]
    exact Nat.le_mul_of_pos_left den (Nat.two_pow_pos 2044)
  rw [hbound, hinfinity]
  rcases Nat.lt_or_ge (num * unitsPerOne) (2 ^ 52 * den) with hfew | hmany
  · have hmost := roundDiv_le hden hfew
    rw [nearestBits_of_lt hden (by omega)]
    omega
  obtain ⟨k, hlow, hhigh⟩ := exists_bits hden hmany
  have hstep : 0 < den * 2 ^ k := Nat.mul_pos hden (Nat.two_pow_pos k)
  have hleast : 2 ^ 52 ≤ roundDiv (num * unitsPerOne) (den * 2 ^ k) := by
    refine le_roundDiv hstep (Nat.le_trans (Nat.le_of_eq ?_) hlow)
    ring
  have hmost : roundDiv (num * unitsPerOne) (den * 2 ^ k) ≤ 2 ^ 53 := by
    refine roundDiv_le hstep (Nat.lt_of_lt_of_eq hhigh ?_)
    ring
  rw [nearestBits_of_le hden hlow hhigh, hcount]
  rcases Nat.lt_trichotomy k 2045 with hk | rfl | hk
  · have hpower : 2 ^ (k + 53) * den ≤ 2 ^ 53 * scale := by
      rw [← hscale, ← Nat.mul_assoc, ← Nat.pow_add]
      exact Nat.mul_le_mul_right den (Nat.pow_le_pow_right (by decide) (by omega))
    omega
  · -- The mantissas that round up to `2⁵³` decide.
    have hodd : 2 ^ 53 - 1 < roundDiv (num * unitsPerOne) (den * 2 ^ 2045) ↔
        (2 * (2 ^ 53 - 1) + 1) * (den * 2 ^ 2045) ≤ 2 * (num * unitsPerOne) :=
      lt_roundDiv_iff_of_odd hstep (by decide)
    have hdouble : den * 2 ^ 2045 = 2 * scale := by
      rw [← hscale, show 2045 = 2044 + 1 from rfl, Nat.pow_succ]
      ring
    rw [hdouble] at hodd hmost ⊢
    omega
  · have hpower : 2 ^ 54 * scale ≤ 2 ^ (k + 52) * den := by
      rw [← hscale, ← Nat.mul_assoc, ← Nat.pow_add]
      exact Nat.mul_le_mul_right den (Nat.pow_le_pow_right (by decide) (by omega))
    omega

/-- A quotient has no nearest float from the least one on that is rounded to infinity. -/
theorem nearestFloat?_eq_none_iff (negative : Bool) (num : Nat) (hden : 0 < den) :
    nearestFloat? negative num den = none ↔ leastInfinite * den ≤ num := by
  rw [← infinityBits_le_nearestBits_iff num hden]
  unfold nearestFloat?
  simp only [ite_eq_right_iff, reduceCtorEq, imp_false, Nat.not_lt]

/-- An integer has no nearest float if and only if it is beyond the range of floats. -/
theorem floatOfInt?_eq_none_iff (n : Int) :
    floatOfInt? n = none ↔ leastInfinite ≤ n.natAbs := by
  unfold floatOfInt?
  rw [nearestFloat?_eq_none_iff _ _ Nat.one_pos, Nat.mul_one]

theorem lt_leastInfinite_of_le {n : Nat} (h : n ≤ 2 ^ 128) : n < leastInfinite := by
  have hpower : 2 ^ 127 ≤ 2 ^ 970 := Nat.pow_le_pow_right (by decide) (by decide)
  calc n ≤ 2 ^ 128 := h
    _ < (2 ^ 54 - 1) * 2 ^ 127 := by decide
    _ ≤ leastInfinite := Nat.mul_le_mul_left (2 ^ 54 - 1) hpower

theorem exists_nearestFloat? (negative : Bool) (hden : 0 < den) (h : num ≤ 2 ^ 128) :
    ∃ f, nearestFloat? negative num den = some f := by
  rw [← Option.ne_none_iff_exists', Ne, nearestFloat?_eq_none_iff negative num hden, Nat.not_le]
  calc num < leastInfinite := lt_leastInfinite_of_le h
    _ ≤ leastInfinite * den := Nat.le_mul_of_pos_right leastInfinite hden

end Words

/-! ## Decimal numbers -/

section Decimals

variable {digits : Nat}

/-- A number has as many digits as it needs. -/
theorem lt_ten_pow_decimalLength (n : Nat) : n < 10 ^ decimalLength n := by
  have hpos : 0 < decimalLength n := Nat.length_toDigits_pos
  exact (Nat.length_toDigits_le_iff (by decide) hpos).mp (Nat.le_refl _)

theorem ten_pow_le_of_lt_decimalLength {k : Nat} (hdigits : digits ≠ 0)
    (hk : k < decimalLength digits) : 10 ^ k ≤ digits := by
  cases k with
  | zero => exact Nat.pos_of_ne_zero hdigits
  | succ k =>
    refine Nat.not_lt.mp fun hlt => Nat.not_le.mpr hk ?_
    exact (Nat.length_toDigits_le_iff (by decide) (Nat.succ_pos k)).mpr hlt

theorem two_pow_le_ten_pow : 2 ^ 1090 ≤ 10 ^ 330 := by
  have hpart : 2 ^ 109 ≤ 10 ^ 33 := by decide
  calc 2 ^ 1090 = (2 ^ 109) ^ 10 := by rw [← Nat.pow_mul]
    _ ≤ (10 ^ 33) ^ 10 := Nat.pow_le_pow_left hpart 10
    _ = 10 ^ 330 := by rw [← Nat.pow_mul]

theorem leastInfinite_le_ten_pow : leastInfinite ≤ 10 ^ 330 := by
  calc leastInfinite ≤ 2 ^ 54 * 2 ^ 970 := Nat.mul_le_mul_right _ (Nat.sub_le _ _)
    _ = 2 ^ 1024 := by rw [← Nat.pow_add]
    _ ≤ 2 ^ 1090 := Nat.pow_le_pow_right (by decide) (by decide)
    _ ≤ 10 ^ 330 := two_pow_le_ten_pow

/-- Less than half a unit is rounded to the float zero. -/
theorem nearestBits_eq_zero {num den : Nat} (h : 2 * (num * unitsPerOne) < den) :
    nearestBits num den = 0 := by
  have hden : 0 < den := by omega
  rw [nearestBits_of_lt hden (by omega), roundDiv_eq_zero h]

variable {exponent : Int}

theorem scaleTen_of_neg (h : exponent < 0) (digits : Nat) :
    scaleTen digits 1 exponent = (digits, 10 ^ exponent.natAbs) := by
  rw [scaleTen, if_pos h, Nat.one_mul, Nat.pow_eq]

theorem scaleTen_of_nonneg (h : ¬exponent < 0) (digits : Nat) :
    scaleTen digits 1 exponent = (digits * 10 ^ exponent.natAbs, 1) := by
  rw [scaleTen, if_neg h, Nat.pow_eq]

/-- A decimal number far below the least float is rounded to zero. -/
theorem nearestBits_of_small (h : decimalLength digits + exponent < -330) :
    nearestBits (scaleTen digits 1 exponent).1 (scaleTen digits 1 exponent).2 = 0 := by
  rw [scaleTen_of_neg (by omega) digits]
  refine nearestBits_eq_zero ?_
  have hunits : 2 * unitsPerOne ≤ 10 ^ 330 := by
    rw [unitsPerOne_eq, unitBits, ← Nat.pow_succ']
    exact Nat.le_trans (Nat.pow_le_pow_right (by decide) (by decide)) two_pow_le_ten_pow
  calc 2 * (digits * unitsPerOne) = digits * (2 * unitsPerOne) := by ring
    _ < 10 ^ decimalLength digits * 10 ^ 330 :=
      Nat.mul_lt_mul_of_lt_of_le (lt_ten_pow_decimalLength digits) hunits (Nat.pow_pos (by decide))
    _ = 10 ^ (decimalLength digits + 330) := (Nat.pow_add ..).symm
    _ ≤ 10 ^ exponent.natAbs := Nat.pow_le_pow_right (by decide) (by omega)

/-- A decimal number far beyond the greatest float is rounded to infinity. -/
theorem infinityBits_le_of_large (hdigits : digits ≠ 0)
    (h : 330 < decimalLength digits + exponent) :
    infinityBits ≤
      nearestBits (scaleTen digits 1 exponent).1 (scaleTen digits 1 exponent).2 := by
  by_cases hnegative : exponent < 0
  · rw [scaleTen_of_neg hnegative, infinityBits_le_nearestBits_iff _ (Nat.pow_pos (by decide))]
    calc leastInfinite * 10 ^ exponent.natAbs ≤ 10 ^ 330 * 10 ^ exponent.natAbs :=
          Nat.mul_le_mul_right _ leastInfinite_le_ten_pow
      _ = 10 ^ (330 + exponent.natAbs) := (Nat.pow_add ..).symm
      _ ≤ digits := ten_pow_le_of_lt_decimalLength hdigits (by omega)
  · rw [scaleTen_of_nonneg hnegative, infinityBits_le_nearestBits_iff _ Nat.one_pos, Nat.mul_one]
    have hlength : 0 < decimalLength digits := Nat.length_toDigits_pos
    calc leastInfinite ≤ 10 ^ 330 := leastInfinite_le_ten_pow
      _ ≤ 10 ^ (decimalLength digits - 1 + exponent.natAbs) :=
        Nat.pow_le_pow_right (by decide) (by omega)
      _ = 10 ^ (decimalLength digits - 1) * 10 ^ exponent.natAbs := Nat.pow_add ..
      _ ≤ digits * 10 ^ exponent.natAbs :=
        Nat.mul_le_mul_right _ (ten_pow_le_of_lt_decimalLength hdigits (by omega))

theorem nearestBits_of_zero (exponent : Int) :
    nearestBits (scaleTen 0 1 exponent).1 (scaleTen 0 1 exponent).2 = 0 := by
  by_cases h : exponent < 0
  · rw [scaleTen_of_neg h]
    exact nearestBits_eq_zero (by rw [Nat.zero_mul]; exact Nat.pow_pos (by decide))
  · rw [scaleTen_of_nonneg h, Nat.zero_mul]
    exact nearestBits_eq_zero (by rw [Nat.zero_mul]; exact Nat.one_pos)

/-- Magnitudes far outside the range of floats are no exception: the word of a decimal number is
    that of the float nearest to it, which may be infinite. -/
theorem nearestDecimalBits_eq (digits : Nat) (exponent : Int) :
    nearestDecimalBits digits exponent =
      min infinityBits (nearestBits (scaleTen digits 1 exponent).1
        (scaleTen digits 1 exponent).2) := by
  unfold nearestDecimalBits
  dsimp only
  by_cases hdigits : digits = 0
  · rw [if_pos hdigits, hdigits, nearestBits_of_zero, Nat.min_zero]
  by_cases hsmall : decimalLength digits + exponent < -330
  · rw [if_neg hdigits, if_pos hsmall, nearestBits_of_small hsmall, Nat.min_zero]
  by_cases hlarge : 330 < decimalLength digits + exponent
  · rw [if_neg hdigits, if_neg hsmall, if_pos hlarge,
      Nat.min_eq_left (infinityBits_le_of_large hdigits hlarge)]
  rw [if_neg hdigits, if_neg hsmall, if_neg hlarge]
  by_cases hnegative : exponent < 0
  · rw [if_pos hnegative, scaleTen_of_neg hnegative, Nat.pow_eq]
  · rw [if_neg hnegative, scaleTen_of_nonneg hnegative, Nat.pow_eq]

end Decimals

/-! ## Numbers -/

namespace Number

-- Stated for any rounding of integers and then used for a variable number, as `eq_float_or_rounded`
-- is: the checker must not be tempted to compute the words of floats.
theorem toFloat_cases (nearest : Int → Option Float) (number : Number) :
    (∃ n, number = .int n ∧
      (match number with
      | .int n =>
        match nearest n with
        | some f => .ok f
        | none => .error .magnitude
      | .float f => .ok f : Except Limit Float) = (nearest n).elim (.error .magnitude) .ok) ∨
    ∃ f, number = .float f := by
  cases number with
  | int n =>
    refine Or.inl ⟨n, rfl, ?_⟩
    dsimp only
    cases nearest n <;> rfl
  | float f => exact Or.inr ⟨f, rfl⟩

theorem toFloat_int (n : Int) :
    (Number.int n).toFloat = (floatOfInt? n).elim (.error .magnitude) .ok := by
  have hcases (number : Number) : (∃ n, number = .int n ∧
      number.toFloat = (floatOfInt? n).elim (.error .magnitude) .ok) ∨ ∃ f, number = .float f :=
    toFloat_cases floatOfInt? number
  rcases hcases (.int n) with ⟨m, hm, hfloat⟩ | ⟨f, hf⟩
  · cases hm
    exact hfloat
  · cases hf

theorem ofInt_of_fits {n : Int} (h : FitsInt n) : ofInt n = .ok (.int n) := if_pos h

theorem ofInt_of_not_fits {n : Int} (h : ¬FitsInt n) :
    ofInt n = (floatOfInt? n).elim (.error .magnitude) (fun f => .ok (.float f)) := by
  unfold ofInt
  rw [if_neg h, toFloat_int]
  generalize floatOfInt? n = nearest
  cases nearest <;> rfl

/-- An integer result is refused if and only if it is beyond the range of floats. -/
theorem ofInt_eq_error_iff {n : Int} {limit : Limit} :
    ofInt n = .error limit ↔ limit = .magnitude ∧ leastInfinite ≤ n.natAbs := by
  by_cases hfits : FitsInt n
  · rw [ofInt_of_fits hfits]
    have hbound : n.natAbs < leastInfinite := by
      simp only [FitsInt, intMin, intMax] at hfits
      exact lt_leastInfinite_of_le (by omega)
    exact iff_of_false nofun fun h => Nat.not_le.mpr hbound h.2
  · rw [ofInt_of_not_fits hfits, ← floatOfInt?_eq_none_iff]
    generalize floatOfInt? n = nearest
    cases nearest with
    | none => simp [eq_comm]
    | some f => simp

theorem exists_floatOfInt? {n : Int} (h : n.natAbs < leastInfinite) :
    ∃ f, floatOfInt? n = some f := by
  rw [← Option.ne_none_iff_exists', Ne, floatOfInt?_eq_none_iff, Nat.not_le]
  exact h

/-- An integer result within the range of floats is the integer or its nearest float. -/
theorem exists_ofInt {n : Int} (h : n.natAbs < leastInfinite) :
    ∃ number, ofInt n = .ok number ∧
      if FitsInt n then number = .int n else ∃ f, floatOfInt? n = some f ∧ number = .float f := by
  by_cases hfits : FitsInt n
  · exact ⟨.int n, ofInt_of_fits hfits, by rw [if_pos hfits]⟩
  · obtain ⟨f, hf⟩ := exists_floatOfInt? h
    refine ⟨.float f, ?_, ?_⟩
    · rw [ofInt_of_not_fits hfits, hf]
      rfl
    · rw [if_neg hfits]
      exact ⟨f, hf, rfl⟩

/-- Integers up to 2^128 stay within the floats. -/
theorem exists_ofInt_of_le {n : Int} (h : n.natAbs ≤ 2 ^ 128) :
    ∃ number, ofInt n = .ok number := by
  obtain ⟨number, hnumber, -⟩ := exists_ofInt (lt_leastInfinite_of_le h)
  exact ⟨number, hnumber⟩

end Number

end WebScript
