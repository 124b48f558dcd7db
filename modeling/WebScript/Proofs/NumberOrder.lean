import Mathlib
import WebScript.Number.Text
import WebScript.Proofs.ValueInvariant

/-!
# The order of numbers and of texts

Comparing two things the other way round gives the opposite order: for truth values, for texts and
for numbers that are not NaNs. No string denotes a NaN, because the float that is made of a word is
a NaN only if the word is one, and reading a number makes no word beyond that of infinity.
-/

namespace WebScript

/-! ## Floats made of words -/

section Words

open Float.Model UnpackedFloat

theorem toNat_unpackExponent (word : UInt64) :
    (@unpackExponent Format.binary64 word.toBitVec).toNat =
      word.toNat / fractionCount % 2048 := by
  rw [unpackExponent_def, BitVec.extractLsb'_toNat]
  simp [Nat.shiftRight_eq_div_pow, fractionCount]

theorem toNat_unpackMantissa (word : UInt64) :
    (@unpackMantissa Format.binary64 word.toBitVec).toNat =
      word.toNat % fractionCount := by
  rw [unpackMantissa_def, BitVec.extractLsb'_toNat]
  simp [fractionCount]

/-- The word of a form that is no NaN does not encode one. -/
theorem isNaNBits_eq_false {word : UInt64} (h : FloatForm.ofBits word.toNat ≠ .nan) :
    @isNaNBits Format.binary64 word.toBitVec = false := by
  unfold isNaNBits
  rw [decide_eq_false_iff_not]
  rintro ⟨hexponent, hmantissa⟩
  apply h
  have hfield : word.toNat / fractionCount % 2048 = 2047 := by
    rw [← toNat_unpackExponent, hexponent]
    rfl
  have hfraction : word.toNat % fractionCount ≠ 0 := by
    intro hzero
    apply hmantissa
    apply BitVec.eq_of_toNat_eq
    rw [toNat_unpackMantissa, hzero]
    rfl
  simp only [FloatForm.ofBits, if_pos hfield, if_neg hfraction]

/-- A float keeps the word that it was made of, unless that is one of the many NaNs. -/
theorem FloatForm.ofFloat_ofBits {word : UInt64} (h : FloatForm.ofBits word.toNat ≠ .nan) :
    FloatForm.ofFloat (Float.ofBits word) = .ofBits word.toNat := by
  have hbits : (Float.ofBits word).toBits = word := by
    apply UInt64.toBitVec_inj.mp
    show pack Format.binary64 (unpack Format.binary64 word.toBitVec) = word.toBitVec
    rw [pack_unpack, isNaNBits_eq_false h]
    rfl
  unfold FloatForm.ofFloat
  rw [hbits]

end Words

/-- Words up to that of infinity, with either sign, are no NaNs. -/
theorem FloatForm.ofBits_ne_nan {bits : Nat} (h : bits ≤ infinityBits) (negative : Bool) :
    FloatForm.ofBits (if negative then signBit + bits else bits) ≠ .nan := by
  have hcount : fractionCount = 4503599627370496 := rfl
  have hsign : signBit = 9223372036854775808 := rfl
  unfold infinityBits at h
  generalize hword : (if negative then signBit + bits else bits) = word
  have hword : word = signBit + bits ∨ word = bits := by
    cases negative with
    | true => exact Or.inl hword.symm
    | false => exact Or.inr hword.symm
  unfold FloatForm.ofBits
  simp only
  split
  · rename_i hfield
    have hfraction : word % fractionCount = 0 := by
      rw [hcount] at h hfield ⊢
      omega
    rw [if_pos hfraction]
    simp
  · split <;> simp

theorem ofFloat_floatOfBits_ne_nan {bits : Nat} (h : bits ≤ infinityBits) (negative : Bool) :
    FloatForm.ofFloat (floatOfBits negative bits) ≠ .nan := by
  have hword : (UInt64.ofNat (if negative then signBit + bits else bits)).toNat =
      if negative then signBit + bits else bits := by
    have hinfinity : infinityBits = 9218868437227405312 := rfl
    have hsign : signBit = 9223372036854775808 := rfl
    apply UInt64.toNat_ofNat_of_lt'
    show _ < 18446744073709551616
    cases negative <;> simp <;> omega
  have hform := FloatForm.ofBits_ne_nan h negative
  rw [← hword] at hform
  unfold floatOfBits
  rw [FloatForm.ofFloat_ofBits hform]
  exact hform

/-- A nearest float is made of a word no larger than that of infinity. -/
theorem nearestFloat?_eq_some {negative : Bool} {num den : Nat} {f : Float}
    (h : nearestFloat? negative num den = some f) :
    ∃ bits, bits ≤ infinityBits ∧ f = floatOfBits negative bits := by
  unfold nearestFloat? at h
  generalize nearestBits num den = bits at h
  simp only [Option.ite_none_right_eq_some, Option.some.injEq] at h
  exact ⟨bits, Nat.le_of_lt h.1, h.2.symm⟩

/-- The word of a decimal number is at most that of infinity. -/
theorem nearestDecimalBits_le (digits : Nat) (exponent : Int) :
    nearestDecimalBits digits exponent ≤ infinityBits := by
  unfold nearestDecimalBits
  simp only
  split
  · exact Nat.zero_le _
  · split
    · exact Nat.zero_le _
    · split
      · exact Nat.le_refl _
      · split <;> exact Nat.min_le_left _ _

/-! ## Numbers that are not NaNs -/

namespace Number

/-- A number has an exact value: it is not a NaN. -/
def IsOrdered (number : Number) : Prop := ∃ extent, number.extent = some extent

theorem isOrdered_int (n : Int) : (Number.int n).IsOrdered := ⟨_, rfl⟩

theorem isOrdered_float {f : Float} (h : FloatForm.ofFloat f ≠ .nan) :
    (Number.float f).IsOrdered := by
  show ∃ extent, (FloatForm.ofFloat f).extent = some extent
  cases hform : FloatForm.ofFloat f with
  | nan => exact absurd hform h
  | infinite negative => exact ⟨_, rfl⟩
  | finite negative mantissa exponent => exact ⟨_, rfl⟩

-- `toFloat` for any rounding of integers: the checker must not be tempted to compute the words of
-- floats while it compares the two matches of `toFloat`.
theorem eq_float_or_rounded (nearest : Int → Option Float) {number : Number} {f : Float}
    (h : (match number with
      | .int n =>
        match nearest n with
        | some f => .ok f
        | none => .error .magnitude
      | .float f => .ok f : Except Limit Float) = .ok f) :
    number = .float f ∨ ∃ n, nearest n = some f := by
  cases number with
  | int n =>
    dsimp only at h
    split at h
    · rename_i g found
      cases h
      exact Or.inr ⟨n, found⟩
    · cases h
  | float g =>
    cases h
    exact Or.inl rfl

/-- An integer that is rounded to a float does not become a NaN. -/
theorem IsOrdered.toFloat {number : Number} {f : Float} (hnumber : number.IsOrdered)
    (h : number.toFloat = .ok f) : (Number.float f).IsOrdered := by
  rcases eq_float_or_rounded floatOfInt? h with rfl | ⟨n, hrounded⟩
  · exact hnumber
  · unfold floatOfInt? at hrounded
    obtain ⟨bits, hbits, rfl⟩ := nearestFloat?_eq_some hrounded
    exact isOrdered_float (ofFloat_floatOfBits_ne_nan hbits _)

/-- A number made of an integer is no NaN, even where it is a float. -/
theorem isOrdered_ofInt {n : Int} {number : Number} (h : Number.ofInt n = .ok number) :
    number.IsOrdered := by
  unfold ofInt at h
  split at h
  · cases h
    exact isOrdered_int n
  · cases hfloat : (Number.int n).toFloat with
    | error limit =>
      rw [hfloat] at h
      cases h
    | ok f =>
      rw [hfloat] at h
      cases h
      exact (isOrdered_int n).toFloat hfloat

end Number

/-- No text denotes a NaN. -/
theorem NumberText.isOrdered_value {text : NumberText} {number : Number}
    (h : text.value = .ok number) : number.IsOrdered := by
  unfold NumberText.value at h
  split at h
  · split at h
    · cases h
    · exact Number.isOrdered_ofInt h
  · cases h
    exact Number.isOrdered_float (ofFloat_floatOfBits_ne_nan (nearestDecimalBits_le _ _) _)

/-- No string denotes a NaN. -/
theorem isOrdered_of_parseNumeric {text : String} {number : Number}
    (h : parseNumeric text = .ok (some number)) : number.IsOrdered := by
  unfold parseNumeric at h
  split at h
  · rename_i numeral _
    cases hvalue : numeral.value with
    | error limit =>
      rw [hvalue] at h
      cases h
    | ok value =>
      rw [hvalue] at h
      cases h
      exact NumberText.isOrdered_value hvalue
  · cases h

/-! ## Opposite orders -/

/-- Comparing the other way round gives the opposite order. -/
theorem Extended.order_swap (x y : Extended) : (x.order y).swap = y.order x := by
  cases x with
  | finite m =>
    cases y with
    | finite n => exact Int.compare_swap m n
    | _ => rfl
  | _ => cases y <;> rfl

theorem Extended.order_self (x : Extended) : x.order x = .eq := by
  cases x with
  | finite units => exact compare_eq_iff_eq.mpr rfl
  | _ => rfl

/-- Equal numbers are no NaNs. -/
theorem Number.isOrdered_of_order_eq {x y : Number} (h : x.order y = .eq) :
    x.IsOrdered ∧ y.IsOrdered := by
  unfold Number.order at h
  split at h
  · rename_i hx hy
    exact ⟨⟨_, hx⟩, ⟨_, hy⟩⟩
  · cases h

/-- Numbers that are no NaNs compare the other way round with the opposite result. -/
theorem Number.IsOrdered.order_swap {x y : Number} (hx : x.IsOrdered) (hy : y.IsOrdered) :
    y.order x = (x.order y).swap := by
  obtain ⟨e, hx⟩ := hx
  obtain ⟨g, hy⟩ := hy
  simp only [Number.order, hx, hy, Extended.order_swap]

theorem Number.IsOrdered.order_self {x : Number} (h : x.IsOrdered) : x.order x = .eq := by
  obtain ⟨e, hx⟩ := h
  simp only [Number.order, hx, Extended.order_self]

theorem orderBool_swap (a b : Bool) : orderBool b a = (orderBool a b).swap := by
  cases a <;> cases b <;> rfl

theorem orderText_self (s : String) : orderText s s = .eq := if_pos rfl

/-- Texts compare the other way round with the opposite result. -/
theorem orderText_swap (s t : String) : orderText t s = (orderText s t).swap := by
  unfold orderText
  rcases lt_trichotomy s t with h | rfl | h
  · rw [if_neg h.ne, if_pos h, if_neg h.ne', if_neg h.not_gt]
    rfl
  · rw [if_pos rfl]
    rfl
  · rw [if_neg h.ne', if_neg h.not_gt, if_neg h.ne, if_pos h]
    rfl

end WebScript
