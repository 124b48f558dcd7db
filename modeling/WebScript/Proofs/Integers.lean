import WebScript.Proofs.ArrayShape
import WebScript.Proofs.ParsedShape
import WebScript.Proofs.RunEndings

/-!
# Integers of 64 bits

Literals, operators and conversions only give integers that fit in 64 bits, and only such integers
become keys. The one exception is the counter of an array: once the greatest integer has been a key,
an appended element gets the key after it. So all integers of a run fit just if nothing is appended
to an array in that state.
-/

namespace WebScript

/-! ## Integers in values -/

/-- The value is an integer, or an array with that integer as a key or inside an element. -/
inductive Value.HasInt : Value → Int → Prop
  | self {n : Int} : Value.HasInt (.int n) n
  | key {table : Table Value} {n : Int} {value : Value} (hmem : (.int n, value) ∈ table.entries) :
    Value.HasInt (.array table) n
  | element {table : Table Value} {key : Key} {value : Value} {n : Int}
    (hmem : (key, value) ∈ table.entries) (h : Value.HasInt value n) :
    Value.HasInt (.array table) n

/-- All integers in a value fit. -/
def Value.Fits (value : Value) : Prop := ∀ n, value.HasInt n → FitsInt n

/-- An integer key fits. -/
def Key.Fits : Key → Prop
  | .int n => FitsInt n
  | .str _ => True

/-- A number that is an integer fits. -/
def Number.Fits : Number → Prop
  | .int n => FitsInt n
  | .float _ => True

namespace Value

theorem fits_int {n : Int} (h : FitsInt n) : (Value.int n).Fits := by
  intro m hm
  cases hm
  exact h

theorem fits_null : Value.null.Fits := nofun

theorem fits_bool (b : Bool) : (Value.bool b).Fits := nofun

theorem fits_str (s : String) : (Value.str s).Fits := nofun

theorem fits_float (f : Float) : (Value.float f).Fits := nofun

/-- The integers of an array are those of its keys and of its elements. -/
theorem fits_array {table : Table Value} :
    (Value.array table).Fits ↔ ∀ entry ∈ table.entries, entry.1.Fits ∧ entry.2.Fits := by
  constructor
  · rintro h ⟨key, value⟩ hmem
    refine ⟨?_, fun n hn => h n (.element hmem hn)⟩
    cases key with
    | int n => exact h n (.key hmem)
    | str s => trivial
  · intro h n hn
    cases hn with
    | key hmem => exact (h _ hmem).1
    | element hmem hn => exact (h _ hmem).2 n hn

theorem Fits.set {table : Table Value} (h : (Value.array table).Fits) {key : Key} (hkey : key.Fits)
    {value : Value} (hvalue : value.Fits) : (Value.array (table.set key value)).Fits := by
  rw [fits_array] at h ⊢
  intro entry hentry
  rcases Dict.mem_insert hentry with rfl | hentry
  · exact ⟨hkey, hvalue⟩
  · exact h entry hentry

theorem Fits.entry {table : Table Value} (h : (Value.array table).Fits) {key : Key} {value : Value}
    (hmem : (key, value) ∈ table.entries) : key.Fits ∧ value.Fits :=
  fits_array.mp h _ hmem

theorem Fits.union {left right : Table Value} (hleft : (Value.array left).Fits)
    (hright : (Value.array right).Fits) : (Value.array (left.union right)).Fits := by
  apply Table.union_induction (P := fun table => (Value.array table).Fits) hleft
  intro table key value hmem htable
  obtain ⟨hkey, hvalue⟩ := hright.entry hmem
  exact htable.set hkey hvalue

theorem fits_ofKey {key : Key} (h : key.Fits) : key.toValue.Fits := by
  cases key with
  | int n => exact fits_int h
  | str s => exact fits_str s

end Value

/-! ### Appended elements -/

theorem nextKey_nonneg (keys : List Key) : 0 ≤ nextKey keys := by
  unfold nextKey
  induction keys.filterMap Key.int? with
  | nil => exact Int.le_refl 0
  | cons n rest ih =>
    rw [List.foldr_cons]
    omega

/-- An element appended to an array has a key that fits if the counter of the array does. -/
theorem Value.Fits.append {table : Table Value} (h : (Value.array table).Fits)
    (hsound : table.Sound) (hnext : table.next ≤ intMax) {value : Value} (hvalue : value.Fits) :
    (Value.array (table.append value)).Fits := by
  have hnonneg := nextKey_nonneg (Dict.keys table.entries)
  have hkey : (Key.int table.next).Fits :=
    ⟨Int.le_trans (by decide) (hsound.next ▸ hnonneg), hnext⟩
  rw [Table.append_eq_set]
  exact h.set hkey hvalue

/-! ## Numbers -/

namespace Number

theorem fits_of_map_float {result : Except Limit Float} {number : Number}
    (h : Number.float <$> result = .ok number) : number.Fits := by
  cases result with
  | error limit => cases h
  | ok f =>
    cases h
    trivial

/-- An integer result that does not fit becomes a float. -/
theorem fits_ofInt {n : Int} {number : Number} (h : ofInt n = .ok number) : number.Fits := by
  unfold ofInt at h
  split at h
  · rename_i hfits
    cases h
    exact hfits
  · exact fits_of_map_float h

/-- A float that is cut to an integer is brought into range. -/
theorem fitsInt_truncateFloat (f : Float) : FitsInt (truncateFloat f) := by
  unfold truncateFloat
  split
  · split
    · assumption
    · decide
  · decide

theorem Fits.truncate {number : Number} (h : number.Fits) : FitsInt number.truncate := by
  cases number with
  | int n => exact h
  | float f => exact fitsInt_truncateFloat f

theorem Fits.toValue {number : Number} (h : number.Fits) : number.toValue.Fits := by
  cases number with
  | int n => exact Value.fits_int h
  | float f => exact Value.fits_float f

end Number

/-- No string denotes an integer that does not fit: such a one becomes a float. -/
theorem NumberText.fits_value {text : NumberText} {number : Number}
    (h : text.value = .ok number) : number.Fits := by
  unfold NumberText.value at h
  split at h
  · split at h
    · cases h
    · exact Number.fits_ofInt h
  · cases h
    trivial

/-! ### Arithmetic -/

/-- What is computed from the floats nearest to two numbers is a float. -/
theorem fits_of_floats {x y : Number} {onFloats : Float → Float → Float} {number : Number}
    (h : (do
      let f ← x.toFloat
      let g ← y.toFloat
      pure (.float (onFloats f g)) : Except Limit Number) = .ok number) : number.Fits := by
  obtain ⟨f, -, h⟩ := bind_eq_ok h
  obtain ⟨g, -, h⟩ := bind_eq_ok h
  cases h
  trivial

/-- Sums, differences and products of any numbers fit. -/
theorem fits_arithmetic {onInts : Int → Int → Int} {onFloats : Float → Float → Float}
    {x y number : Number} (h : arithmetic onInts onFloats x y = .ok number) : number.Fits := by
  unfold arithmetic at h
  split at h
  · exact Number.fits_ofInt h
  · exact fits_of_floats h

theorem fits_divideNumbers {x y number : Number} (h : divideNumbers x y = .ok number) :
    number.Fits := by
  unfold divideNumbers at h
  split at h
  · split at h
    · exact Number.fits_ofInt h
    · exact Number.fits_of_map_float h
  · exact fits_of_floats h

/-- Powers fit, whether they are computed exactly or as floats. -/
theorem fits_powerNumbers {x y number : Number} (h : powerNumbers x y = .ok number) :
    number.Fits := by
  unfold powerNumbers at h
  split at h
  · split at h
    · exact Number.fits_ofInt h
    · split at h
      · exact Number.fits_ofInt h
      · exact fits_of_floats h
  · exact fits_of_floats h

theorem fits_negateNumber {x number : Number} (h : negateNumber x = .ok number) : number.Fits := by
  cases x with
  | int n => exact Number.fits_ofInt h
  | float f =>
    cases h
    trivial

/-! ### Remainders, words and shifts -/

theorem fitsInt_iff {n : Int} :
    FitsInt n ↔ -9223372036854775808 ≤ n ∧ n ≤ 9223372036854775807 :=
  Iff.rfl

/-- A remainder is no larger than the dividend. -/
theorem fitsInt_tmod {a : Int} (h : FitsInt a) (b : Int) : FitsInt (a.tmod b) := by
  rw [fitsInt_iff] at h ⊢
  have habs : (a.tmod b).natAbs ≤ a.natAbs := by
    rw [Int.natAbs_tmod]
    exact Nat.mod_le _ _
  have hsign : a ≤ 0 → a.tmod b ≤ 0 := fun h => by
    have := Int.tmod_nonneg b (Int.neg_nonneg_of_nonpos h)
    rw [Int.neg_tmod] at this
    omega
  omega

theorem fitsInt_toInt (word : BitVec 64) : FitsInt word.toInt := by
  have hmin := word.le_toInt
  have hmax := word.toInt_lt
  rw [fitsInt_iff]
  omega

/-- A shift to the left leaves the low 64 bits, read with their sign. -/
theorem fitsInt_shiftWordLeft (a : Int) (count : Nat) : FitsInt (shiftWordLeft a count) := by
  unfold shiftWordLeft
  split
  · decide
  · have hmin := @Int.le_bmod (a * Int.pow 2 count) (Nat.pow 2 64) (by decide)
    have hmax := @Int.bmod_lt (a * Int.pow 2 count) (Nat.pow 2 64) (by decide)
    have hsize : Nat.pow 2 64 = 18446744073709551616 := rfl
    rw [fitsInt_iff]
    omega

theorem fitsInt_ediv {a d : Int} (h : FitsInt a) (hd : 1 ≤ d) : FitsInt (a / d) := by
  rw [fitsInt_iff] at h ⊢
  rcases Int.lt_or_le a 0 with ha | ha
  · have hneg : a / d < 0 := Int.ediv_neg_of_neg_of_pos ha (by omega)
    have hle : a ≤ a / d := by
      apply Int.le_ediv_of_mul_le (by omega)
      have := Int.mul_le_mul_of_nonpos_left (Int.le_of_lt ha) hd
      omega
    omega
  · have hle := Int.ediv_le_self d ha
    have hnonneg := Int.ediv_nonneg ha (show 0 ≤ d by omega)
    omega

/-- A shift to the right brings an integer closer to zero or to -1. -/
theorem fitsInt_shiftWordRight {a : Int} (h : FitsInt a) (count : Nat) :
    FitsInt (shiftWordRight a count) := by
  unfold shiftWordRight
  split
  · split <;> decide
  · exact fitsInt_ediv h (Int.pow_pos (by decide))

/-! ## Conversions -/

section

open Noted

/-- The number of a value that fits does, for the number of a string always does. -/
theorem Value.Fits.toNumber {value : Value} (h : value.Fits) :
    Gives (fun result => ∀ number, result = some number → number.Fits) value.toNumber := by
  have htext : ∀ text : NumberText,
      Gives (fun result => ∀ number, result = some number → number.Fits)
        (.ofLimit (some <$> text.value)) := by
    intro text
    refine Gives.ofLimit fun result hresult number hnumber => ?_
    subst hnumber
    cases hvalue : text.value with
    | error limit =>
      rw [hvalue] at hresult
      cases hresult
    | ok found =>
      rw [hvalue] at hresult
      cases hresult
      exact NumberText.fits_value hvalue
  unfold Value.toNumber
  split
  · refine Gives.ofValue ?_
    rintro number ⟨⟩
    exact h _ .self
  · refine Gives.ofValue ?_
    rintro number ⟨⟩
    trivial
  · refine Gives.ofValue ?_
    rintro number ⟨⟩
    show FitsInt 0
    decide
  · rename_i b
    refine Gives.ofValue ?_
    rintro number ⟨⟩
    show FitsInt (if b then 1 else 0)
    cases b <;> decide
  · split
    · exact htext _
    · split
      · exact Gives.andThen fun _ => htext _
      · exact Gives.ofValue nofun
  · exact Gives.ofValue nofun

/-- The integer of a value that fits does. -/
theorem Value.Fits.toInt {value : Value} (h : value.Fits) :
    Gives (fun result => ∀ n, result = some n → FitsInt n) value.toInt := by
  refine Gives.bind h.toNumber fun number hnumber => Gives.ofValue fun n hn => ?_
  obtain ⟨found, hfound, rfl⟩ := Option.map_eq_some_iff.mp hn
  exact (hnumber found hfound).truncate

theorem fits_intPair {left right : Value} (hleft : left.Fits) (hright : right.Fits)
    (op : BinaryOperator) :
    Gives (fun pair => FitsInt pair.1 ∧ FitsInt pair.2) (intPair op left right) := by
  refine Gives.bind hleft.toInt fun first hfirst => Gives.bind hright.toInt fun second hsecond => ?_
  split
  · exact Gives.ofValue ⟨hfirst _ rfl, hsecond _ rfl⟩
  · exact Gives.refuse _

/-- A string becomes an integer key only if the integer fits. -/
theorem Key.fits_ofString {s : String} {key : Key} (h : Key.ofString s = .ok key) : key.Fits := by
  unfold Key.ofString at h
  split at h
  · split at h
    · cases h
    · cases h
      split
      · assumption
      · trivial
  · cases h
    trivial

theorem Value.Fits.toKey {value : Value} (h : value.Fits) {key : Key}
    (hkey : value.toKey = .ok key) : key.Fits := by
  cases value with
  | null =>
    cases hkey
    trivial
  | bool b =>
    cases hkey
    show FitsInt (if b then 1 else 0)
    cases b <;> decide
  | int n =>
    cases hkey
    exact h n .self
  | float f =>
    cases hkey
    exact Number.fitsInt_truncateFloat f
  | str s =>
    cases hstring : Key.ofString s with
    | error limit => simp [Value.toKey, hstring, Except.mapError] at hkey
    | ok found =>
      have hsame : found = key := by simpa [Value.toKey, hstring, Except.mapError] using hkey
      exact hsame ▸ Key.fits_ofString hstring
  | array table => cases hkey

/-! ## Operators -/

/-- A number that is computed and then made a value. -/
theorem gives_ofNumber {result : Except Limit Number}
    (h : ∀ number, result = .ok number → number.Fits) :
    Gives Value.Fits (do
      let number ← Noted.ofLimit result
      pure number.toValue) :=
  Gives.bind (Gives.ofLimit h) fun _ hnumber => Gives.ofValue hnumber.toValue

theorem fits_applyArithmetic (op : BinaryOperator) (onInts : Int → Int → Int)
    (onFloats : Float → Float → Float) (left right : Value) :
    Gives Value.Fits (applyArithmetic op onInts onFloats left right) :=
  Gives.andThen fun _ => gives_ofNumber fun _ => fits_arithmetic

theorem fits_applyDiv (left right : Value) : Gives Value.Fits (applyDiv left right) := by
  refine Gives.andThen fun pair => ?_
  obtain ⟨x, y⟩ := pair
  dsimp only
  split
  · exact Gives.refuse _
  · exact gives_ofNumber fun _ => fits_divideNumbers

theorem fits_applyPow (left right : Value) : Gives Value.Fits (applyPow left right) :=
  Gives.andThen fun _ => gives_ofNumber fun _ => fits_powerNumbers

theorem fits_applyMod {left right : Value} (hleft : left.Fits) (hright : right.Fits) :
    Gives Value.Fits (applyMod left right) := by
  refine Gives.bind (fits_intPair hleft hright .mod) fun pair hpair => ?_
  obtain ⟨a, b⟩ := pair
  dsimp only
  split
  · exact Gives.refuse _
  · exact Gives.ofValue (Value.fits_int (fitsInt_tmod hpair.1 b))

theorem fits_applyShift {left right : Value} (hleft : left.Fits) (hright : right.Fits)
    (op : BinaryOperator) {shift : Int → Nat → Int}
    (hshift : ∀ a count, FitsInt a → FitsInt (shift a count)) :
    Gives Value.Fits (applyShift op shift left right) := by
  refine Gives.bind (fits_intPair hleft hright op) fun pair hpair => ?_
  obtain ⟨a, b⟩ := pair
  dsimp only
  split
  · exact Gives.refuse _
  · exact Gives.ofValue (Value.fits_int (hshift a b.toNat hpair.1))

theorem fits_applyBitwise (op : BinaryOperator) (onChars : Nat → Nat → Nat)
    (onWords : BitVec 64 → BitVec 64 → BitVec 64) (pad : Bool) (left right : Value) :
    Gives Value.Fits (applyBitwise op onChars onWords pad left right) := by
  unfold applyBitwise
  split
  · refine Gives.ofLimit fun value hvalue => ?_
    obtain ⟨chars, -, hvalue⟩ := bind_eq_ok hvalue
    cases hvalue
    exact Value.fits_str _
  · refine Gives.andThen fun pair => ?_
    obtain ⟨a, b⟩ := pair
    exact Gives.ofValue (Value.fits_int (fitsInt_toInt _))

/-- Every binary operator gives a value that fits from values that do. -/
theorem BinaryOperator.fits_apply {op : BinaryOperator} {left right : Value} (hleft : left.Fits)
    (hright : right.Fits) : Gives Value.Fits (op.apply left right) := by
  cases op with
  | concat => exact Gives.andThen fun _ => Gives.andThen fun _ => Gives.ofValue (Value.fits_str _)
  | smaller | smallerOrEqual | greater | greaterOrEqual | equal | notEqual =>
    exact Gives.ofLimitMap Value.fits_bool _
  | spaceship =>
    refine Gives.ofLimitMap (fun order => Value.fits_int ?_) _
    cases order <;> decide
  | identical | notIdentical | booleanAnd | logicalAnd | booleanOr | logicalOr | logicalXor =>
    exact Gives.ofValue (Value.fits_bool _)
  | plus =>
    show Gives Value.Fits (applyPlus left right)
    unfold applyPlus
    split
    · exact Gives.ofValue (hleft.union hright)
    · exact fits_applyArithmetic _ _ _ _ _
  | minus | mul => exact fits_applyArithmetic _ _ _ _ _
  | div => exact fits_applyDiv _ _
  | mod => exact fits_applyMod hleft hright
  | pow => exact fits_applyPow _ _
  | bitwiseAnd | bitwiseOr | bitwiseXor => exact fits_applyBitwise _ _ _ _ _ _
  | coalesce =>
    cases left with
    | null => exact Gives.ofValue hright
    | _ => exact Gives.ofValue hleft
  | shiftLeft =>
    exact fits_applyShift hleft hright _ fun a count _ => fitsInt_shiftWordLeft a count
  | shiftRight =>
    exact fits_applyShift hleft hright _ fun a count ha => fitsInt_shiftWordRight ha count

theorem fitsInt_complement {n : Int} (h : FitsInt n) : FitsInt (-n - 1) := by
  rw [fitsInt_iff] at h ⊢
  omega

theorem fits_numericOperand {operand : Value} (h : operand.Fits) (op : UnaryOperator) :
    Gives Number.Fits (numericOperand op operand) := by
  refine Gives.bind h.toNumber fun result hresult => ?_
  split
  · exact Gives.ofValue (hresult _ rfl)
  · exact Gives.refuse _

/-- Every unary operator gives a value that fits from one that does. -/
theorem UnaryOperator.fits_apply {op : UnaryOperator} {operand : Value} (h : operand.Fits) :
    Gives Value.Fits (op.apply operand) := by
  cases op with
  | not => exact Gives.ofValue (Value.fits_bool _)
  | minus => exact Gives.andThen fun _ => gives_ofNumber fun _ => fits_negateNumber
  | plus => exact Gives.bind (fits_numericOperand h .plus) fun _ hx => Gives.ofValue hx.toValue
  | bitwiseNot =>
    cases operand with
    | int n => exact Gives.ofValue (Value.fits_int (fitsInt_complement (h n .self)))
    | float f =>
      exact Gives.ofValue (Value.fits_int (fitsInt_complement (Number.fitsInt_truncateFloat f)))
    | str s => exact Gives.ofValue (Value.fits_str _)
    | _ => exact Gives.refuse _

end

/-- All operations on values whose keys are given keep integers small enough. -/
def ValueClosure.fits : ValueClosure where
  value := Value.Fits
  key := Key.Fits
  null := Value.fits_null
  bool := Value.fits_bool
  str := Value.fits_str
  float := Value.fits_float
  one := Value.fits_int (by decide)
  binary hleft hright h := BinaryOperator.fits_apply hleft hright _ h
  unary hoperand h := UnaryOperator.fits_apply hoperand _ h
  toKey hv h := hv.toKey h
  ofKey := Value.fits_ofKey
  empty := Value.fits_array.mpr fun entry hentry => by cases hentry
  set h hk hv := h.set hk hv
  entry h hmem := h.entry hmem

/-! ## Appending past the end -/

/-- An element is about to be appended to an array whose counter is greater than any integer: in a
    literal, or where a variable is written along a path. -/
inductive Moment.AppendsPastEnd (config : Config) : Moment → Prop
  | item {depth : Nat} {table : Table Value} {line : Option Int} {node : Node}
    {rest : List (ArrayItem Node)} {machine after : Machine} {value : Value}
    (hnext : intMax < table.next)
    (hrun : node.evalAt config depth .strict machine = .ok value after) :
    AppendsPastEnd config ⟨depth, .items table (⟨line, node, none⟩ :: rest), machine⟩
  | element {depth : Nat} {name : String} {keys : List (Option Key)} {value : Value}
    {machine : Machine} {table : Table Value} (hname : name ≠ reservedName)
    (htable : appendedTable? (machine.scope.get? name) keys = some table)
    (hnext : intMax < table.next) : AppendsPastEnd config ⟨depth, .write name keys value, machine⟩

theorem Value.hasInt_append (table : Table Value) (value : Value) :
    (Value.array (table.append value)).HasInt table.next :=
  .key (Dict.mem_of_get? (Dict.get?_insert_self (.int table.next) value table.entries))

theorem Value.HasInt.set {value : Value} {n : Int} (h : value.HasInt n) (table : Table Value)
    (key : Key) : (Value.array (table.set key value)).HasInt n :=
  .element (Dict.mem_of_get? (Dict.get?_insert_self key value table.entries)) h

/-- Writing a new element along a path succeeds. -/
theorem exists_writePath_none (value : Value) (keys : List (Option Key)) :
    ∃ written, writePath none value keys = .ok written := by
  induction keys with
  | nil => exact ⟨value, rfl⟩
  | cons key rest ih =>
    obtain ⟨inner, hinner⟩ := ih
    cases key with
    | none => exact ⟨.array (Table.empty.append inner), by simp only [writePath, hinner]; rfl⟩
    | some key => exact ⟨.array (Table.empty.set key inner), by
        have hget : (Table.empty : Table Value).get? key = none := rfl
        simp only [writePath, tableToWrite, bind, Except.bind, hget, hinner]
        rfl⟩

/-- Where a path appends to a table, the counter of the table becomes a key. -/
theorem exists_writePath {container : Option Value} {keys : List (Option Key)} {table : Table Value}
    (h : appendedTable? container keys = some table) (value : Value) :
    ∃ written, writePath container value keys = .ok written ∧ written.HasInt table.next := by
  induction keys generalizing container with
  | nil => cases h
  | cons key rest ih =>
    unfold appendedTable? at h
    split at h
    · cases h
    · rename_i outer houter
      cases key with
      | none =>
        cases h
        obtain ⟨inner, hinner⟩ := exists_writePath_none value rest
        refine ⟨.array (table.append inner), ?_, Value.hasInt_append table inner⟩
        simp only [writePath, houter, hinner, bind, Except.bind]
        rfl
      | some key =>
        obtain ⟨inner, hinner, hint⟩ := ih h
        refine ⟨.array (outer.set key inner), ?_, hint.set outer key⟩
        simp only [writePath, houter, hinner, bind, Except.bind]
        rfl

/-! ## Runs -/

section

variable {config : Config} {start moment : Moment}

/-- Appending past the end gives a key that does not fit. -/
theorem Moment.AppendsPastEnd.exists_hasInt (h : moment.AppendsPastEnd config) :
    ∃ later, moment.Leads config later ∧ ∃ value ∈ later.values config, ∃ n,
      value.HasInt n ∧ ¬ FitsInt n := by
  cases h with
  | @item depth table line node rest machine after value hnext hrun =>
    refine ⟨_, .single (.itemAppended hrun), .array (table.append value), ?_, table.next,
      Value.hasInt_append table value, fun hfits => absurd hfits.2 (Int.not_le.mpr hnext)⟩
    exact List.mem_append_left _ (List.mem_append_right _ List.mem_cons_self)
  | @element depth name keys value machine table hname htable hnext =>
    obtain ⟨written, hwritten, hint⟩ := exists_writePath htable value
    have hrun : (Activity.write name keys value).run config depth machine =
        .ok [] (machine.withVariable name written) := by
      simp only [Activity.run]
      rw [Eval.bind_of_ok _ (Simulation.writeElement_of_written hname hwritten)]
      rfl
    refine ⟨_, .refl, written, ?_, table.next, hint,
      fun hfits => absurd hfits.2 (Int.not_le.mpr hnext)⟩
    unfold Moment.values
    rw [hrun]
    refine List.mem_append_right _ (List.mem_append_right _ ?_)
    exact List.mem_map.mpr ⟨_, Dict.mem_of_get? (Dict.get?_insert_self _ _ _), rfl⟩

/-- In a run that never appends past the end of an array, arrays are sound and integers fit. -/
def RunInvariant.integers (config : Config) (start : Moment)
    (hliteral : ∀ {depth : Nat} {reading : Reading} {line : Option Int} {n : Int} {m : Machine},
      start.Leads config ⟨depth, .eval reading ⟨line, .int n⟩, m⟩ → FitsInt n)
    (hroom : ∀ moment, start.Leads config moment → ¬ moment.AppendsPastEnd config) :
    RunInvariant config where
  toValueClosure := ValueInvariant.sound.toValueClosure.and .fits
  reached := start.Leads config
  machine m := ∀ v ∈ m.values, v.Sound ∧ v.Fits
  exit exit := ∀ v, exit = .returned v → v.Sound ∧ v.Fits
  reached_starts h _ hstarts := h.tail hstarts
  int h := ⟨Value.IsScalar.sound trivial, Value.fits_int (hliteral h)⟩
  append h hrun htable hv := by
    have hnext := Int.not_lt.mp fun hnext => hroom _ h (.item hnext hrun)
    exact ⟨htable.1.append hv.1, htable.2.append (htable.1 _ .self) hnext hv.2⟩
  write {_ _ keys _ _ m} h hname hcontainer hkeys hv hwritten := by
    refine ValueClosure.writePath hcontainer hv hkeys (fun v hv => ?_)
      (fun table v happended htable hv => ?_) hwritten
    · have hempty := (ValueInvariant.sound.toValueClosure.and ValueClosure.fits).empty
      exact ⟨hempty.1.append hv.1, hempty.2.append (hempty.1 _ .self) (by decide) hv.2⟩
    · have hnext := Int.not_lt.mp fun hnext => hroom _ h (.element hname happended hnext)
      exact ⟨htable.1.append hv.1, htable.2.append (htable.1 _ .self) hnext hv.2⟩
  read h hv := h _ (List.mem_map.mpr ⟨_, Dict.mem_of_get? hv, rfl⟩)
  report h _ := h
  output _ h := h
  bind _ _ h _ hv w hw := by
    rcases Machine.mem_values_withVariable hw with rfl | hw
    · exact hv
    · exact h w hw
  define _ h := h
  enter _ v hv := by cases hv
  leave hcaller _ := hcaller
  leaveOpen _ _ h := h
  load _ h _ := h
  error _ _ := nofun
  limit _ := nofun
  source _ := nofun
  ret _ hv w hw := by
    cases hw
    exact hv
  returned h := h _ rfl

/-- A program starts with literals that fit and with sound values. -/
theorem Moment.admitted_ofProgram {source : String} {nodes : List Node}
    (h : parse source = .ok nodes) (config : Config) (library : Library) :
    (Moment.ofProgram config library nodes).Admitted
      (ValueInvariant.sound.along Node.LiteralsFit) Node.LiteralsFit := by
  obtain ⟨listing, hlisting⟩ := (Machine.start (some library)).writeListing_eq config nodes
  refine ⟨?_, literalsFit_of_parse h⟩
  simp only [Moment.ofProgram, hlisting]
  refine ⟨.refl _, ⟨fun v hv => ?_, fun name function hfunction => ?_, ?_⟩⟩
  · cases hv
  · cases hfunction
  · exact fun files _ path contents _ nodes hnodes => literalsFit_of_parse hnodes

/-- The integer literals that a run of an accepted program comes to all fit. -/
theorem fitsInt_of_leads {source : String} {nodes : List Node} (h : parse source = .ok nodes)
    {library : Library} {depth : Nat} {reading : Reading} {line : Option Int} {n : Int}
    {m : Machine} (hleads : (Moment.ofProgram config library nodes).Leads config
      ⟨depth, .eval reading ⟨line, .int n⟩, m⟩) : FitsInt n := by
  have hadmits : (ValueInvariant.sound.along Node.LiteralsFit).Admits Node.LiteralsFit :=
    ValueInvariant.alongside_admits (fun hwhole => hwhole.child)
      fun _ => Value.IsScalar.sound trivial
  have hadmitted := (Moment.admitted_ofProgram h config library).leads hadmits
    ValueInvariant.alongside_nests (fun _ hexcused => hexcused) hleads
  have hliteral : Node.LiteralsFit ⟨line, .int n⟩ := hadmitted.2
  exact of_decide_eq_true (hliteral _ (.refl _))

end

/-- In the run of an accepted program, with any files and under any configuration, all integers that
    there are at any moment fit in 64 bits (the values of variables and all results on the way, and
    the keys of arrays, at any depth) if and only if no element is ever appended to an array that
    has the greatest integer as a key. -/
theorem integers_fit_iff {source : String} {nodes : List Node} (h : parse source = .ok nodes)
    (config : Config) (library : Library) :
    (∀ moment, (Moment.ofProgram config library nodes).Leads config moment →
      ∀ value ∈ moment.values config, ∀ n, value.HasInt n → FitsInt n) ↔
    ∀ moment, (Moment.ofProgram config library nodes).Leads config moment →
      ¬ moment.AppendsPastEnd config := by
  constructor
  · intro hfits moment hleads happends
    obtain ⟨later, hlater, value, hvalue, n, hint, hn⟩ := happends.exists_hasInt
    exact hn (hfits later (hleads.trans hlater) value hvalue n hint)
  · intro hroom moment hleads value hvalue
    have hstart : (RunInvariant.integers config _ (fitsInt_of_leads h) hroom).Sound
        (Moment.ofProgram config library nodes) := by
      refine ⟨.refl, fun v hv => ?_, trivial⟩
      obtain ⟨listing, hlisting⟩ := (Machine.start (some library)).writeListing_eq config nodes
      simp only [Moment.ofProgram, hlisting] at hv
      cases hv
    exact ((hstart.leads hleads).moment_values (fun _ hm => hm) value hvalue).2

/-- The element that is appended in `return [9223372036854775806 => 1, 2];` gets the greatest
    integer as its key. -/
theorem integers_fit_iff_last :
    let key : Node := ⟨some 1, .int 9223372036854775806⟩
    let literal : Node := ⟨some 1, .arrayLiteral
      [⟨some 1, ⟨some 1, .int 1⟩, some key⟩, ⟨some 1, ⟨some 1, .int 2⟩, none⟩]⟩
    let nodes : List Node := [⟨some 1, .ret (some literal)⟩]
    parse "return [9223372036854775806 => 1, 2];" = .ok nodes ∧
      ∀ moment, (Moment.ofProgram {} (.ofFiles [] []) nodes).Leads {} moment →
        ∀ value ∈ moment.values {}, ∀ n, value.HasInt n → FitsInt n := by
  intro key literal nodes
  have htokens : tokens (expandTags "return [9223372036854775806 => 1, 2];".toList) =
      [⟨.keyword .ret, "return", 1, 1⟩, ⟨.openBracket, "[", 1, 8⟩,
        ⟨.int "9223372036854775806".toList, "9223372036854775806", 1, 9⟩, ⟨.arrow, "=>", 1, 29⟩,
        ⟨.int ['1'], "1", 1, 32⟩, ⟨.comma, ",", 1, 33⟩, ⟨.int ['2'], "2", 1, 35⟩,
        ⟨.closeBracket, "]", 1, 36⟩, ⟨.semicolon, ";", 1, 37⟩] := by
    decide +kernel
  have hparse : parse "return [9223372036854775806 => 1, 2];" = .ok nodes := by
    rw [parse, htokens]
    cbv
  let machine : Machine := Machine.start (some (.ofFiles [] []))
  let before : Table Value := ⟨[(.int 9223372036854775806, .int 1)], 9223372036854775807⟩
  have hint : ∀ {depth reading line n m value after},
      Node.evalAt {} depth reading ⟨line, .int n⟩ m = .ok value after →
        value = .int n ∧ after = m := by
    intro depth reading line n m value after h
    cases h
    exact ⟨rfl, rfl⟩
  refine ⟨hparse, (integers_fit_iff hparse {} (.ofFiles [] [])).mpr fun moment hleads => ?_⟩
  -- The moments of the run, apart from those that evaluate integers.
  have hmoment : moment = ⟨maxNesting, .statements nodes, machine⟩ ∨
      moment = ⟨3332, .eval .strict ⟨some 1, .ret (some literal)⟩, machine⟩ ∨
      moment = ⟨3332, .eval .strict literal, machine⟩ ∨
      moment = ⟨3332, .items .empty
        [⟨some 1, ⟨some 1, .int 1⟩, some key⟩, ⟨some 1, ⟨some 1, .int 2⟩, none⟩], machine⟩ ∨
      moment = ⟨3332, .items before [⟨some 1, ⟨some 1, .int 2⟩, none⟩], machine⟩ ∨
      (∃ table, moment = ⟨3332, .items table [], machine⟩) ∨
      ∃ n, moment = ⟨3332, .eval .strict ⟨some 1, .int n⟩, machine⟩ := by
    induction hleads with
    | refl => exact Or.inl rfl
    | @tail earlier later _ hstarts ih =>
      rcases ih with rfl | rfl | rfl | rfl | rfl | ⟨table, rfl⟩ | ⟨n, rfl⟩
      · simp only [nodes] at hstarts
        cases hstarts with
        | statementsHead => simp
        | statementsTail hnode => cases hnode
      · cases hstarts
        simp
      · simp only [literal] at hstarts
        cases hstarts
        simp
      · cases hstarts with
        | itemValue => simp
        | itemKey hvalue =>
          obtain ⟨rfl, rfl⟩ := hint hvalue
          simp [key]
        | itemSet hvalue hkey htoKey =>
          obtain ⟨rfl, rfl⟩ := hint hvalue
          obtain ⟨rfl, rfl⟩ := hint hkey
          cases htoKey
          exact Or.inr (Or.inr (Or.inr (Or.inr (Or.inl rfl))))
      · cases hstarts with
        | itemValue => simp
        | itemAppended hvalue =>
          obtain ⟨rfl, rfl⟩ := hint hvalue
          simp
      · cases hstarts
      · cases hstarts
  intro happends
  rcases hmoment with rfl | rfl | rfl | rfl | rfl | ⟨table, rfl⟩ | ⟨n, rfl⟩
  case inr.inr.inr.inr.inl =>
    cases happends with
    | item hnext => exact absurd hnext (by decide)
  all_goals cases happends

/-- After `$a = [9223372036854775807 => 1]; $a[] = 2;` there is a key that does not fit. -/
theorem integers_fit_fails_past_end :
    let a : Node := ⟨some 1, .variable "a"⟩
    let literal : Node := ⟨some 1, .arrayLiteral
      [⟨some 1, ⟨some 1, .int 1⟩, some ⟨some 1, .int 9223372036854775807⟩⟩]⟩
    let nodes : List Node := [⟨some 1, .assign a literal⟩,
      ⟨some 1, .assign ⟨some 1, .index a none⟩ ⟨some 1, .int 2⟩⟩]
    parse "$a = [9223372036854775807 => 1]; $a[] = 2;" = .ok nodes ∧
      ∃ moment, (Moment.ofProgram {} (.ofFiles [] []) nodes).Leads {} moment ∧
        ∃ value ∈ moment.values {}, value.HasInt 9223372036854775808 ∧
          ¬ FitsInt 9223372036854775808 := by
  intro a literal nodes
  have htokens : tokens (expandTags "$a = [9223372036854775807 => 1]; $a[] = 2;".toList) =
      [⟨.variable "a", "$a", 1, 1⟩, ⟨.equals, "=", 1, 4⟩, ⟨.openBracket, "[", 1, 6⟩,
        ⟨.int "9223372036854775807".toList, "9223372036854775807", 1, 7⟩, ⟨.arrow, "=>", 1, 27⟩,
        ⟨.int ['1'], "1", 1, 30⟩, ⟨.closeBracket, "]", 1, 31⟩, ⟨.semicolon, ";", 1, 32⟩,
        ⟨.variable "a", "$a", 1, 34⟩, ⟨.openBracket, "[", 1, 36⟩, ⟨.closeBracket, "]", 1, 37⟩,
        ⟨.equals, "=", 1, 39⟩, ⟨.int ['2'], "2", 1, 41⟩, ⟨.semicolon, ";", 1, 42⟩] := by
    decide +kernel
  have hparse : parse "$a = [9223372036854775807 => 1]; $a[] = 2;" = .ok nodes := by
    rw [parse, htokens]
    cbv
  let before : Table Value := ⟨[(.int 9223372036854775807, .int 1)], 9223372036854775808⟩
  let table : Table Value := before.append (.int 2)
  let machine (value : Value) : Machine :=
    ⟨⟨[("a", value)], 0⟩, .empty, some (.ofFiles [] []), "", [], 0⟩
  have hassign : evalWithin {} maxNesting ⟨some 1, .assign a literal⟩
      (Machine.start (some (.ofFiles [] []))) = .ok (.array before) (machine (.array before)) := by
    cbv
  have happend : evalWithin {} maxNesting
      ⟨some 1, .assign ⟨some 1, .index a none⟩ ⟨some 1, .int 2⟩⟩ (machine (.array before)) =
        .ok (.int 2) (machine (.array table)) := by
    cbv
  refine ⟨hparse, ⟨maxNesting, .statements [], machine (.array table)⟩, ?_, .array table, ?_,
    Value.hasInt_append before (.int 2), by decide⟩
  · exact .tail (.single (.statementsTail hassign)) (.statementsTail happend)
  · exact List.mem_append_left _ (List.mem_append_left _ List.mem_cons_self)

end WebScript
