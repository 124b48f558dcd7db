import Mathlib
import WebScript.Proofs.IntegerOperators
import WebScript.Proofs.NestedWrites
import WebScript.Proofs.Spelling

/-!
# Texts as array keys

A string is an integer key if and only if it is the decimal form of an integer that fits, or that
form with one line end after it; every other string is a key of its own. So two different strings
are one key just where they are the two forms of one integer, and only then does writing an element
under one of them replace what was written under the other.
-/

namespace WebScript

/-! ## Decimal forms -/

/-- The characters of the decimal form of an integer. -/
theorem toList_toString (n : Int) :
    (toString n).toList =
      if n < 0 then '-' :: Nat.toDigits 10 n.natAbs else Nat.toDigits 10 n.natAbs := by
  rw [Int.toString_eq_repr, Int.repr_eq_if]
  by_cases hn : n < 0
  · rw [if_neg (by omega), if_pos hn, show (-n).toNat = n.natAbs by omega]
    simp [Nat.repr_eq_ofList_toDigits, String.toList_append]
  · rw [if_pos (by omega), if_neg hn, show n.toNat = n.natAbs by omega]
    simp [Nat.repr_eq_ofList_toDigits]

theorem isDigit_of_mem_toDigits {n : Nat} {c : Char} (h : c ∈ Nat.toDigits 10 n) : c.isDigit :=
  Nat.isDigit_of_mem_toDigits (by decide) (by decide) h

/-- A digit is the decimal form of its value, which is below ten. -/
theorem toDigits_of_isDigit {c : Char} (h : c.isDigit) :
    c.toNat - '0'.toNat < 10 ∧ Nat.toDigits 10 (c.toNat - '0'.toNat) = [c] := by
  obtain ⟨hmin, hmax⟩ := Char.isDigit_iff_toNat.mp h
  simp only [Char.reduceToNat] at hmin hmax ⊢
  have hlt : c.toNat - 48 < 10 := by omega
  refine ⟨hlt, ?_⟩
  rw [Nat.toDigits_of_lt_base hlt, List.cons.injEq]
  refine ⟨Char.toNat_inj.mp ?_, rfl⟩
  rw [Nat.toNat_digitChar_of_lt_ten hlt]
  omega

/-- Digits after those of a positive number are the digits of the number they extend it to. -/
theorem toDigits_append {n : Nat} (hn : 0 < n) {digits : List Char}
    (h : ∀ c ∈ digits, c.isDigit) :
    Nat.toDigits 10 n ++ digits = Nat.toDigits 10 (Nat.ofDigitChars 10 digits n) := by
  induction digits generalizing n with
  | nil => rw [List.append_nil, Nat.ofDigitChars_nil]
  | cons c rest ih =>
    obtain ⟨hlt, hdigit⟩ := toDigits_of_isDigit (h c List.mem_cons_self)
    rw [Nat.ofDigitChars_cons, ← ih (by omega) fun d hd => h d (List.mem_cons_of_mem c hd),
      ← Nat.toDigits_append_toDigits (by decide) hn hlt, hdigit, List.append_assoc]
    rfl

/-- A row of digits that does not start with zero is the decimal form of its number, which is
    positive. -/
theorem toDigits_ofDigitChars {first : Char} {rest : List Char} (hfirst : first ≠ '0')
    (h : ∀ c ∈ first :: rest, c.isDigit) :
    0 < Nat.ofDigitChars 10 (first :: rest) 0 ∧
      Nat.toDigits 10 (Nat.ofDigitChars 10 (first :: rest) 0) = first :: rest := by
  obtain ⟨hlt, hdigit⟩ := toDigits_of_isDigit (h first List.mem_cons_self)
  have hpos : 0 < first.toNat - '0'.toNat := by
    refine Nat.pos_of_ne_zero fun hzero => hfirst ?_
    rw [hzero, Nat.toDigits_zero] at hdigit
    exact (List.cons.inj hdigit).1.symm
  have happend := toDigits_append hpos fun c hc => h c (List.mem_cons_of_mem first hc)
  rw [hdigit, List.singleton_append] at happend
  rw [Nat.ofDigitChars_cons, Nat.mul_zero, Nat.zero_add]
  refine ⟨Nat.pos_of_ne_zero fun hzero => hfirst ?_, happend.symm⟩
  rw [hzero, Nat.toDigits_zero] at happend
  exact (List.cons.inj happend).1

theorem not_lineEnd_mem_toString (n : Int) : '\n' ∉ (toString n).toList := by
  have hdigits : '\n' ∉ Nat.toDigits 10 n.natAbs := fun h =>
    absurd (isDigit_of_mem_toDigits h) (by decide)
  rw [toList_toString]
  split
  · simp [hdigits]
  · exact hdigits

/-! ## Canonical texts -/

/-- A text without the line end at its end, if there is one. -/
def dropLineEnd (text : List Char) : List Char :=
  match text.reverse with
  | '\n' :: rest => rest.reverse
  | _ => text

/-- The sign and the digits of the decimal form of an integer. -/
def decimalParts? : List Char → Option (Bool × List Char)
  | ['0'] => some (false, ['0'])
  | '-' :: first :: rest =>
    if first ≠ '0' && (first :: rest).all Char.isDigit then some (true, first :: rest) else none
  | first :: rest =>
    if first ≠ '0' && (first :: rest).all Char.isDigit then some (false, first :: rest) else none
  | [] => none

theorem canonicalDigits?_eq (text : List Char) :
    canonicalDigits? text = decimalParts? (dropLineEnd text) := rfl

theorem dropLineEnd_concat (init : List Char) (c : Char) :
    dropLineEnd (init ++ [c]) = if c = '\n' then init else init ++ [c] := by
  unfold dropLineEnd
  rw [List.reverse_append, List.reverse_singleton, List.singleton_append]
  split
  · rename_i rest heq
    obtain ⟨rfl, rfl⟩ := List.cons.inj heq
    rw [List.reverse_reverse, if_pos rfl]
  · rename_i hother
    rw [if_neg]
    rintro rfl
    exact hother init.reverse rfl

theorem dropLineEnd_eq_iff {text body : List Char} (hbody : '\n' ∉ body) :
    dropLineEnd text = body ↔ text = body ∨ text = body ++ ['\n'] := by
  rcases List.eq_nil_or_concat' text with rfl | ⟨init, c, rfl⟩
  · show [] = body ↔ _
    simp
  · rw [dropLineEnd_concat, List.append_singleton_inj]
    split_ifs with hc
    · subst hc
      refine ⟨fun h => Or.inr ⟨h, rfl⟩, ?_⟩
      rintro (rfl | ⟨h, -⟩)
      · exact absurd (List.mem_append_right init List.mem_cons_self) hbody
      · exact h
    · exact ⟨Or.inl, fun h => h.resolve_right fun h => hc h.2⟩

section Parts

variable {first : Char} {rest : List Char}

theorem decimalParts?_of_digits (hfirst : first ≠ '0') (h : ∀ c ∈ first :: rest, c.isDigit) :
    decimalParts? (first :: rest) = some (false, first :: rest) ∧
      decimalParts? ('-' :: first :: rest) = some (true, first :: rest) := by
  have hcondition : (first ≠ '0' && (first :: rest).all Char.isDigit) = true := by
    simp only [Bool.and_eq_true, decide_eq_true_eq, List.all_eq_true]
    exact ⟨hfirst, h⟩
  constructor
  · unfold decimalParts?
    split
    · rename_i heq
      exact absurd (List.cons.inj heq).1 hfirst
    · rename_i heq
      have hsign := (List.cons.inj heq).1 ▸ h first List.mem_cons_self
      exact absurd hsign (by decide)
    · rename_i heq
      obtain ⟨rfl, rfl⟩ := List.cons.inj heq
      exact if_pos hcondition
    · rename_i heq
      cases heq
  · exact if_pos hcondition

/-- The parts are those of the decimal form of an integer. -/
theorem decimalParts?_eq_some_iff {body digits : List Char} {negative : Bool} :
    decimalParts? body = some (negative, digits) ↔
      ∃ n : Int, body = (toString n).toList ∧ negative = decide (n < 0) ∧
        digits = Nat.toDigits 10 n.natAbs := by
  constructor
  · have hdigits {first : Char} {rest : List Char}
        (h : (first ≠ '0' && (first :: rest).all Char.isDigit) = true) :
        ∃ k : Nat, 0 < k ∧ Nat.toDigits 10 k = first :: rest := by
      simp only [Bool.and_eq_true, decide_eq_true_eq, List.all_eq_true] at h
      exact ⟨_, toDigits_ofDigitChars h.1 h.2⟩
    unfold decimalParts?
    split
    · rintro ⟨⟩
      exact ⟨0, rfl, rfl, rfl⟩
    · split_ifs with h
      · rintro ⟨⟩
        obtain ⟨k, hpos, hk⟩ := hdigits h
        have hneg : -(k : Int) < 0 := by omega
        refine ⟨-k, ?_, (decide_eq_true hneg).symm, ?_⟩
        · rw [toList_toString, if_pos hneg, Int.natAbs_neg, Int.natAbs_natCast, hk]
        · rw [Int.natAbs_neg, Int.natAbs_natCast, hk]
      · nofun
    · split_ifs with h
      · rintro ⟨⟩
        obtain ⟨k, -, hk⟩ := hdigits h
        have hnonneg : ¬(k : Int) < 0 := by omega
        refine ⟨k, ?_, (decide_eq_false hnonneg).symm, ?_⟩
        · rw [toList_toString, if_neg hnonneg, Int.natAbs_natCast, hk]
        · rw [Int.natAbs_natCast, hk]
      · nofun
    · nofun
  · rintro ⟨n, rfl, rfl, rfl⟩
    by_cases hzero : n = 0
    · subst hzero
      rfl
    · have hhead := head?_toDigits_ne_zero (Int.natAbs_pos.mpr hzero)
      rw [toList_toString]
      cases hdigits : Nat.toDigits 10 n.natAbs with
      | nil => exact absurd hdigits Nat.toDigits_ne_nil
      | cons first rest =>
        rw [hdigits, List.head?_cons] at hhead
        have hfirst : first ≠ '0' := fun h => hhead (congrArg some h)
        have hall : ∀ c ∈ first :: rest, c.isDigit := fun c hc =>
          isDigit_of_mem_toDigits (hdigits ▸ hc)
        obtain ⟨hpositive, hnegative⟩ := decimalParts?_of_digits hfirst hall
        split
        · rename_i hn
          rw [hnegative, decide_eq_true hn]
        · rename_i hn
          rw [hpositive, decide_eq_false hn]

end Parts

/-! ## The key of a text -/

/-- A string is the decimal form of an integer, perhaps with one line end after it. -/
def IsDecimalText (s : String) (n : Int) : Prop := s = toString n ∨ s = toString n ++ "\n"

/-- Two strings are the two forms of one integer that fits: with and without a line end. -/
def LineEndTwins (s t : String) : Prop :=
  ∃ n : Int, FitsInt n ∧
    (s = toString n ∧ t = toString n ++ "\n" ∨ s = toString n ++ "\n" ∧ t = toString n)

theorem canonicalDigits?_eq_some_iff {s : String} {digits : List Char} {negative : Bool} :
    canonicalDigits? s.toList = some (negative, digits) ↔
      ∃ n : Int, IsDecimalText s n ∧ negative = decide (n < 0) ∧
        digits = Nat.toDigits 10 n.natAbs := by
  rw [canonicalDigits?_eq, decimalParts?_eq_some_iff]
  refine exists_congr fun n => and_congr_left fun _ => ?_
  rw [dropLineEnd_eq_iff (not_lineEnd_mem_toString n)]
  have hlineEnd : (toString n).toList ++ ['\n'] = (toString n ++ "\n").toList := by
    rw [String.toList_append]
    rfl
  rw [hlineEnd, String.toList_inj, String.toList_inj]
  exact Iff.rfl

theorem withSign_toDigits (n : Int) :
    withSign (decide (n < 0))
      (ofDigits 10 ((Nat.toDigits 10 n.natAbs).map fun c => c.toNat - '0'.toNat)) = n := by
  rw [ofDigits_eq_ofDigitChars, Nat.ofDigitChars_ten_toDigits]
  unfold withSign
  split
  · rename_i hn
    have hn : n < 0 := of_decide_eq_true hn
    omega
  · rename_i hn
    have hn : ¬n < 0 := fun h => hn (decide_eq_true h)
    omega

namespace Key

variable {s t : String} {n : Int}

/-- The key of the decimal form of an integer. -/
theorem ofString_of_decimal (h : IsDecimalText s n) :
    ofString s =
      if maxDecimalDigits < decimalLength n.natAbs then .error .digits
      else .ok (if FitsInt n then .int n else .str s) := by
  have hdigits := canonicalDigits?_eq_some_iff.mpr ⟨n, h, rfl, rfl⟩
  simp only [ofString, hdigits, withSign_toDigits]
  rfl

/-- All other strings are keys of their own. -/
theorem ofString_of_not_decimal (h : ∀ n, ¬IsDecimalText s n) : ofString s = .ok (.str s) := by
  have hnone : canonicalDigits? s.toList = none := by
    rw [Option.eq_none_iff_forall_ne_some]
    rintro ⟨negative, digits⟩ hsome
    obtain ⟨n, hn, -⟩ := canonicalDigits?_eq_some_iff.mp hsome
    exact h n hn
  simp only [ofString, hnone]

theorem decimalLength_le_of_fits (h : FitsInt n) : decimalLength n.natAbs ≤ maxDecimalDigits := by
  have hsize := natAbs_le_of_fits h
  have hlength : decimalLength n.natAbs ≤ 19 := by
    rw [decimalLength, Nat.length_toDigits_le_iff (by decide) (by decide)]
    omega
  exact Nat.le_trans hlength (by decide)

/-- A string is an integer key if and only if it is the decimal form of an integer that fits,
    perhaps with a line end after it. -/
theorem ofString_eq_int_iff : ofString s = .ok (.int n) ↔ FitsInt n ∧ IsDecimalText s n := by
  constructor
  · intro h
    by_cases hdecimal : ∃ m, IsDecimalText s m
    · obtain ⟨m, hm⟩ := hdecimal
      rw [ofString_of_decimal hm] at h
      split_ifs at h with hlong hfits
      · cases h
        exact ⟨hfits, hm⟩
      · cases h
    · rw [ofString_of_not_decimal fun m hm => hdecimal ⟨m, hm⟩] at h
      cases h
  · rintro ⟨hfits, hdecimal⟩
    rw [ofString_of_decimal hdecimal, if_neg (Nat.not_lt.mpr (decimalLength_le_of_fits hfits)),
      if_pos hfits]

/-- Two different strings are one key if and only if they are the forms of one integer that fits
    with and without a line end. -/
theorem ofString_eq_iff {key other : Key} (hs : ofString s = .ok key) (ht : ofString t = .ok other)
    (hne : s ≠ t) : key = other ↔ LineEndTwins s t := by
  constructor
  · rintro rfl
    cases key with
    | str u => exact absurd ((ofString_eq_str hs).symm.trans (ofString_eq_str ht)) hne
    | int n =>
      obtain ⟨hfits, hdecimal⟩ := ofString_eq_int_iff.mp hs
      obtain ⟨-, hother⟩ := ofString_eq_int_iff.mp ht
      refine ⟨n, hfits, ?_⟩
      rcases hdecimal with rfl | rfl
      · exact Or.inl ⟨rfl, hother.resolve_left hne.symm⟩
      · exact Or.inr ⟨rfl, hother.resolve_right hne.symm⟩
  · rintro ⟨n, hfits, hforms⟩
    have hdecimal : IsDecimalText s n := hforms.imp And.left And.left
    have hother : IsDecimalText t n := hforms.symm.imp And.right And.right
    rw [ofString_eq_int_iff.mpr ⟨hfits, hdecimal⟩] at hs
    rw [ofString_eq_int_iff.mpr ⟨hfits, hother⟩] at ht
    exact Except.ok.inj (hs.symm.trans ht)

end Key

/-! ## Writing under two keys -/

/-- What was written under one key is there after something is written under another one, if the
    keys are different, and replaced if they are the same. -/
theorem element_writePath_writePath {container : Option Value} {v w first second : Value}
    {dim : Value} {key other : Key} (hdim : dim.toKey = .ok key)
    (hfirst : writePath container v [some key] = .ok first)
    (hsecond : writePath (some first) w [some other] = .ok second) :
    second.element dim = .ok (if key = other then w else v) := by
  obtain ⟨table, -, hfirst⟩ := bind_eq_ok hfirst
  cases hfirst
  cases hsecond
  have hget : ((table.set key v).set other w).get? key = some (if key = other then w else v) := by
    split_ifs with hsame
    · subst hsame
      exact Table.get?_set_self _ key w
    · refine (Dict.get?_insert_of_ne hsame w _).trans ?_
      exact Table.get?_set_self table key v
  simp only [Value.element, hdim, bind, Except.bind, hget]
  rfl

/-- The key of a string is an integer if and only if the string is the decimal form of one that
    fits, or that form with one line end after it. Two different strings are different keys unless
    they are these two forms of one integer, and what was written under one of them is still there
    after something is written under the other, with the same exception. -/
theorem key_of_text_iff {s t : String} {key other : Key} (hs : Key.ofString s = .ok key)
    (ht : Key.ofString t = .ok other) (hne : s ≠ t) :
    (∀ n, key = .int n ↔ FitsInt n ∧ (s = toString n ∨ s = toString n ++ "\n")) ∧
    (key = other ↔ LineEndTwins s t) ∧
    ∀ container v w first second, writePath container v [some key] = .ok first →
      writePath (some first) w [some other] = .ok second →
      (¬LineEndTwins s t → second.element (.str s) = .ok v) ∧
      (LineEndTwins s t → second.element (.str s) = .ok w) := by
  have hsame := Key.ofString_eq_iff hs ht hne
  have hdim : (Value.str s).toKey = .ok key := by
    rw [Value.toKey, hs]
    rfl
  refine ⟨fun n => ?_, hsame, fun container v w first second hfirst hsecond => ?_⟩
  · have hint := Key.ofString_eq_int_iff (s := s) (n := n)
    rw [hs, Except.ok.injEq] at hint
    exact hint
  · have helement := element_writePath_writePath hdim hfirst hsecond
    refine ⟨fun h => ?_, fun h => ?_⟩
    · rw [helement, if_neg (hsame.not.mpr h)]
    · rw [helement, if_pos (hsame.mpr h)]

/-- The strings `"12"` and `"012"` are different keys: writing the second keeps the first. -/
theorem key_of_text_iff_leading_zero :
    Key.ofString "12" = .ok (.int 12) ∧ Key.ofString "012" = .ok (.str "012") ∧ "12" ≠ "012" ∧
      ¬LineEndTwins "12" "012" ∧
      (Value.array ⟨[(.int 12, .null), (.str "012", .bool true)], 13⟩).element (.str "12") =
        .ok .null := by
  have htwelve : Key.ofString "12" = .ok (.int 12) := by decide +kernel
  have hzero : Key.ofString "012" = .ok (.str "012") := by decide +kernel
  have hne : "12" ≠ "012" := by decide
  obtain ⟨-, hsame, hwrites⟩ := key_of_text_iff htwelve hzero hne
  have hnot : ¬LineEndTwins "12" "012" := hsame.not.mp nofun
  exact ⟨htwelve, hzero, hne, hnot,
    (hwrites (some .null) .null (.bool true) _ _ rfl rfl).1 hnot⟩

/-- The strings `"5"` and `"5"` with a line end are different, but the same key, so that writing
    under the second one replaces what was written under the first. -/
theorem line_end_overwrites :
    "5" ≠ "5\n" ∧ Key.ofString "5" = .ok (.int 5) ∧ Key.ofString "5\n" = .ok (.int 5) ∧
      ∃ first second, writePath none (.int 1) [some (.int 5)] = .ok first ∧
        writePath (some first) (.int 2) [some (.int 5)] = .ok second ∧
        second.element (.str "5") = .ok (.int 2) :=
  ⟨by decide, by decide +kernel, by decide +kernel, _, _, rfl, rfl, rfl⟩

end WebScript
