import WebScript.Proofs.Concatenation
import WebScript.Proofs.KeyTexts

/-!
# Integer literals

An integer literal is written in one of five notations: decimal digits without a zero before
further digits, a zero and octal digits, or a zero, the letter of a base and digits of the base.
Single underscores may stand between digits. In every notation it denotes the number of its digits.
What the scanner takes for an integer and is in none of the notations has a digit eight or nine
after a zero.
-/

namespace WebScript

/-! ## Digits -/

section HexDigits

variable {c : Char} {value : Nat}

theorem hexValue?_of_isDigit (h : c.isDigit) : hexValue? c = some (c.toNat - '0'.toNat) := by
  have hrange : ('0' ≤ c && c ≤ '9') = true := by
    simpa [Char.isDigit, Char.le_def] using h
  rw [hexValue?, if_pos hrange]

theorem isDigit_of_hexValue?_lt (h : hexValue? c = some value) (hten : value < 10) :
    c.isDigit := by
  unfold hexValue? at h
  split_ifs at h with hdigit hlower hupper
  · simpa [Char.isDigit, Char.le_def] using hdigit
  · cases h
    omega
  · cases h
    omega

theorem isNameStart_of_hexValue? (h : hexValue? c = some value) (hdigit : ¬c.isDigit) :
    isNameStart c := by
  have hname := isNamePart_of_hexValue? (Option.isSome_of_eq_some h)
  exact (isNamePart_iff.mp hname).resolve_right hdigit

theorem anyDigitValue?_of_hexValue? (h : hexValue? c = some value) :
    anyDigitValue? c = some value := by
  unfold anyDigitValue?
  by_cases hdigit : c.isDigit
  · rw [digitValue?_of_isDigit hdigit, ← hexValue?_of_isDigit hdigit, h]
    rfl
  · have hnone := isDecimalDigit_of_isNameStart (isNameStart_of_hexValue? h hdigit)
    rw [isDecimalDigit, Option.isSome_eq_false_iff, Option.isNone_iff_eq_none] at hnone
    rw [hnone, h]
    rfl

/-- Digits of all bases are worth less than sixteen. -/
theorem hexValue?_lt (h : hexValue? c = some value) : value < 16 := by
  unfold hexValue? at h
  split_ifs at h with hdigit hlower hupper <;> cases h
  · have hmax : c.toNat ≤ 57 := (by simpa using hdigit : '0' ≤ c ∧ c ≤ '9').2
    exact Nat.lt_of_le_of_lt (Nat.sub_le_sub_right hmax _) (by decide)
  · have hmax : c.toNat ≤ 102 := (by simpa using hlower : 'a' ≤ c ∧ c ≤ 'f').2
    exact Nat.lt_of_le_of_lt (Nat.add_le_add_right (Nat.sub_le_sub_right hmax _) 10) (by decide)
  · have hmax : c.toNat ≤ 70 := (by simpa using hupper : 'A' ≤ c ∧ c ≤ 'F').2
    exact Nat.lt_of_le_of_lt (Nat.add_le_add_right (Nat.sub_le_sub_right hmax _) 10) (by decide)

theorem isIntegerBlank_of_hexValue? (h : hexValue? c = some value) :
    isIntegerBlank c = false := by
  by_cases hdigit : c.isDigit
  · exact isIntegerBlank_of_isDigit hdigit
  · obtain ⟨hmin, hmax⟩ := toNat_of_isNameStart (isNameStart_of_hexValue? h hdigit)
    simp [isIntegerBlank, isBlank, blankRanges, CharRanges.contains]
    omega

end HexDigits

namespace Base

variable {base : Base} {c : Char} {digits text : List Char} {n : Nat}

/-- A character is a digit of a base. -/
def HasDigit (base : Base) (c : Char) : Prop :=
  ∃ value, hexValue? c = some value ∧ value < base.size

instance : DecidablePred base.HasDigit := fun c =>
  decidable_of_iff ((hexValue? c).any (· < base.size)) (by simp [HasDigit, Option.any_eq_true])

/-- Digits of a base denote a number. -/
structure Denotes (base : Base) (digits : List Char) (n : Nat) : Prop where
  hasDigits : ∀ c ∈ digits, base.HasDigit c
  value : n = ofDigits base.size (digits.map fun c => (hexValue? c).getD 0)

theorem HasDigit.ne_of_none (h : base.HasDigit c) {other : Char}
    (hother : hexValue? other = none) : c ≠ other := by
  rintro rfl
  obtain ⟨value, hvalue, -⟩ := h
  cases hother.symm.trans hvalue

theorem HasDigit.of_isDigit (h : c.isDigit) (hlt : c.toNat < 48 + base.size) : base.HasDigit c :=
  ⟨_, hexValue?_of_isDigit h, Nat.sub_lt_left_of_lt_add (Char.isDigit_iff_toNat.mp h).1 hlt⟩

theorem HasDigit.isDigit (h : base.HasDigit c) (hsize : base.size ≤ 10) : c.isDigit := by
  obtain ⟨value, hvalue, hlt⟩ := h
  exact isDigit_of_hexValue?_lt hvalue (by omega)

/-- The letter that marks a base is no digit of it. -/
theorem HasDigit.isMark_eq_false (h : base.HasDigit c) : base.isMark c = false := by
  rw [← Bool.not_eq_true]
  intro hmark
  obtain ⟨value, hvalue, hlt⟩ := h
  cases base with
  | decimal => cases hmark
  | binary =>
    rcases (by simpa [isMark] using hmark : c = 'b' ∨ c = 'B') with rfl | rfl <;>
      · cases hvalue
        exact absurd hlt (by decide)
  | octal =>
    rcases (by simpa [isMark] using hmark : c = 'o' ∨ c = 'O') with rfl | rfl <;> cases hvalue
  | hexadecimal =>
    rcases (by simpa [isMark] using hmark : c = 'x' ∨ c = 'X') with rfl | rfl <;> cases hvalue

/-- Digits that denote a number are read as it, unless there are too many of them. -/
theorem Denotes.readDigits (h : base.Denotes digits n) (hne : digits ≠ [])
    (hlength : base = .decimal → digits.length ≤ maxDecimalDigits) :
    WebScript.readDigits base digits = .ok n := by
  rw [WebScript.readDigits, mapM_eq_ok (g := fun c => (hexValue? c).getD 0)]
  · show (if List.isEmpty _ then _ else if _ then _ else Except.ok (ofDigits base.size _)) = _
    rw [if_neg (by simpa using hne), if_neg (by simpa using hlength), h.value]
  · intro c hc
    obtain ⟨value, hvalue, hlt⟩ := h.hasDigits c hc
    simp only [anyDigitValue?_of_hexValue? hvalue, hlt, if_true, hvalue, Option.getD_some]

theorem dropMark_of_digits (h : ∀ c ∈ digits, base.HasDigit c) :
    dropMark base digits = digits := by
  unfold dropMark
  split
  · rename_i zero letter rest
    rw [(h letter (by simp)).isMark_eq_false, Bool.and_false, if_neg Bool.false_ne_true]
  · rfl

/-- Digits of a base are read as the number that they denote. -/
theorem Denotes.readInteger (h : base.Denotes digits n) (hne : digits ≠ [])
    (hlength : base = .decimal → digits.length ≤ maxDecimalDigits) :
    WebScript.readInteger base digits = .ok (n : Int) := by
  have hblank : ∀ c ∈ digits, isIntegerBlank c = false := by
    intro c hc
    obtain ⟨value, hvalue, -⟩ := h.hasDigits c hc
    exact isIntegerBlank_of_hexValue? hvalue
  rw [WebScript.readInteger, trimWhile_eq_self hblank]
  split
  · exact absurd rfl ((h.hasDigits '-' List.mem_cons_self).ne_of_none (by decide))
  · exact absurd rfl ((h.hasDigits '+' List.mem_cons_self).ne_of_none (by decide))
  · rw [dropMark_of_digits h.hasDigits, h.readDigits hne hlength]
    rfl

end Base

/-! ## Notations -/

/-- Digits are written with single underscores between some of them. -/
inductive Separates : List Char → List Char → Prop
  | last (c : Char) : Separates [c] [c]
  | next (c : Char) {digits text : List Char} (h : Separates digits text) :
    Separates (c :: digits) (c :: text)
  | apart (c : Char) {digits text : List Char} (h : Separates digits text) :
    Separates (c :: digits) (c :: '_' :: text)

/-- A text is written for a number, in the notations of a base. -/
inductive Base.Writes : Base → Nat → List Char → Prop
  | decimal {n : Nat} {digits text : List Char} (hdigits : Base.decimal.Denotes digits n)
    (hlead : digits = ['0'] ∨ digits.head? ≠ some '0') (hgroups : Separates digits text) :
    Writes .decimal n text
  | leadingZero {n : Nat} {digits text : List Char} (hdigits : Base.octal.Denotes digits n)
    (hne : digits ≠ []) (hgroups : Separates ('0' :: digits) text) : Writes .octal n text
  | marked {base : Base} {letter : Char} {n : Nat} {digits text : List Char}
    (hmark : base.isMark letter) (hdigits : base.Denotes digits n)
    (hgroups : Separates digits text) : Writes base n ('0' :: letter :: text)

namespace Separates

variable {digits text : List Char}

theorem ne_nil (h : Separates digits text) : digits ≠ [] := by
  cases h <;> exact List.cons_ne_nil _ _

/-- Without the underscores, only the digits are left. -/
theorem filter (h : Separates digits text) (hdigits : ∀ c ∈ digits, c ≠ '_') :
    text.filter (· ≠ '_') = digits := by
  induction h with
  | last c => simp [hdigits c]
  | next c _ ih =>
    obtain ⟨hc, hrest⟩ := List.forall_mem_cons.mp hdigits
    rw [List.filter_cons_of_pos (by simpa using hc), ih hrest]
  | apart c _ ih =>
    obtain ⟨hc, hrest⟩ := List.forall_mem_cons.mp hdigits
    rw [List.filter_cons_of_pos (by simpa using hc), List.filter_cons_of_neg (by simp), ih hrest]

theorem mem (h : Separates digits text) {c : Char} (hc : c ∈ digits) : c ∈ text := by
  induction h with
  | last d => exact hc
  | next d _ ih =>
    rcases List.mem_cons.mp hc with rfl | hc
    · exact List.mem_cons_self
    · exact List.mem_cons_of_mem d (ih hc)
  | apart d _ ih =>
    rcases List.mem_cons.mp hc with rfl | hc
    · exact List.mem_cons_self
    · exact List.mem_cons_of_mem d (List.mem_cons_of_mem '_' (ih hc))

end Separates

namespace Base

variable {base : Base} {digits text : List Char} {n : Nat}

theorem Denotes.filter (h : base.Denotes digits n) (hgroups : Separates digits text) :
    text.filter (· ≠ '_') = digits :=
  hgroups.filter fun c hc => (h.hasDigits c hc).ne_of_none (by decide)

/-- Decimal digits that do not start with a further zero are the decimal form of their number. -/
theorem Denotes.length_eq (h : Base.decimal.Denotes digits n)
    (hlead : digits = ['0'] ∨ digits.head? ≠ some '0') (hne : digits ≠ []) :
    decimalLength n = digits.length := by
  have hdigits : ∀ c ∈ digits, c.isDigit := fun c hc => (h.hasDigits c hc).isDigit (by decide)
  have hvalue : n = Nat.ofDigitChars 10 digits 0 := by
    rw [h.value, ← ofDigits_eq_ofDigitChars]
    refine congrArg (ofDigits 10) (List.map_congr_left fun c hc => ?_)
    rw [hexValue?_of_isDigit (hdigits c hc), Option.getD_some]
  rcases hlead with rfl | hlead
  · rw [hvalue]
    rfl
  · obtain ⟨first, rest, rfl⟩ := List.exists_cons_of_ne_nil hne
    have hfirst : first ≠ '0' := fun heq => hlead (congrArg some heq)
    rw [hvalue, decimalLength, (toDigits_ofDigitChars hfirst hdigits).2]

/-- A zero in front does not change what digits denote. -/
theorem Denotes.cons_zero (h : base.Denotes digits n) : base.Denotes ('0' :: digits) n where
  hasDigits := by
    refine List.forall_mem_cons.mpr ⟨⟨0, by decide, ?_⟩, h.hasDigits⟩
    cases base <;> decide
  value := by
    rw [h.value, List.map_cons]
    show _ = ofDigits base.size (0 :: _)
    simp [ofDigits]

theorem isMark_eq_false_of_isDigit {c : Char} (h : c.isDigit) : base.isMark c = false := by
  rw [← Bool.not_eq_true]
  intro hmark
  cases base <;>
    simp only [isMark, Bool.or_eq_true, decide_eq_true_eq, Bool.false_eq_true] at hmark <;>
    rcases hmark with rfl | rfl <;> cases h

/-- Bases have different letters. -/
theorem isMark_eq_false_of_ne {letter : Char} (h : base.isMark letter) {other : Base}
    (hne : other ≠ base) : other.isMark letter = false := by
  have hletter : letter ∈ ['b', 'B', 'o', 'O', 'x', 'X'] := by
    cases base <;> simp [isMark] at h <;> rcases h with rfl | rfl <;> decide
  simp only [List.mem_cons, List.not_mem_nil, or_false] at hletter
  cases base <;> cases other <;> first
    | exact absurd rfl hne
    | rcases hletter with rfl | rfl | rfl | rfl | rfl | rfl <;> first | rfl | cases h

end Base

/-! ## The value of a literal -/

section Value

variable {text digits : List Char} {letter : Char}

/-- What follows a first zero decides on the base. -/
theorem intLiteralValue_of_zero (h : text.filter (· ≠ '_') = '0' :: letter :: digits) :
    intLiteralValue text =
      if Base.hexadecimal.isMark letter then (readInteger .hexadecimal digits).mapError .limit
      else if Base.binary.isMark letter then (readInteger .binary digits).mapError .limit
      else if Base.octal.isMark letter then (readInteger .octal digits).mapError .limit
      else if (letter :: digits).any fun c => c = '8' || c = '9' then .error .badNumber
      else (readInteger .octal ('0' :: letter :: digits)).mapError .limit := by
  unfold intLiteralValue
  split
  · rename_i heq
    rw [h] at heq
    cases heq
    rfl
  · rename_i hzero
    exact absurd h (hzero letter digits)

theorem intLiteralValue_of_decimal
    (h : ∀ letter digits, text.filter (· ≠ '_') ≠ '0' :: letter :: digits) :
    intLiteralValue text = (readInteger .decimal (text.filter (· ≠ '_'))).mapError .limit := by
  unfold intLiteralValue
  split
  · rename_i letter digits heq
    exact absurd heq (h letter digits)
  · rfl

/-- Digits behind a zero and the mark of a base are read in that base. -/
theorem intLiteralValue_of_isMark {base : Base} (hmark : base.isMark letter)
    (h : text.filter (· ≠ '_') = '0' :: letter :: digits) :
    intLiteralValue text = (readInteger base digits).mapError .limit := by
  have hother (other : Base) (hne : other ≠ base) : ¬other.isMark letter :=
    Bool.eq_false_iff.mp (Base.isMark_eq_false_of_ne hmark hne)
  rw [intLiteralValue_of_zero h]
  cases base with
  | decimal => cases hmark
  | hexadecimal => rw [if_pos hmark]
  | binary => rw [if_neg (hother .hexadecimal (by decide)), if_pos hmark]
  | octal =>
    rw [if_neg (hother .hexadecimal (by decide)), if_neg (hother .binary (by decide)),
      if_pos hmark]

/-- Digits behind a zero without a mark are octal. -/
theorem intLiteralValue_of_not_isMark (hmark : ∀ base : Base, base.isMark letter = false)
    (h : text.filter (· ≠ '_') = '0' :: letter :: digits) :
    intLiteralValue text =
      if (letter :: digits).any fun c => c = '8' || c = '9' then .error .badNumber
      else (readInteger .octal ('0' :: letter :: digits)).mapError .limit := by
  rw [intLiteralValue_of_zero h]
  simp only [hmark, Bool.false_eq_true, if_false]

end Value

namespace Base

variable {base : Base} {digits text : List Char} {n : Nat}

/-- A text that is written for a number has it as its value, unless there are too many decimal
    digits. -/
theorem Writes.intLiteralValue (h : base.Writes n text)
    (hlength : base = .decimal → decimalLength n ≤ maxDecimalDigits) :
    WebScript.intLiteralValue text = .ok (n : Int) := by
  cases h with
  | @decimal _ digits _ hdigits hlead hgroups =>
    have hne := hgroups.ne_nil
    have hfilter := hdigits.filter hgroups
    rw [intLiteralValue_of_decimal, hfilter, hdigits.readInteger hne fun _ => ?_]
    · rfl
    · rw [← hdigits.length_eq hlead hne]
      exact hlength rfl
    · -- Two digits of which the first is zero are no decimal notation.
      intro letter rest heq
      rw [hfilter] at heq
      subst heq
      rcases hlead with heq | hlead
      · cases heq
      · exact hlead rfl
  | @leadingZero _ digits _ hdigits hne hgroups =>
    obtain ⟨letter, rest, rfl⟩ := List.exists_cons_of_ne_nil hne
    have hdigit := (hdigits.hasDigits letter List.mem_cons_self).isDigit (by decide)
    have hoctal : ((letter :: rest).any fun c => c = '8' || c = '9') = false := by
      rw [List.any_eq_false]
      intro c hc hbad
      obtain ⟨value, hvalue, hlt⟩ := hdigits.hasDigits c hc
      rcases (by simpa using hbad : c = '8' ∨ c = '9') with rfl | rfl <;>
        · cases hvalue
          exact absurd hlt (by decide)
    rw [intLiteralValue_of_not_isMark (fun _ => isMark_eq_false_of_isDigit hdigit)
        (hdigits.cons_zero.filter hgroups), hoctal,
      if_neg Bool.false_ne_true, hdigits.cons_zero.readInteger (List.cons_ne_nil _ _) nofun]
    rfl
  | @marked _ letter _ digits text hmark hdigits hgroups =>
    have hletter : letter ≠ '_' := by
      rintro rfl
      cases base <;> cases hmark
    have hfilter : ('0' :: letter :: text).filter (· ≠ '_') = '0' :: letter :: digits := by
      rw [List.filter_cons_of_pos (by decide), List.filter_cons_of_pos (by simpa using hletter),
        hdigits.filter hgroups]
    have hdecimal : base ≠ .decimal := by
      rintro rfl
      cases hmark
    rw [intLiteralValue_of_isMark hmark hfilter,
      hdigits.readInteger hgroups.ne_nil fun h => absurd h hdecimal]
    rfl

/-- A number in the range of integers becomes an integer, in every notation. -/
theorem Writes.intLiteral_of_le (h : base.Writes n text) (hmax : (n : Int) ≤ intMax) :
    intLiteral text = .ok (.int n) := by
  have hfits : FitsInt n := ⟨Int.le_trans (by decide) (Int.natCast_nonneg n), hmax⟩
  have hlength := Key.decimalLength_le_of_fits hfits
  rw [intLiteral, h.intLiteralValue fun _ => hlength]
  show (if (n : Int) ≤ intMax then _ else _) = _
  rw [if_pos hmax]
  rfl

/-- A number beyond that range becomes the nearest float, in every notation. -/
theorem Writes.intLiteral_of_lt (h : base.Writes n text) (hmax : intMax < n)
    (hlength : base = .decimal → decimalLength n ≤ maxDecimalDigits)
    (hrange : n < leastInfinite) :
    ∃ f, floatOfInt? n = some f ∧ intLiteral text = .ok (.float f) := by
  obtain ⟨f, hf⟩ := Number.exists_floatOfInt? (n := (n : Int)) hrange
  refine ⟨f, hf, ?_⟩
  rw [intLiteral, h.intLiteralValue hlength]
  show (if (n : Int) ≤ intMax then _ else _) = _
  rw [if_neg (Int.not_le.mpr hmax), hf]
  rfl

end Base

/-! ## Literals without a value -/

/-- A text has a zero with further digits, one of which is an eight or a nine, and no letter of a
    base after the zero. -/
def HasBadDigit (text : List Char) : Prop :=
  ∃ letter rest, text.filter (· ≠ '_') = '0' :: letter :: rest ∧
    (∀ base : Base, base.isMark letter = false) ∧ ∃ c ∈ letter :: rest, c = '8' ∨ c = '9'

theorem intLiteral_eq_badNumber_iff_value (text : List Char) :
    intLiteral text = .error .badNumber ↔ intLiteralValue text = .error .badNumber := by
  unfold intLiteral
  cases intLiteralValue text with
  | error error => exact Iff.of_eq (by simp [bind, Except.bind])
  | ok n =>
    refine iff_of_false ?_ nofun
    simp only [bind, Except.bind]
    split_ifs
    · nofun
    · cases floatOfInt? n <;> nofun

theorem mapError_limit_ne_badNumber {α : Type} (reading : Except Limit α) :
    reading.mapError LiteralError.limit ≠ .error .badNumber := by
  cases reading <;> nofun

/-- A literal is refused for its digits if and only if it starts with a zero, has no mark and has a
    digit 8 or 9. -/
theorem intLiteral_eq_badNumber_iff (text : List Char) :
    intLiteral text = .error .badNumber ↔ HasBadDigit text := by
  rw [intLiteral_eq_badNumber_iff_value]
  constructor
  · intro h
    by_cases hzero : ∃ letter digits, text.filter (· ≠ '_') = '0' :: letter :: digits
    · obtain ⟨letter, digits, hfilter⟩ := hzero
      by_cases hmark : ∃ base : Base, base.isMark letter
      · obtain ⟨base, hmark⟩ := hmark
        rw [intLiteralValue_of_isMark hmark hfilter] at h
        exact absurd h (mapError_limit_ne_badNumber _)
      · have hnone (base : Base) : base.isMark letter = false :=
          Bool.eq_false_iff.mpr fun hbase => hmark ⟨base, hbase⟩
        rw [intLiteralValue_of_not_isMark hnone hfilter] at h
        split_ifs at h with hbad
        · exact ⟨letter, digits, hfilter, hnone, by simpa using hbad⟩
        · exact absurd h (mapError_limit_ne_badNumber _)
    · rw [intLiteralValue_of_decimal fun letter digits heq => hzero ⟨letter, digits, heq⟩] at h
      exact absurd h (mapError_limit_ne_badNumber _)
  · rintro ⟨letter, digits, hfilter, hnone, hbad⟩
    rw [intLiteralValue_of_not_isMark hnone hfilter, if_pos (by simpa using hbad)]

/-! ## Texts of integer tokens -/

section Tokens

variable {isDigit : Char → Bool} {text : List Char}

/-- What a text of further digits has after a first digit `c` are digits, single underscores between
    them. -/
theorem exists_separates_cons (h : digitTail isDigit text = text.length) (c : Char) :
    ∃ digits, Separates (c :: digits) (c :: text) ∧ ∀ d ∈ digits, isDigit d := by
  induction text using digitTail.induct isDigit generalizing c with
  | case1 => exact ⟨[], .last c, List.forall_mem_nil _⟩
  | case2 d rest hd ih =>
    rw [digitTail_cons, if_pos hd, List.length_cons, Nat.add_comm] at h
    obtain ⟨digits, hgroups, hdigits⟩ := ih (Nat.succ.inj h) d
    exact ⟨d :: digits, .next c hgroups, List.forall_mem_cons.mpr ⟨hd, hdigits⟩⟩
  | case3 d after hd hmark ih =>
    simp only [digitTail_cons, hmark, hd, Bool.false_eq_true, if_false, if_true,
      List.length_cons] at h
    obtain ⟨digits, hgroups, hdigits⟩ := ih (by omega) d
    exact ⟨d :: digits, .apart c hgroups, List.forall_mem_cons.mpr ⟨hd, hdigits⟩⟩
  | case4 d after hd hmark =>
    simp [digitTail_cons, hmark, hd] at h
  | case5 hmark =>
    simp [digitTail_cons, hmark] at h
  | case6 d rest hd hmark =>
    simp [digitTail_cons, hd, hmark] at h

/-- A text that is measured as one row of digits is digits with single underscores between them. -/
theorem exists_separates (h : digitRun isDigit text = text.length) (hne : text ≠ []) :
    ∃ digits, Separates digits text ∧ ∀ d ∈ digits, isDigit d := by
  obtain ⟨c, rest, rfl⟩ := List.exists_cons_of_ne_nil hne
  by_cases hc : isDigit c
  · rw [digitRun, if_pos hc, List.length_cons, Nat.add_comm] at h
    obtain ⟨digits, hgroups, hdigits⟩ := exists_separates_cons (Nat.succ.inj h) c
    exact ⟨c :: digits, hgroups, List.forall_mem_cons.mpr ⟨hc, hdigits⟩⟩
  · rw [digitRun, if_neg hc] at h
    cases h

/-- The letter that announces digits marks the base that they belong to. -/
theorem exists_isMark_of_announcedDigits {letter : Char}
    (h : announcedDigits letter = some isDigit) :
    ∃ base : Base, base.isMark letter ∧ ∀ c, isDigit c → base.HasDigit c := by
  unfold announcedDigits at h
  split_ifs at h with hhexadecimal hbinary hoctal <;> cases h
  · refine ⟨.hexadecimal, hhexadecimal, fun c hc => ?_⟩
    obtain ⟨value, hvalue⟩ := Option.isSome_iff_exists.mp hc
    exact ⟨value, hvalue, hexValue?_lt hvalue⟩
  · refine ⟨.binary, hbinary, fun c hc => ?_⟩
    rcases (by simpa using hc : c = '0' ∨ c = '1') with rfl | rfl
    · exact ⟨0, by decide, by decide⟩
    · exact ⟨1, by decide, by decide⟩
  · refine ⟨.octal, hoctal, fun c hc => ?_⟩
    obtain ⟨hmin, hmax⟩ : '0' ≤ c ∧ c ≤ '7' := by simpa using hc
    have hmax : c.toNat ≤ 55 := hmax
    exact .of_isDigit (Char.isDigit_iff_toNat.mpr ⟨hmin, Nat.le_trans hmax (by decide)⟩)
      (Nat.lt_succ_of_le hmax)

theorem isDigit_of_isDecimalDigit {c : Char} (hascii : c.toNat < 128) (h : isDecimalDigit c) :
    c.isDigit := by
  obtain ⟨value, hvalue⟩ := Option.isSome_iff_exists.mp h
  obtain ⟨first, hfirst, hrange⟩ := List.exists_of_findSome?_eq_some hvalue
  have hzeros : ∀ first ∈ decimalZeros, first = 48 ∨ 128 ≤ first := by decide
  split_ifs at hrange with hbounds
  simp only [Bool.and_eq_true, decide_eq_true_eq] at hbounds
  rcases hzeros first hfirst with rfl | hlarge
  · exact Char.isDigit_iff_toNat.mpr ⟨hbounds.1, Nat.le_of_lt_succ hbounds.2⟩
  · omega

/-- Digits other than eight and nine are octal. -/
theorem Base.HasDigit.octal_of_isDigit {c : Char} (h : c.isDigit) (hbad : ¬(c = '8' ∨ c = '9')) :
    Base.octal.HasDigit c := by
  obtain ⟨height, hnine⟩ := not_or.mp hbad
  have hmax : c.toNat ≤ 57 := (Char.isDigit_iff_toNat.mp h).2
  have height : c.toNat ≠ 56 := fun heq => height (Char.toNat_inj.mp heq)
  have hnine : c.toNat ≠ 57 := fun heq => hnine (Char.toNat_inj.mp heq)
  refine .of_isDigit h ?_
  show c.toNat < 48 + 8
  omega

/-- Decimal digits, single underscores between them, are a notation unless they have a bad digit. -/
theorem exists_writes_of_digits {digits : List Char} (hgroups : Separates digits text)
    (hdigits : ∀ c ∈ digits, c.isDigit) (hgood : ¬HasBadDigit text) :
    ∃ base n, Base.Writes base n text := by
  have hfilter : text.filter (· ≠ '_') = digits := hgroups.filter fun c hc heq => by
    subst heq
    cases hdigits _ hc
  by_cases hlead : digits = ['0'] ∨ digits.head? ≠ some '0'
  · refine ⟨.decimal, _, .decimal ⟨fun c hc => ?_, rfl⟩ hlead hgroups⟩
    have hmax := (Char.isDigit_iff_toNat.mp (hdigits c hc)).2
    exact .of_isDigit (hdigits c hc) (Nat.lt_succ_of_le hmax)
  · obtain ⟨hne, hzero⟩ := not_or.mp hlead
    obtain ⟨first, rest, rfl⟩ := List.exists_cons_of_ne_nil hgroups.ne_nil
    obtain rfl : first = '0' := by simpa using hzero
    obtain ⟨letter, others, rfl⟩ : ∃ letter others, rest = letter :: others :=
      List.exists_cons_of_ne_nil fun hnil => hne (by rw [hnil])
    have hrest := (List.forall_mem_cons.mp hdigits).2
    have hoctal : ∀ c ∈ letter :: others, Base.octal.HasDigit c := by
      intro c hc
      refine .octal_of_isDigit (hrest c hc) fun hbad => hgood ?_
      refine ⟨letter, others, hfilter, fun base => ?_, c, hc, hbad⟩
      exact Base.isMark_eq_false_of_isDigit (hrest letter List.mem_cons_self)
    exact ⟨.octal, _, .leadingZero ⟨hoctal, rfl⟩ (List.cons_ne_nil _ _) hgroups⟩

/-- Announced digits stand after a zero and the letter that announces them. -/
theorem exists_announcedDigits (h : announcedLength text ≠ 0) :
    ∃ letter rest isDigit, text = '0' :: letter :: rest ∧
      announcedDigits letter = some isDigit ∧ announcedLength text = digitRun isDigit rest := by
  unfold announcedLength at h ⊢
  split
  · rename_i letter rest
    cases hletter : announcedDigits letter with
    | none => simp [hletter] at h
    | some isDigit => exact ⟨letter, rest, isDigit, rfl, hletter, rfl⟩
  · rename_i hzero
    split at h
    · rename_i letter rest
      exact absurd rfl (hzero letter rest)
    · exact absurd rfl h

/-- What the scanner takes for an integer is in one of the notations unless it has a bad digit. -/
theorem exists_writes (hne : text ≠ []) (hlength : intLength text = text.length)
    (hascii : ∀ c ∈ text, c.toNat < 128) (hgood : ¬HasBadDigit text) :
    ∃ base n, Base.Writes base n text := by
  rw [intLength_eq] at hlength
  split_ifs at hlength with hannounced
  · obtain ⟨letter, rest, isDigit, rfl, hletter, hrun⟩ := exists_announcedDigits hannounced
    rw [hrun] at hlength hannounced
    obtain ⟨base, hmark, hbase⟩ := exists_isMark_of_announcedDigits hletter
    have hrest : digitRun isDigit rest = rest.length := by
      simp only [List.length_cons] at hlength
      omega
    have hne : rest ≠ [] := by
      rintro rfl
      exact hannounced rfl
    obtain ⟨digits, hgroups, hdigits⟩ := exists_separates hrest hne
    exact ⟨base, _, .marked hmark ⟨fun c hc => hbase c (hdigits c hc), rfl⟩ hgroups⟩
  · obtain ⟨digits, hgroups, hdigits⟩ := exists_separates hlength hne
    refine exists_writes_of_digits hgroups (fun c hc => ?_) hgood
    exact isDigit_of_isDecimalDigit (hascii c (hgroups.mem hc)) (hdigits c hc)

end Tokens

/-! ## Result -/

/-- A text that is written for a number is that integer if the integer is small enough. It is the
    nearest float otherwise, unless there are too many decimal digits or the number is too large for
    a float. An ASCII text that the scanner takes for an integer is an error if and only if it has a
    bad digit; any other is written for a number. -/
theorem int_literals_denote (text : List Char) :
    (∀ base n, Base.Writes base n text →
      ((n : Int) ≤ intMax → intLiteral text = .ok (.int n)) ∧
      (intMax < n → (base = .decimal → decimalLength n ≤ maxDecimalDigits) →
        n < leastInfinite → ∃ f, floatOfInt? n = some f ∧ intLiteral text = .ok (.float f))) ∧
    (text ≠ [] → intLength text = text.length → (∀ c ∈ text, c.toNat < 128) →
      (intLiteral text = .error .badNumber ↔ HasBadDigit text) ∧
      (¬HasBadDigit text → ∃ base n, Base.Writes base n text)) := by
  refine ⟨fun base n h => ⟨h.intLiteral_of_le, h.intLiteral_of_lt⟩, fun hne hlength hascii => ?_⟩
  exact ⟨intLiteral_eq_badNumber_iff text, exists_writes hne hlength hascii⟩

/-- `0B1_0` is two, a hexadecimal one with sixteen zeros after it is a float, and `0_9` has a bad
    digit. -/
theorem int_literals_denote_notations :
    intLiteral ['0', 'B', '1', '_', '0'] = .ok (.int 2) ∧
    (∃ f, floatOfInt? (2 ^ 64) = some f ∧
      intLiteral ('0' :: 'x' :: '1' :: List.replicate 16 '0') = .ok (.float f)) ∧
    intLiteral ['0', '_', '9'] = .error .badNumber := by
  have hbits : ∀ c ∈ ['1', '0'], Base.binary.HasDigit c :=
    List.forall_mem_cons.mpr ⟨by decide, List.forall_mem_singleton.mpr (by decide)⟩
  have hbinary : Base.binary.Writes 2 ['0', 'B', '1', '_', '0'] :=
    .marked rfl ⟨hbits, rfl⟩ (.apart '1' (.last '0'))
  have hgroups : Separates ('1' :: List.replicate 16 '0') ('1' :: List.replicate 16 '0') := by
    repeat constructor
  have hdigits : ∀ c ∈ '1' :: List.replicate 16 '0', Base.hexadecimal.HasDigit c := by
    refine List.forall_mem_cons.mpr ⟨by decide, fun c hc => ?_⟩
    rw [List.eq_of_mem_replicate hc]
    decide
  have hhexadecimal : Base.hexadecimal.Writes (2 ^ 64)
      ('0' :: 'x' :: '1' :: List.replicate 16 '0') := .marked rfl ⟨hdigits, rfl⟩ hgroups
  refine ⟨((int_literals_denote _).1 _ _ hbinary).1 (by decide), ?_, ?_⟩
  · exact ((int_literals_denote _).1 _ _ hhexadecimal).2 (by decide) nofun (by decide +kernel)
  · have hlength : intLength ['0', '_', '9'] = 3 := by decide
    refine ((int_literals_denote _).2 (List.cons_ne_nil _ _) hlength (by simp)).1.mpr ?_
    exact ⟨'9', [], rfl, fun _ => Base.isMark_eq_false_of_isDigit rfl, '9', by decide, .inr rfl⟩

end WebScript
