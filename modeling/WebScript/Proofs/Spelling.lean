import Mathlib
import WebScript.Proofs.CodeLines
import WebScript.Proofs.Rendering

/-!
# Printed tokens scan back

A printed literal denotes what it was printed for, a printed token at the end of a text or before a
blank is scanned as itself, and a text that lays printable tokens out therefore has just these
tokens. Such a text holds no close tag outside quotes, so that the open tag before it makes all of
it code.
-/

namespace WebScript

/-! ## Literals -/

/-- Escaping what stands between single quotes is undone by reading it. -/
theorem unescapeSingle_flatMap_escapeSingle (text : List Char) :
    unescapeSingle (text.flatMap escapeSingle) = text := by
  induction text with
  | nil => rfl
  | cons c rest ih =>
    by_cases hc : (c = '\\' || c = '\'') = true
    · simp only [List.flatMap_cons, escapeSingle, hc, if_true, List.cons_append, List.nil_append,
        unescapeSingle, ih]
    · simp only [Bool.or_eq_true, decide_eq_true_eq, not_or] at hc
      simp [List.flatMap_cons, escapeSingle, hc, unescapeSingle, ih]

theorem digitValue?_of_isDigit {c : Char} (h : c.isDigit) :
    digitValue? c = some (c.toNat - '0'.toNat) := by
  obtain ⟨hmin, hmax⟩ := Char.isDigit_iff_toNat.mp h
  have hlt : c.toNat < 48 + 10 := Nat.lt_succ_of_le hmax
  simp only [digitValue?, decimalZeros, List.findSome?_cons]
  rw [if_pos (by simpa using ⟨hmin, hlt⟩)]
  rfl

theorem isDecimalDigit_of_isDigit {c : Char} (h : c.isDigit) : isDecimalDigit c := by
  simp [isDecimalDigit, digitValue?_of_isDigit h]

/-- The digits of a number do not start with a zero, unless it is zero. -/
theorem head?_toDigits_ne_zero {n : Nat} (h : 0 < n) : (Nat.toDigits 10 n).head? ≠ some '0' := by
  induction n using Nat.base_induction 10 (by decide) with
  | single m hm =>
    rw [Nat.toDigits_of_lt_base hm]
    revert h m
    decide
  | digit m k hk hm ih =>
    rw [← Nat.toDigits_append_toDigits (by decide) hm hk, List.head?_append]
    cases hdigits : Nat.toDigits 10 m with
    | nil => exact absurd hdigits Nat.toDigits_ne_nil
    | cons c rest => simpa [hdigits] using ih hm

theorem mapM_eq_ok {α β ε : Type} {f : α → Except ε β} {g : α → β} {items : List α}
    (h : ∀ item ∈ items, f item = .ok (g item)) : items.mapM f = .ok (items.map g) := by
  induction items with
  | nil => rfl
  | cons item rest ih =>
    rw [List.mapM_cons, h item List.mem_cons_self,
      ih fun other hother => h other (List.mem_cons_of_mem item hother)]
    rfl

/-- Digits have the value that they denote as a numeral. -/
theorem ofDigits_eq_ofDigitChars (digits : List Char) :
    ofDigits 10 (digits.map fun c => c.toNat - '0'.toNat) = Nat.ofDigitChars 10 digits 0 := by
  rw [ofDigits, Nat.ofDigitChars_eq_foldl, List.foldl_map]
  simp only [Nat.mul_comm]

/-- The digits of a number are read as the number, unless there are too many. -/
theorem readDigits_toDigits {n : Nat} (h : (Nat.toDigits 10 n).length ≤ maxDecimalDigits) :
    readDigits .decimal (Nat.toDigits 10 n) = .ok n := by
  rw [readDigits, mapM_eq_ok (g := fun c => c.toNat - '0'.toNat)]
  · show (if List.isEmpty _ then _ else if _ then _ else Except.ok (ofDigits 10 _)) = _
    rw [if_neg (by simp), if_neg (by simpa using h), ofDigits_eq_ofDigitChars,
      Nat.ofDigitChars_ten_toDigits]
  · intro c hc
    have hdigit : c.isDigit := Nat.isDigit_of_mem_toDigits (by decide) (by decide) hc
    have hmax := (Char.isDigit_iff_toNat.mp hdigit).2
    have hsize : c.toNat - '0'.toNat < Base.decimal.size := by
      simp only [Base.size, Char.reduceToNat] at hmax ⊢
      omega
    simp only [anyDigitValue?, digitValue?_of_isDigit hdigit, Option.some_or, hsize, if_true]

theorem trimWhile_eq_self {p : Char → Bool} {text : List Char} (h : ∀ c ∈ text, p c = false) :
    trimWhile p text = text := by
  have hdrop : ∀ chars : List Char, (∀ c ∈ chars, p c = false) → chars.dropWhile p = chars := by
    intro chars hchars
    cases chars with
    | nil => rfl
    | cons c rest => rw [List.dropWhile_cons, if_neg (by simp [hchars c])]
  rw [trimWhile, hdrop text h, hdrop text.reverse (by simpa using h), List.reverse_reverse]

theorem isIntegerBlank_of_isDigit {c : Char} (h : c.isDigit) : isIntegerBlank c = false := by
  obtain ⟨hmin, hmax⟩ := Char.isDigit_iff_toNat.mp h
  simp only [Char.reduceToNat] at hmin hmax
  simp [isIntegerBlank, isBlank, blankRanges, CharRanges.contains]
  omega

theorem dropMark_decimal (digits : List Char) : dropMark .decimal digits = digits := by
  unfold dropMark
  split
  · rw [if_neg (by simp [Base.isMark])]
  · rfl

/-- Digits have neither blanks around them nor a sign or a mark before them, so that they are read
    as they stand. -/
theorem readInteger_toDigits {n : Nat} (h : (Nat.toDigits 10 n).length ≤ maxDecimalDigits) :
    readInteger .decimal (Nat.toDigits 10 n) = .ok (n : Int) := by
  have hdigits : ∀ c ∈ Nat.toDigits 10 n, c.isDigit := fun c hc =>
    Nat.isDigit_of_mem_toDigits (by decide) (by decide) hc
  have hread := readDigits_toDigits h
  rw [readInteger, trimWhile_eq_self fun c hc => isIntegerBlank_of_isDigit (hdigits c hc)]
  split
  · rename_i heq
    exact absurd (hdigits '-' (by simp [heq])) (by decide)
  · rename_i heq
    exact absurd (hdigits '+' (by simp [heq])) (by decide)
  · rw [dropMark_decimal, hread]
    rfl

/-- The digits of a number have no underscores, and only zero starts with the digit that announces a
    base. -/
theorem intLiteralValue_toDigits {n : Nat} (h : (Nat.toDigits 10 n).length ≤ maxDecimalDigits) :
    intLiteralValue (Nat.toDigits 10 n) = .ok (n : Int) := by
  have hfilter : (Nat.toDigits 10 n).filter (· ≠ '_') = Nat.toDigits 10 n := by
    rw [List.filter_eq_self]
    intro c hc
    simpa using fun heq : c = '_' => Nat.underscore_not_in_toDigits (heq ▸ hc)
  rw [intLiteralValue, hfilter]
  split
  · rename_i letter digits heq
    -- Only zero itself starts with a zero, and it has no further digit.
    by_cases hn : n = 0
    · simp [hn] at heq
    · exact absurd (by rw [heq]; rfl) (head?_toDigits_ne_zero (Nat.pos_of_ne_zero hn))
  · rw [readInteger_toDigits h]
    rfl

/-- The digits of an integer that is not too large denote it. -/
theorem intLiteral_toDigits {n : Int} (hmin : 0 ≤ n) (hmax : n ≤ intMax) :
    intLiteral (Nat.toDigits 10 n.toNat) = .ok (.int n) := by
  have hlength : (Nat.toDigits 10 n.toNat).length ≤ 19 := by
    rw [Nat.length_toDigits_le_iff (by decide) (by decide)]
    unfold intMax at hmax
    omega
  have hvalue := intLiteralValue_toDigits (Nat.le_trans hlength (by decide))
  rw [Int.toNat_of_nonneg hmin] at hvalue
  rw [intLiteral, hvalue]
  show (if n ≤ intMax then _ else _) = _
  rw [if_pos hmax]
  rfl

/-! ## The edge of a token -/

/-- Texts that are over or go on with a blank. -/
def AtEdge (tail : List Char) : Prop := ∀ c ∈ tail.head?, isTokenBlank c

theorem atEdge_nil : AtEdge [] := nofun

theorem atEdge_append {gap text : List Char} (hgap : gap ≠ [])
    (hblank : ∀ c ∈ gap, isTokenBlank c) : AtEdge (gap ++ text) := by
  obtain ⟨first, rest, rfl⟩ := List.exists_cons_of_ne_nil hgap
  rintro c ⟨⟩
  exact hblank first List.mem_cons_self

/-- The characters between tokens. -/
theorem eq_of_isTokenBlank {c : Char} (h : isTokenBlank c) :
    c = ' ' ∨ c = '\t' ∨ c = '\x0c' ∨ c = '\r' ∨ c = '\n' := by
  simpa [isTokenBlank, or_assoc] using h

theorem isNamePart_of_blank {c : Char} (h : isTokenBlank c) : isNamePart c = false := by
  rcases eq_of_isTokenBlank h with rfl | rfl | rfl | rfl | rfl <;> decide

theorem isDecimalDigit_of_blank {c : Char} (h : isTokenBlank c) : isDecimalDigit c = false := by
  rcases eq_of_isTokenBlank h with rfl | rfl | rfl | rfl | rfl <;> decide

/-- Of a word before a character of another kind, just the word is taken. -/
theorem takeWhile_word {p : Char → Bool} {word tail : List Char} (hword : ∀ c ∈ word, p c)
    (htail : ∀ c ∈ tail.head?, p c = false) : (word ++ tail).takeWhile p = word := by
  rw [List.takeWhile_append_of_pos hword]
  cases tail with
  | nil => simp
  | cons c rest => simp [htail c rfl]

/-! ## Characters that start no number -/

theorem digitRun_of_not_digit {isDigit : Char → Bool} {text : List Char}
    (h : ∀ c ∈ text.head?, isDigit c = false) : digitRun isDigit text = 0 := by
  cases text with
  | nil => rfl
  | cons c rest => simp [digitRun, h c rfl]

/-- No float starts with a character that is no digit, unless it is a point before one. -/
theorem floatLength_eq_zero {c : Char} {rest : List Char} (hdigit : isDecimalDigit c = false)
    (hpoint : c = '.' → ∀ d ∈ rest.head?, isDecimalDigit d = false) :
    floatLength (c :: rest) = 0 := by
  have hrun : digitRun isDecimalDigit (c :: rest) = 0 :=
    digitRun_of_not_digit (by simpa using hdigit)
  simp only [floatLength, hrun, if_true, ne_eq, not_true, if_false, List.drop_zero]
  split
  · rename_i afterPoint heq
    obtain ⟨rfl, rfl⟩ := List.cons.inj heq
    rw [digitRun_of_not_digit (hpoint rfl)]
    rfl
  · rfl

/-- No integer starts with a character that is no digit. -/
theorem intLength_eq_zero {c : Char} {rest : List Char} (hdigit : isDecimalDigit c = false) :
    intLength (c :: rest) = 0 := by
  have hrun : digitRun isDecimalDigit (c :: rest) = 0 :=
    digitRun_of_not_digit (by simpa using hdigit)
  have hzero : c ≠ '0' := by
    rintro rfl
    exact absurd hdigit (by decide)
  simp only [intLength, hrun]
  split
  · rename_i heq
    simp [hzero] at heq
  · rfl

/-! ## Numbers -/

/-- A row of digits is over where a blank follows. -/
theorem digitTail_word {digits tail : List Char} (hdigits : ∀ c ∈ digits, c.isDigit)
    (htail : AtEdge tail) : digitTail isDecimalDigit (digits ++ tail) = digits.length := by
  induction digits with
  | nil =>
    cases tail with
    | nil => rfl
    | cons c rest =>
      have hblank := htail c rfl
      have hunderscore : c ≠ '_' := by
        rintro rfl
        exact absurd hblank (by decide)
      rw [List.nil_append, digitTail.eq_def]
      simp [isDecimalDigit_of_blank hblank, hunderscore]
  | cons c rest ih =>
    have hc := isDecimalDigit_of_isDigit (hdigits c List.mem_cons_self)
    rw [List.cons_append, digitTail.eq_def]
    simp only [hc, if_true, List.length_cons]
    rw [ih fun d hd => hdigits d (List.mem_cons_of_mem c hd), Nat.add_comm]

theorem digitRun_word {digits tail : List Char} (hne : digits ≠ [])
    (hdigits : ∀ c ∈ digits, c.isDigit) (htail : AtEdge tail) :
    digitRun isDecimalDigit (digits ++ tail) = digits.length := by
  obtain ⟨c, rest, rfl⟩ := List.exists_cons_of_ne_nil hne
  have hc := isDecimalDigit_of_isDigit (hdigits c List.mem_cons_self)
  simp only [List.cons_append, digitRun, hc, if_true, List.length_cons]
  rw [digitTail_word (fun d hd => hdigits d (List.mem_cons_of_mem c hd)) htail, Nat.add_comm]

/-- A blank starts no exponent. -/
theorem exponentLength_edge {tail : List Char} (htail : AtEdge tail) : exponentLength tail = 0 := by
  cases tail with
  | nil => rfl
  | cons c rest =>
    have hblank := htail c rfl
    rcases eq_of_isTokenBlank hblank with rfl | rfl | rfl | rfl | rfl <;> rfl

/-- A row of digits is no float: neither a point nor an exponent follows. -/
theorem floatLength_word {digits tail : List Char} (hne : digits ≠ [])
    (hdigits : ∀ c ∈ digits, c.isDigit) (htail : AtEdge tail) :
    floatLength (digits ++ tail) = 0 := by
  simp only [floatLength, digitRun_word hne hdigits htail, List.drop_left,
    exponentLength_edge htail, ite_self, ne_eq, not_true, if_false]
  split
  · exact absurd (htail '.' rfl) (by decide)
  · rfl

theorem announcedDigits_eq_none {c : Char} (h : c.isDigit ∨ isTokenBlank c) :
    announcedDigits c = none := by
  have hletters : (['x', 'X', 'b', 'B', 'o', 'O'].all fun letter =>
      !(letter.isDigit || isTokenBlank letter)) = true := by decide
  have hc : c ∉ ['x', 'X', 'b', 'B', 'o', 'O'] := by
    intro hmem
    have hletter := List.all_eq_true.mp hletters c hmem
    rcases h with hdigit | hblank
    · simp [hdigit] at hletter
    · simp [hblank] at hletter
  simp only [List.mem_cons, not_or] at hc
  simp [announcedDigits, hc]

/-- A row of digits is an integer up to its end, and no digit or blank announces another base. -/
theorem intLength_word {digits tail : List Char} (hne : digits ≠ [])
    (hdigits : ∀ c ∈ digits, c.isDigit) (htail : AtEdge tail) :
    intLength (digits ++ tail) = digits.length := by
  simp only [intLength, digitRun_word hne hdigits htail]
  split
  · rename_i letter others heq
    have hletter : letter.isDigit ∨ isTokenBlank letter := by
      obtain ⟨c, rest, rfl⟩ := List.exists_cons_of_ne_nil hne
      cases rest with
      | nil =>
        simp only [List.cons_append, List.nil_append, List.cons.injEq] at heq
        exact .inr (htail letter (by rw [heq.2]; rfl))
      | cons d more =>
        simp only [List.cons_append, List.cons.injEq] at heq
        exact .inl (heq.2.1 ▸ hdigits d (by simp))
    rw [announcedDigits_eq_none hletter]
    rfl
  · rfl

/-! ## Scanning -/

/-- A number scans as itself. -/
theorem scan_number {c : Char} {rest tail : List Char} (hdigits : ∀ d ∈ c :: rest, d.isDigit)
    (htail : AtEdge tail) : scan c (rest ++ tail) = (some (.int (c :: rest)), rest.length) := by
  have hfloat := floatLength_word (List.cons_ne_nil c rest) hdigits htail
  have hint := intLength_word (List.cons_ne_nil c rest) hdigits htail
  rw [List.cons_append] at hfloat hint
  simp only [scan, hfloat, hint, ne_eq, not_true, if_false, List.length_cons, Nat.add_eq_zero_iff,
    Nat.one_ne_zero, and_false, not_false_eq_true, if_true, Nat.add_sub_cancel]
  rw [← List.cons_append, List.take_left' (by rfl)]

theorem toNat_of_isNameStart {c : Char} (h : isNameStart c) : 65 ≤ c.toNat ∧ c.toNat ≤ 122 := by
  simp only [isNameStart, Char.isAlpha, Char.isUpper, Char.isLower, Bool.or_eq_true,
    Bool.and_eq_true, decide_eq_true_eq, UInt32.le_iff_toNat_le, ge_iff_le] at h
  change (('A'.toNat ≤ c.toNat ∧ c.toNat ≤ 'Z'.toNat) ∨ 'a'.toNat ≤ c.toNat ∧ c.toNat ≤ 'z'.toNat) ∨
    c = '_' at h
  rcases h with (h | h) | rfl
  · simp only [Char.reduceToNat] at h
    omega
  · simp only [Char.reduceToNat] at h
    omega
  · decide

theorem isNamePart_iff {c : Char} : isNamePart c ↔ isNameStart c ∨ c.isDigit := by
  simp only [isNamePart, isNameStart, Char.isAlphanum, Bool.or_eq_true]
  exact or_right_comm

/-- The digits of all scripts lie outside the letters of names. -/
theorem isDecimalDigit_of_isNameStart {c : Char} (h : isNameStart c) :
    isDecimalDigit c = false := by
  obtain ⟨hmin, hmax⟩ := toNat_of_isNameStart h
  have hzeros : ∀ first ∈ decimalZeros, first = 48 ∨ 123 ≤ first := by decide
  have hvalue : digitValue? c = none := by
    rw [digitValue?, List.findSome?_eq_none_iff]
    intro first hfirst
    rw [if_neg]
    rcases hzeros first hfirst with rfl | hlarge
    · simp only [Bool.and_eq_true, decide_eq_true_eq]
      omega
    · simp only [Bool.and_eq_true, decide_eq_true_eq]
      omega
  simp [isDecimalDigit, hvalue]

/-- A variable scans as itself. -/
theorem scan_variable {name : String} {tail : List Char} (hname : IsName name)
    (htail : AtEdge tail) :
    scan '$' (name.toList ++ tail) = (some (.variable name), name.toList.length) := by
  obtain ⟨first, rest, hlist, hfirst, hrest⟩ := hname
  have hfloat : floatLength ('$' :: (name.toList ++ tail)) = 0 :=
    floatLength_eq_zero (by decide) nofun
  have hint : intLength ('$' :: (name.toList ++ tail)) = 0 := intLength_eq_zero (by decide)
  have hhead : (name.toList ++ tail).head?.any isNameStart = true := by simp [hlist, hfirst]
  have htake : (name.toList ++ tail).takeWhile isNamePart = name.toList := by
    refine takeWhile_word ?_ fun c hc => isNamePart_of_blank (htail c hc)
    rw [hlist]
    exact List.forall_mem_cons.mpr ⟨isNamePart_iff.mpr (.inl hfirst), hrest⟩
  simp only [scan, hfloat, hint, hhead, htake, ne_eq, not_true, if_false, decide_true,
    Bool.true_and, if_true, String.ofList_toList]

/-- A word scans as a whole; which token it is depends on the reserved words. -/
theorem scan_word {c : Char} {rest tail : List Char} (hc : isNameStart c)
    (hrest : ∀ d ∈ rest, isNamePart d) (htail : AtEdge tail) :
    scan c (rest ++ tail) = (some (wordLexeme (c :: rest)), rest.length) := by
  have hdigit := isDecimalDigit_of_isNameStart hc
  have hne : c ≠ '.' ∧ c ≠ '$' := by
    constructor
    · rintro rfl
      exact absurd hc (by decide)
    · rintro rfl
      exact absurd hc (by decide)
  have hfloat : floatLength (c :: (rest ++ tail)) = 0 :=
    floatLength_eq_zero hdigit fun heq => absurd heq hne.1
  have hint : intLength (c :: (rest ++ tail)) = 0 := intLength_eq_zero hdigit
  have htake : (rest ++ tail).takeWhile isNamePart = rest :=
    takeWhile_word hrest fun d hd => isNamePart_of_blank (htail d hd)
  simp only [scan, hfloat, hint, hne.2, hc, htake, ne_eq, not_true, if_false, decide_false,
    Bool.false_and, Bool.false_eq_true, if_true]

theorem closingQuote?_cons (quote c : Char) (rest : List Char) :
    closingQuote? quote (c :: rest) =
      if c = quote then some 1
      else if c = '\\' then
        match rest with
        | [] => none
        | _ :: after => (closingQuote? quote after).map (· + 2)
      else (closingQuote? quote rest).map (· + 1) :=
  closingQuote?.eq_def quote (c :: rest)

/-- The scanner for a closing quote passes over a text. -/
def KeepsOpen (quote : Char) (text : List Char) : Prop :=
  ∀ tail, closingQuote? quote (text ++ tail) =
    (closingQuote? quote tail).map (· + text.length)

namespace KeepsOpen

variable {quote : Char}

theorem nil : KeepsOpen quote [] := fun tail => by simp

/-- A text is passed over if both of its halves are. -/
theorem append {first second : List Char} (hfirst : KeepsOpen quote first)
    (hsecond : KeepsOpen quote second) : KeepsOpen quote (first ++ second) := by
  intro tail
  rw [List.append_assoc, hfirst, hsecond, Option.map_map, List.length_append]
  congr 1
  funext size
  simp only [Function.comp_apply]
  omega

/-- A text is passed over if it consists of pieces that are. -/
theorem flatMap {α : Type} {spell : α → List Char} {items : List α}
    (h : ∀ item ∈ items, KeepsOpen quote (spell item)) : KeepsOpen quote (items.flatMap spell) := by
  induction items with
  | nil => exact nil
  | cons item rest ih =>
    rw [List.flatMap_cons]
    exact (h item List.mem_cons_self).append
      (ih fun other hother => h other (List.mem_cons_of_mem _ hother))

theorem singleton {c : Char} (hquote : c ≠ quote) (hbackslash : c ≠ '\\') :
    KeepsOpen quote [c] := by
  intro tail
  rw [List.singleton_append, closingQuote?_cons, if_neg hquote, if_neg hbackslash]
  rfl

theorem escaped (c : Char) (h : '\\' ≠ quote) : KeepsOpen quote ['\\', c] := by
  intro tail
  rw [List.cons_append, List.singleton_append, closingQuote?_cons, if_neg h, if_pos rfl]
  rfl

theorem plain {text : List Char} (h : ∀ c ∈ text, c ≠ quote ∧ c ≠ '\\') :
    KeepsOpen quote text := by
  have hflat : text = text.flatMap fun c => [c] := by simp
  rw [hflat]
  exact flatMap fun c hc => singleton (h c hc).1 (h c hc).2

/-- The quote after a text that is passed over is the one that closes it. -/
theorem closes {text : List Char} (h : KeepsOpen quote text) (tail : List Char) :
    closingQuote? quote (text ++ quote :: tail) = some (text.length + 1) := by
  rw [h, closingQuote?_cons, if_pos rfl, Option.map_some, Nat.add_comm]

end KeepsOpen

/-- No quote of an escaped text closes it. -/
theorem keepsOpen_escapeSingle (text : List Char) :
    KeepsOpen '\'' (text.flatMap escapeSingle) := by
  refine KeepsOpen.flatMap fun c _ => ?_
  unfold escapeSingle
  split
  · exact .escaped c (by decide)
  · rename_i hc
    simp only [Bool.or_eq_true, decide_eq_true_eq, not_or] at hc
    exact .singleton hc.2 hc.1

/-- A text between single quotes scans as itself. -/
theorem scan_single {text tail : List Char} :
    scan '\'' (text.flatMap escapeSingle ++ ['\''] ++ tail) =
      (some (.single (text.flatMap escapeSingle)), (text.flatMap escapeSingle).length + 1) := by
  rw [List.append_assoc, List.singleton_append]
  have hfloat : floatLength ('\'' :: (text.flatMap escapeSingle ++ '\'' :: tail)) = 0 :=
    floatLength_eq_zero (by decide) nofun
  have hint : intLength ('\'' :: (text.flatMap escapeSingle ++ '\'' :: tail)) = 0 :=
    intLength_eq_zero (by decide)
  have hname : isNameStart '\'' = false := by decide
  simp [scan, hfloat, hint, hname, (keepsOpen_escapeSingle text).closes]

theorem scan_blank {c : Char} (h : isTokenBlank c) (rest : List Char) :
    scan c rest = (none, 0) := by
  have hdigit := isDecimalDigit_of_blank h
  have hfloat : floatLength (c :: rest) = 0 := by
    refine floatLength_eq_zero hdigit ?_
    rintro rfl
    exact absurd h (by decide)
  have hint : intLength (c :: rest) = 0 := intLength_eq_zero hdigit
  simp only [scan, hfloat, hint, ne_eq, not_true, if_false]
  rcases eq_of_isTokenBlank h with rfl | rfl | rfl | rfl | rfl <;> rfl

/-- Whether a text starts with a symbol does not depend on what follows after a blank. -/
theorem isPrefixOf_append_edge {pattern text tail : List Char}
    (hpattern : ∀ c ∈ pattern, isTokenBlank c = false) (htail : AtEdge tail) :
    pattern.isPrefixOf (text ++ tail) = pattern.isPrefixOf text := by
  induction pattern generalizing text with
  | nil => simp
  | cons p pattern ih =>
    have hrest : ∀ c ∈ pattern, isTokenBlank c = false := fun c hc =>
      hpattern c (List.mem_cons_of_mem p hc)
    cases text with
    | cons c text => simp only [List.cons_append, List.isPrefixOf, ih hrest]
    | nil =>
      cases tail with
      | nil => rfl
      | cons w rest =>
        have hne : p ≠ w := by
          rintro rfl
          exact Bool.false_ne_true ((hpattern p List.mem_cons_self).symm.trans (htail p rfl))
        simp [List.isPrefixOf, hne]

/-- The symbol at the start of a text is the same one before a blank. -/
theorem symbol?_append_edge (text : List Char) {tail : List Char} (htail : AtEdge tail) :
    symbol? (text ++ tail) = symbol? text := by
  have hsymbols : (symbols.all fun entry => entry.1.all fun c => !isTokenBlank c) = true := by
    decide
  have hfind : (symbols.find? fun entry => entry.1.isPrefixOf (text ++ tail)) =
      symbols.find? fun entry => entry.1.isPrefixOf text := by
    refine List.find?_congr fun entry hentry => ?_
    refine isPrefixOf_append_edge (fun c hc => ?_) htail
    simpa using List.all_eq_true.mp (List.all_eq_true.mp hsymbols entry hentry) c hc
  rw [symbol?, symbol?, hfind]

/-- What makes a text that is found among the symbols scan as one: no other kind of token starts
    like it. -/
structure IsSymbol (c : Char) (rest : List Char) (lexeme : Lexeme) : Prop where
  found : symbol? (c :: rest) = some (lexeme, rest.length + 1)
  digit : isDecimalDigit c = false
  name : isNameStart c = false
  other : c ∉ ['$', '"', '\'', '#']
  blank : isTokenBlank c = false
  /-- Alone, a point could start a number and a slash a comment. -/
  alone : c = '.' ∨ c = '/' → rest = [] ∨ rest = ['=']

theorem head?_of_alone {c : Char} {rest tail : List Char} (h : rest = [] ∨ rest = ['='])
    (htail : AtEdge tail) (hc : c ∈ (rest ++ tail).head?) : c = '=' ∨ isTokenBlank c := by
  rcases h with rfl | rfl
  · exact .inr (htail c hc)
  · exact .inl (Option.some.inj hc).symm

/-- A symbol scans as itself; the token before the blank is not the start of a number or of a
    comment. -/
theorem scan_symbol {c : Char} {rest tail : List Char} {lexeme : Lexeme}
    (h : IsSymbol c rest lexeme) (htail : AtEdge tail) :
    scan c (rest ++ tail) = (some lexeme, rest.length) := by
  have hfloat : floatLength (c :: (rest ++ tail)) = 0 := by
    refine floatLength_eq_zero h.digit fun heq d hd => ?_
    rcases head?_of_alone (h.alone (.inl heq)) htail hd with rfl | hblank
    · decide
    · exact isDecimalDigit_of_blank hblank
  have hint : intLength (c :: (rest ++ tail)) = 0 := intLength_eq_zero h.digit
  have hfound : symbol? (c :: (rest ++ tail)) = some (lexeme, rest.length + 1) := by
    rw [← List.cons_append, symbol?_append_edge _ htail, h.found]
  -- After a slash there is an equals sign, a blank or nothing, so it starts no comment.
  have hcomment : (if c = '/' then blockComment? (rest ++ tail) else none) = none := by
    split
    · rename_i heq
      unfold blockComment?
      split
      · rename_i more hstar
        rcases head?_of_alone (h.alone (.inr heq)) htail (by rw [hstar]; rfl) with hc | hc
        · exact absurd hc (by decide)
        · exact absurd hc (by decide)
      · rfl
    · rfl
  have hline : (decide (c = '/') && (rest ++ tail).head? == some '/') = false := by
    rw [Bool.and_eq_false_iff, decide_eq_false_iff_not, beq_eq_false_iff_ne]
    by_cases heq : c = '/'
    · refine .inr fun hslash => ?_
      rcases head?_of_alone (h.alone (.inr heq)) htail hslash with hc | hc
      · exact absurd hc (by decide)
      · exact absurd hc (by decide)
    · exact .inl heq
  have hother := h.other
  simp only [List.mem_cons, List.not_mem_nil, or_false, not_or] at hother
  simp only [scan, hfloat, hint, hfound, hcomment, hline, hother, h.name, h.blank, ne_eq, not_true,
    decide_false, Bool.false_and, Bool.or_self, Bool.false_eq_true, if_false, Nat.add_sub_cancel]

/-! ## Printable tokens -/

/-- Tokens that are printed: a name is one, a number consists of digits, the text between single
    quotes has been escaped, and signs are no operators of their own. -/
def Lexeme.Printable : Lexeme → Prop
  | .variable name => IsName name
  | .identifier name => IsIdentifier name
  | .int text => text ≠ [] ∧ ∀ c ∈ text, c.isDigit
  | .single raw => ∃ text : List Char, raw = text.flatMap escapeSingle
  | .binary op => op ≠ .plus ∧ op ≠ .minus
  | .unary op => op ≠ .plus ∧ op ≠ .minus
  | .compound op => op ∈ compoundOperators
  | .float _ | .double _ | .stray _ => False
  | _ => True

/-- A token scans as itself at the end of a text and before a blank. -/
def Lexeme.ScansBack (lexeme : Lexeme) : Prop :=
  ∃ c rest, lexeme.spelling = c :: rest ∧
    ∀ tail, AtEdge tail → scan c (rest ++ tail) = (some lexeme, rest.length)

theorem IsSymbol.scansBack {c : Char} {rest : List Char} {lexeme : Lexeme}
    (h : IsSymbol c rest lexeme) (hspelling : lexeme.spelling = c :: rest) : lexeme.ScansBack :=
  ⟨c, rest, hspelling, fun _ htail => scan_symbol h htail⟩

/-- A word scans back as the token that the reserved words make of it. -/
theorem scansBack_of_word {c : Char} {rest : List Char} {lexeme : Lexeme}
    (hspelling : lexeme.spelling = c :: rest) (hc : isNameStart c) (hrest : rest.all isNamePart)
    (hword : wordLexeme (c :: rest) = lexeme) : lexeme.ScansBack :=
  ⟨c, rest, hspelling, fun _ htail => hword ▸ scan_word hc (List.all_eq_true.mp hrest) htail⟩

theorem scansBack_keyword (word : Keyword) : (Lexeme.keyword word).ScansBack := by
  cases word <;> exact scansBack_of_word rfl (by decide) (by decide) (by decide)

theorem scansBack_require (once fatal : Bool) : (Lexeme.require once fatal).ScansBack := by
  cases once <;> cases fatal <;> exact scansBack_of_word rfl (by decide) (by decide) (by decide)

theorem scansBack_binary {op : BinaryOperator} (h : op ≠ .plus ∧ op ≠ .minus) :
    (Lexeme.binary op).ScansBack := by
  cases op with
  | plus => exact absurd rfl h.1
  | minus => exact absurd rfl h.2
  | logicalAnd => exact scansBack_of_word rfl (by decide) (by decide) (by decide)
  | logicalOr => exact scansBack_of_word rfl (by decide) (by decide) (by decide)
  | logicalXor => exact scansBack_of_word rfl (by decide) (by decide) (by decide)
  | _ => exact IsSymbol.scansBack (by constructor <;> decide) rfl

theorem scansBack_compound {op : BinaryOperator} (h : op ∈ compoundOperators) :
    (Lexeme.compound op).ScansBack := by
  simp only [compoundOperators, List.mem_cons, List.not_mem_nil, or_false] at h
  rcases h with rfl | rfl | rfl | rfl | rfl | rfl | rfl | rfl | rfl | rfl | rfl | rfl | rfl <;>
    exact IsSymbol.scansBack (by constructor <;> decide) rfl

theorem map_fst_reservedWords :
    reservedWords.map (fun entry => String.ofList entry.1) = keywords := by decide

/-- A word that is not reserved is a name. -/
theorem wordLexeme_eq_identifier {name : String} (h : lowerCase name ∉ keywords) :
    wordLexeme name.toList = .identifier name := by
  have hnone : (reservedWords.find? fun entry => entry.1 == lowerFrom [] name.toList) = none := by
    rw [List.find?_eq_none]
    intro entry hentry heq
    apply h
    rw [← map_fst_reservedWords, List.mem_map]
    exact ⟨entry, hentry, congrArg String.ofList (eq_of_beq heq)⟩
  rw [wordLexeme, hnone, String.ofList_toList]

/-- All printable tokens scan back, one kind after another. -/
theorem scansBack_of_printable {lexeme : Lexeme} (h : lexeme.Printable) : lexeme.ScansBack := by
  cases lexeme with
  | «variable» name => exact ⟨'$', name.toList, rfl, fun _ htail => scan_variable h htail⟩
  | identifier name =>
    obtain ⟨⟨first, rest, hlist, hfirst, hrest⟩, hkeyword⟩ := h
    refine scansBack_of_word hlist hfirst (List.all_eq_true.mpr hrest) ?_
    rw [← hlist, wordLexeme_eq_identifier hkeyword]
  | int text =>
    obtain ⟨hne, hdigits⟩ := h
    obtain ⟨c, rest, rfl⟩ := List.exists_cons_of_ne_nil hne
    exact ⟨c, rest, rfl, fun _ htail => scan_number hdigits htail⟩
  | float text => exact h.elim
  | single raw =>
    obtain ⟨text, rfl⟩ := h
    refine ⟨'\'', text.flatMap escapeSingle ++ ['\''], rfl, fun tail _ => ?_⟩
    rw [scan_single, List.length_append, List.length_singleton]
  | double raw => exact h.elim
  | keyword word => exact scansBack_keyword word
  | require once fatal => exact scansBack_require once fatal
  | binary op => exact scansBack_binary h
  | unary op =>
    cases op with
    | plus => exact absurd rfl h.1
    | minus => exact absurd rfl h.2
    | _ => exact IsSymbol.scansBack (by constructor <;> decide) rfl
  | sign minus => cases minus <;> exact IsSymbol.scansBack (by constructor <;> decide) rfl
  | compound op => exact scansBack_compound h
  | stray c => exact h.elim
  | _ => exact IsSymbol.scansBack (by constructor <;> decide) rfl

/-! ## Rows of tokens -/

/-- Characters that belong to an earlier token only move the position on. -/
theorem tokensFrom_skip (chars text : List Char) (position : Position) :
    tokensFrom chars.length position (chars ++ text) =
      tokensFrom 0 (chars.foldl Position.advance position) text := by
  induction chars generalizing position with
  | nil => rfl
  | cons c rest ih => exact ih (position.advance c)

/-- Blanks only move the position on. -/
theorem tokensFrom_blanks {gap : List Char} (hblank : ∀ c ∈ gap, isTokenBlank c)
    (text : List Char) (position : Position) :
    tokensFrom 0 position (gap ++ text) =
      tokensFrom 0 (gap.foldl Position.advance position) text := by
  induction gap generalizing position with
  | nil => rfl
  | cons c rest ih =>
    rw [List.cons_append, tokensFrom_cons, scan_blank (hblank c List.mem_cons_self)]
    exact ih (fun d hd => hblank d (List.mem_cons_of_mem c hd)) (position.advance c)

/-- What is scanned at the start of a text is its first token, and the rest is scanned from where
    that token ends. -/
theorem tokensFrom_scan {c : Char} {rest tail : List Char} {lexeme : Lexeme}
    (h : scan c (rest ++ tail) = (some lexeme, rest.length)) (position : Position) :
    ∃ token : Token, token.lexeme = lexeme ∧
      tokensFrom 0 position (c :: rest ++ tail) =
        token :: tokensFrom 0 ((c :: rest).foldl Position.advance position) tail := by
  refine ⟨⟨lexeme, String.ofList (c :: rest), position.line, position.column⟩, rfl, ?_⟩
  rw [List.cons_append, tokensFrom_cons, h]
  simp only [tokensFrom_skip, List.take_left, List.foldl_cons]

/-- The spelling of a printable token before a blank gives this one token. -/
theorem tokensFrom_spelling {lexeme : Lexeme} {tail : List Char} (hprint : lexeme.Printable)
    (htail : AtEdge tail) (position : Position) :
    ∃ token after, token.lexeme = lexeme ∧
      tokensFrom 0 position (lexeme.spelling ++ tail) = token :: tokensFrom 0 after tail := by
  obtain ⟨c, rest, hspelling, hscan⟩ := scansBack_of_printable hprint
  obtain ⟨token, hlexeme, htokens⟩ := tokensFrom_scan (hscan tail htail) position
  exact ⟨token, _, hlexeme, hspelling ▸ htokens⟩

/-- Tokens that are laid out with blanks between them are scanned one after another. -/
theorem LaidOut.lexemes_tokensFrom {lexemes : List Lexeme} {text : List Char}
    (h : LaidOut lexemes text) (hprint : ∀ lexeme ∈ lexemes, lexeme.Printable)
    (position : Position) : (tokensFrom 0 position text).map Token.lexeme = lexemes := by
  induction h generalizing position with
  | nil => rfl
  | last lexeme =>
    obtain ⟨token, after, hlexeme, htokens⟩ :=
      tokensFrom_spelling (hprint lexeme List.mem_cons_self) atEdge_nil position
    rw [List.append_nil] at htokens
    rw [htokens, List.map_cons, hlexeme]
    rfl
  | @cons lexeme rest gap text hgap hblank hrest ih =>
    obtain ⟨token, after, hlexeme, htokens⟩ :=
      tokensFrom_spelling (hprint lexeme List.mem_cons_self) (atEdge_append hgap hblank) position
    rw [htokens, tokensFrom_blanks hblank, List.map_cons, hlexeme,
      ih fun other hother => hprint other (List.mem_cons_of_mem lexeme hother)]

/-! ## Close tags -/

/-- The scanner for the close tag passes over a piece of code that stands before a text. -/
def PassesOver (piece tail : List Char) : Prop :=
  splitCloseTag .code (piece ++ tail) =
    (splitCloseTag .code tail).map (splitCloseTag.prepend piece)

@[simp] theorem splitCloseTag.prepend_comp_prepend (first second : List Char) :
    prepend first ∘ prepend second = prepend (first ++ second) :=
  funext fun _ => by simp [prepend]

theorem passesOver_nil (tail : List Char) : PassesOver [] tail := by
  unfold PassesOver
  rw [List.nil_append]
  cases splitCloseTag .code tail <;> rfl

/-- One piece after another is passed over; what comes after the first one is the second and the
    rest. -/
theorem PassesOver.append {first second tail : List Char}
    (hfirst : PassesOver first (second ++ tail)) (hsecond : PassesOver second tail) :
    PassesOver (first ++ second) tail := by
  rw [PassesOver, List.append_assoc, hfirst, hsecond, Option.map_map,
    splitCloseTag.prepend_comp_prepend]

/-- There is a close tag in a text only if there is one in what comes after a piece that is passed
    over. -/
theorem PassesOver.eq_none {piece tail : List Char} (h : PassesOver piece tail)
    (htail : splitCloseTag .code tail = none) : splitCloseTag .code (piece ++ tail) = none := by
  rw [h, htail]
  rfl

/-- What makes a slash before a text start no comment, and a question mark no close tag. -/
def StaysApart (c : Char) (tail : List Char) : Prop :=
  ∀ d ∈ tail.head?, (c = '/' → d ∉ ['*', '/']) ∧ (c = '?' → d ≠ '>')

/-- A character that opens neither a string nor a comment, and is not half of a close tag, is passed
    over. -/
theorem passesOver_singleton {c : Char} {tail : List Char} (hc : c ∉ ['\'', '"', '#'])
    (hpair : StaysApart c tail) : PassesOver [c] tail := by
  simp only [List.mem_cons, List.not_mem_nil, or_false, not_or] at hc
  rw [PassesOver, List.singleton_append, splitCloseTag.eq_def]
  split
  · rename_i heq
    cases heq
  · rename_i heq
    obtain ⟨rfl, rfl⟩ := List.cons.inj heq
    exact absurd ((hpair '*' rfl).1 rfl) (by decide)
  · rename_i heq
    obtain ⟨rfl, rfl⟩ := List.cons.inj heq
    exact absurd ((hpair '/' rfl).1 rfl) (by decide)
  · rename_i heq
    obtain ⟨rfl, rfl⟩ := List.cons.inj heq
    exact absurd ((hpair '>' rfl).2 rfl) (by decide)
  · rename_i heq
    obtain ⟨rfl, rfl⟩ := List.cons.inj heq
    simp [hc]
  all_goals contradiction

theorem passesOver_cons {c : Char} {rest tail : List Char} (hc : c ∉ ['\'', '"', '#'])
    (hpair : StaysApart c (rest ++ tail)) (hrest : PassesOver rest tail) :
    PassesOver (c :: rest) tail :=
  (passesOver_singleton hc hpair).append hrest

/-- Characters that start neither a close tag nor anything that hides one. -/
def isPlain (c : Char) : Bool :=
  !(c = '\'' || c = '"' || c = '#' || c = '/' || c = '?')

/-- A word of plain characters is passed over, whatever follows. -/
theorem passesOver_plain {word : List Char} (hword : word.all isPlain = true)
    (tail : List Char) : PassesOver word tail := by
  induction word with
  | nil => exact passesOver_nil tail
  | cons c rest ih =>
    rw [List.all_cons, Bool.and_eq_true] at hword
    obtain ⟨hc, hrest⟩ := hword
    simp only [isPlain, Bool.not_eq_true', Bool.or_eq_false_iff, decide_eq_false_iff_not] at hc
    refine passesOver_cons (by simp [hc]) (fun d _ => ?_) (ih hrest)
    exact ⟨fun heq => absurd heq hc.1.2, fun heq => absurd heq hc.2⟩

/-- Inside quotes a close tag is looked for only behind the quote that closes them. The induction is
    that of the scanner for this quote. -/
theorem splitCloseTag_quoted {quote : Char} {text : List Char} {size : Nat}
    (h : closingQuote? quote text = some size) (tail : List Char) :
    splitCloseTag (.quoted quote) (text ++ tail) =
      (splitCloseTag .code (text.drop size ++ tail)).map
        (splitCloseTag.prepend (text.take size)) := by
  induction text using closingQuote?.induct quote generalizing size with
  | case1 => cases h
  | case2 rest =>
    rw [closingQuote?.eq_def] at h
    simp only [if_true, Option.some.injEq] at h
    subst h
    simp [splitCloseTag]
  | case3 hquote =>
    rw [closingQuote?.eq_def] at h
    simp [hquote] at h
  | case4 c rest hquote ih =>
    rw [closingQuote?.eq_def] at h
    simp only [hquote, if_true, if_false, Option.map_eq_some_iff] at h
    obtain ⟨inner, hinner, rfl⟩ := h
    simp [splitCloseTag, hquote, ih hinner]
  | case5 c rest hquote hbackslash ih =>
    rw [closingQuote?.eq_def] at h
    simp only [hquote, hbackslash, if_false, Option.map_eq_some_iff] at h
    obtain ⟨inner, hinner, rfl⟩ := h
    simp [splitCloseTag, hquote, hbackslash, ih hinner]

/-- A quoted string is passed over as a whole. -/
theorem passesOver_string {quote : Char} {text : List Char} {size : Nat}
    (hquote : quote = '"' ∨ quote = '\'') (h : closingQuote? quote text = some size)
    (tail : List Char) : PassesOver (quote :: text.take size) (text.drop size ++ tail) := by
  have hopen : ∀ rest, splitCloseTag .code (quote :: rest) =
      (splitCloseTag (.quoted quote) rest).map (splitCloseTag.prepend [quote]) := by
    rcases hquote with rfl | rfl <;> exact fun rest => rfl
  rw [PassesOver, List.cons_append, hopen, ← List.append_assoc, List.take_append_drop,
    splitCloseTag_quoted h, Option.map_map, splitCloseTag.prepend_comp_prepend]
  rfl

theorem AtEdge.staysApart {tail : List Char} (h : AtEdge tail) (c : Char) : StaysApart c tail := by
  intro d hd
  rcases eq_of_isTokenBlank (h d hd) with rfl | rfl | rfl | rfl | rfl <;>
    exact ⟨fun _ => by decide, fun _ => by decide⟩

/-- A slash or a question mark before a blank or an equals sign is passed over. -/
theorem passesOver_alone {c : Char} {rest tail : List Char} (hc : c ∉ ['\'', '"', '#'])
    (hrest : rest = [] ∨ rest = ['=']) (htail : rest = [] → StaysApart c tail) :
    PassesOver (c :: rest) tail := by
  rcases hrest with rfl | rfl
  · exact passesOver_singleton hc (htail rfl)
  · refine passesOver_cons hc ?_ (passesOver_plain (by decide) tail)
    rintro d ⟨⟩
    exact ⟨fun _ => by decide, fun _ => by decide⟩

theorem passesOver_coalesce {rest tail : List Char} (hrest : rest = [] ∨ rest = ['='])
    (htail : rest = [] → StaysApart '?' tail) : PassesOver ('?' :: '?' :: rest) tail := by
  refine passesOver_cons (by decide) ?_ (passesOver_alone (by decide) hrest htail)
  rintro d ⟨⟩
  decide

theorem isPlain_of_class {p : Char → Bool} {c : Char}
    (hmarks : (['\'', '"', '#', '/', '?'].all fun mark => !p mark) = true) (h : p c = true) :
    isPlain c = true := by
  have hc : c ∉ ['\'', '"', '#', '/', '?'] := by
    intro hmem
    simpa [h] using List.all_eq_true.mp hmarks c hmem
  simpa [isPlain, and_assoc] using hc

theorem isPlain_of_isNamePart {c : Char} (h : isNamePart c = true) : isPlain c = true :=
  isPlain_of_class (by decide) h

theorem isPlain_of_isTokenBlank {c : Char} (h : isTokenBlank c = true) : isPlain c = true :=
  isPlain_of_class (by decide) h

theorem passesOver_name {name : List Char} (hname : ∀ c ∈ name, isNamePart c)
    (tail : List Char) : PassesOver name tail :=
  passesOver_plain (List.all_eq_true.mpr fun c hc => isPlain_of_isNamePart (hname c hc)) tail

theorem IsName.isNamePart {name : String} (h : IsName name) : ∀ c ∈ name.toList, isNamePart c := by
  obtain ⟨first, rest, hlist, hfirst, hrest⟩ := h
  rw [hlist]
  exact List.forall_mem_cons.mpr ⟨isNamePart_iff.mpr (.inl hfirst), hrest⟩

/-- All printable tokens are passed over, one kind after another. -/
theorem passesOver_spelling {lexeme : Lexeme} {tail : List Char} (h : lexeme.Printable)
    (hedge : AtEdge tail) : PassesOver lexeme.spelling tail := by
  cases lexeme with
  | «variable» name =>
    exact passesOver_cons (by decide) (fun _ _ => ⟨nofun, nofun⟩)
      (passesOver_name (IsName.isNamePart h) tail)
  | identifier name => exact passesOver_name h.1.isNamePart tail
  | int text => exact passesOver_name (fun c hc => isNamePart_iff.mpr (.inr (h.2 c hc))) tail
  | float text => exact h.elim
  | single raw =>
    obtain ⟨text, rfl⟩ := h
    have hstring := passesOver_string (.inr rfl) ((keepsOpen_escapeSingle text).closes []) tail
    simpa [Lexeme.spelling, List.take_of_length_le, List.drop_of_length_le] using hstring
  | double raw => exact h.elim
  | keyword word => cases word <;> exact passesOver_plain (by decide) tail
  | require once fatal => cases once <;> cases fatal <;> exact passesOver_plain (by decide) tail
  | binary op =>
    cases op with
    | div => exact passesOver_alone (by decide) (.inl rfl) fun _ => hedge.staysApart _
    | coalesce => exact passesOver_coalesce (.inl rfl) fun _ => hedge.staysApart _
    | _ => exact passesOver_plain (by decide) tail
  | unary op => cases op <;> exact passesOver_plain (by decide) tail
  | sign minus => cases minus <;> exact passesOver_plain (by decide) tail
  | compound op =>
    cases op with
    | div => exact passesOver_alone (by decide) (.inr rfl) nofun
    | coalesce => exact passesOver_coalesce (.inr rfl) nofun
    | _ => exact passesOver_plain (by decide) tail
  | stray c => exact h.elim
  | _ => exact passesOver_plain (by decide) tail

/-- There is no close tag in a text that lays printable tokens out. -/
theorem LaidOut.splitCloseTag_eq_none {lexemes : List Lexeme} {text : List Char}
    (h : LaidOut lexemes text) (hprint : ∀ lexeme ∈ lexemes, lexeme.Printable) :
    splitCloseTag .code text = none := by
  induction h with
  | nil => rfl
  | last lexeme =>
    have hspelling :=
      (passesOver_spelling (hprint lexeme List.mem_cons_self) atEdge_nil).eq_none rfl
    rwa [List.append_nil] at hspelling
  | @cons lexeme rest gap text hgap hblank hrest ih =>
    have hplain : gap.all isPlain = true :=
      List.all_eq_true.mpr fun c hc => isPlain_of_isTokenBlank (hblank c hc)
    have htext := ih fun other hother => hprint other (List.mem_cons_of_mem lexeme hother)
    have hafter := (passesOver_plain hplain text).eq_none htext
    have hlexeme := hprint lexeme List.mem_cons_self
    exact (passesOver_spelling hlexeme (atEdge_append ‹_› hblank)).eq_none hafter

/-- Code without a close tag, after an open tag, is the whole text; the open tag becomes as many
    blanks. -/
theorem expandTags_openTag {text : List Char} (h : splitCloseTag .code text = none) :
    expandTags (['<', '?', 'p', 'h', 'p', ' '] ++ text) = List.replicate 6 ' ' ++ text := by
  have hopen : splitOpenTag (['<', '?', 'p', 'h', 'p', ' '] ++ text) =
      some ([], ['<', '?', 'p', 'h', 'p', ' '], text) := rfl
  have hcode : codeText (codeSegments text) = text := by
    by_cases hempty : text = []
    · rw [hempty, codeSegments_nil]
      rfl
    · rw [codeSegments_unclosed hempty h]
      exact List.append_nil text
  rw [expandTags, segments_of_openTag hopen]
  show _ ++ (_ ++ codeText (codeSegments text)) = _
  rw [hcode]
  rfl

/-- The tokens of a text that lays printable tokens out after an open tag are just these. -/
theorem LaidOut.lexemes_tokens {lexemes : List Lexeme} {text : List Char}
    (h : LaidOut lexemes text) (hprint : ∀ lexeme ∈ lexemes, lexeme.Printable) :
    (tokens (expandTags (['<', '?', 'p', 'h', 'p', ' '] ++ text))).map Token.lexeme = lexemes := by
  rw [expandTags_openTag (h.splitCloseTag_eq_none hprint), tokens,
    tokensFrom_blanks fun c hc => List.eq_of_mem_replicate hc ▸ rfl]
  exact h.lexemes_tokensFrom hprint _

end WebScript
