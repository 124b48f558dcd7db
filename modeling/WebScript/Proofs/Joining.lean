import WebScript.Proofs.Lines
import WebScript.Proofs.Spelling

/-!
# Texts that are put together

A line break ends everything that can stand at the end of a text, except a string without a closing
quote and a block comment without an end. These leave traces in the tokens: a stray quote, or a
slash before a star. A text whose tokens show none of them (`WellJoined`) has the same tokens
whatever stands on the lines after it, and these lines have their own tokens
(`tokensFrom_lineBreak`). A semicolon does the same (`tokensFrom_stop`), except at the end of a line
comment; `partsFrom` tells which characters belong to one.
-/

namespace WebScript

/-! ## Tags -/

/-- A character that is in no open tag does not make one of the text before it. -/
theorem openTag?_append {stop : Char} (hstop : stop ∉ ['?', 'p', 'P', 'h', 'H']) {c : Char}
    {rest : List Char} (h : openTag? (c :: rest) = none) (more : List Char) :
    openTag? (c :: rest ++ stop :: more) = none := by
  simp only [List.mem_cons, List.not_mem_nil, or_false, not_or] at hstop
  rw [openTag?.eq_def]
  split
  · rename_i first second third after heq
    split
    · rename_i hletters
      have hne : stop ≠ first ∧ stop ≠ second ∧ stop ≠ third := by
        refine ⟨?_, ?_, ?_⟩
        all_goals
          rintro rfl
          simp [hstop] at hletters
      rcases rest with _ | ⟨a, _ | ⟨b, _ | ⟨d, _ | ⟨e, rest⟩⟩⟩⟩
      all_goals simp only [List.cons_append, List.nil_append, List.cons.injEq] at heq
      case cons.cons.cons.cons =>
        obtain ⟨rfl, rfl, rfl, rfl, rfl, rfl⟩ := heq
        cases rest with
        | nil => simp [openTag?, hletters] at h
        | cons f rest => simpa [openTag?, hletters] using h
      all_goals simp [hstop, hne] at heq
    · rfl
  · rfl

theorem splitOpenTag_eq_none_cons {c : Char} {rest : List Char} :
    splitOpenTag (c :: rest) = none ↔ openTag? (c :: rest) = none ∧ splitOpenTag rest = none := by
  rw [splitOpenTag]
  cases openTag? (c :: rest) <;> simp

/-- The first open tag of a text stays the first one behind a text without any. -/
theorem splitOpenTag_append {text more : List Char} {stop : Char}
    (hstop : stop ∉ ['?', 'p', 'P', 'h', 'H']) (h : splitOpenTag text = none) :
    splitOpenTag (text ++ stop :: more) =
      (splitOpenTag (stop :: more)).map
        fun (before, tag, after) => (text ++ before, tag, after) := by
  induction text with
  | nil =>
    show _ = Option.map id _
    rw [Option.map_id_fun, id_eq]
    rfl
  | cons c rest ih =>
    obtain ⟨hopen, hrest⟩ := splitOpenTag_eq_none_cons.mp h
    rw [List.cons_append, splitOpenTag, ← List.cons_append, openTag?_append hstop hopen, ih hrest,
      Option.map_map]
    rfl

/-- A line break between two texts without an open tag makes none. -/
theorem splitOpenTag_lineBreak {text more : List Char} (h : splitOpenTag text = none)
    (hmore : splitOpenTag more = none) : splitOpenTag (text ++ '\n' :: more) = none := by
  have hbreak : splitOpenTag ('\n' :: more) = none := splitOpenTag_eq_none_cons.mpr ⟨rfl, hmore⟩
  rw [splitOpenTag_append (by decide) h, hbreak]
  rfl

/-! ## Measures that a character stops -/

/-- A character that no token goes on with, strings and comments apart. -/
structure EndsTokens (stop : Char) : Prop where
  digit : isDecimalDigit stop = false
  name : isNamePart stop = false
  other : stop ∉ ['.', '+', '-', '*', '/']
  symbol : (symbols.all fun entry => !entry.1.tail.contains stop) = true

/-- A line break belongs to no token of more than one character. -/
theorem endsTokens_lineBreak : EndsTokens '\n' := by
  constructor <;> decide

/-- A semicolon belongs to no token of more than one character. -/
theorem endsTokens_semicolon : EndsTokens ';' := by
  constructor <;> decide

namespace EndsTokens

variable {stop : Char} (hstop : EndsTokens stop)

include hstop

/-- What ends tokens is no part of a name. -/
theorem ne_of_name {c : Char} (hc : isNamePart c = true) : stop ≠ c := by
  rintro rfl
  exact Bool.false_ne_true (hstop.name.symm.trans hc)

/-- What ends tokens is none of the marks inside numbers and comments. -/
theorem ne_of_other {c : Char} (hc : c ∈ ['.', '+', '-', '*', '/']) : stop ≠ c := by
  rintro rfl
  exact hstop.other hc

/-- What ends tokens is a digit in no base. -/
theorem announced {letter : Char} {isDigit : Char → Bool}
    (h : announcedDigits letter = some isDigit) : isDigit stop = false :=
  Bool.of_not_eq_true fun hdigit =>
    hstop.ne_of_name ((isNamePart_of_announcedDigits h).2 stop hdigit) rfl

theorem announcedDigits_eq_none : announcedDigits stop = none :=
  Option.eq_none_iff_forall_ne_some.mpr fun _ h =>
    hstop.ne_of_name (isNamePart_of_announcedDigits h).1 rfl

end EndsTokens

/-- A measure of what stands at the start of a text that sees nothing from a character on which is
    added to the text. -/
def StopsAt (stop : Char) (size : List Char → Nat) : Prop :=
  ∀ text, size text ≤ text.length ∧ ∀ more, size (text ++ stop :: more) = size text

/-- What is left after a measure that a character stops is what was left without it, and the
    rest. -/
theorem StopsAt.drop_append {stop : Char} {size : List Char → Nat} (h : StopsAt stop size)
    (text more : List Char) : (text ++ more).drop (size text) = text.drop (size text) ++ more :=
  List.drop_append_of_le_length (h text).1

section

variable {stop : Char} (hstop : EndsTokens stop)

include hstop

/-- A row of digits stops at what is no digit. -/
theorem stopsAt_digitTail {isDigit : Char → Bool} (hdigit : isDigit stop = false) :
    StopsAt stop (digitTail isDigit) := by
  have hunderscore := hstop.ne_of_name (c := '_') rfl
  intro text
  induction text using digitTail.induct isDigit with
  | case1 =>
    exact ⟨Nat.le_refl 0, fun more => by simp [digitTail_cons, digitTail, hdigit, hunderscore]⟩
  | case2 c rest hc ih =>
    refine ⟨?_, fun more => ?_⟩
    · simp only [digitTail_cons, hc, if_true, List.length_cons]
      omega
    · simp only [List.cons_append, digitTail_cons, hc, if_true, ih.2]
  | case3 d after hd hmark ih =>
    refine ⟨?_, fun more => ?_⟩
    · simp only [digitTail_cons, hd, hmark, if_true, List.length_cons]
      simp only [Bool.false_eq_true, if_false]
      omega
    · simp [digitTail_cons, hd, hmark, ih.2]
  | case4 d after hd hmark => simp [digitTail_cons, hd, hmark]
  | case5 hmark => simp [digitTail_cons, hmark, hdigit]
  | case6 c rest hc hmark => simp [digitTail_cons, hc, hmark]

theorem stopsAt_digitRun {isDigit : Char → Bool} (hdigit : isDigit stop = false) :
    StopsAt stop (digitRun isDigit) := by
  intro text
  cases text with
  | nil => simp [digitRun, hdigit]
  | cons c rest =>
    have htail := stopsAt_digitTail hstop hdigit rest
    cases hc : isDigit c with
    | false => simp [digitRun, hc]
    | true =>
      refine ⟨?_, fun more => ?_⟩
      · simp only [digitRun, hc, if_true, List.length_cons]
        omega
      · simp only [List.cons_append, digitRun, hc, if_true, htail.2]

theorem stopsAt_decimal : StopsAt stop (digitRun isDecimalDigit) :=
  stopsAt_digitRun hstop hstop.digit

end

/-- The length of the sign at the start of a text. -/
def signLength : List Char → Nat
  | c :: _ => if c = '+' || c = '-' then 1 else 0
  | [] => 0

/-- A sign before an exponent is measured up to the character. -/
theorem stopsAt_signLength {stop : Char} (hstop : EndsTokens stop) : StopsAt stop signLength := by
  have hplus := hstop.ne_of_other (c := '+') (by decide)
  have hminus := hstop.ne_of_other (c := '-') (by decide)
  intro text
  cases text with
  | nil => exact ⟨Nat.le_refl 0, fun more => by simp [signLength, hplus, hminus]⟩
  | cons c rest =>
    refine ⟨?_, fun more => rfl⟩
    simp only [signLength, List.length_cons]
    split <;> omega

theorem exponentLength_cons (mark : Char) (rest : List Char) :
    exponentLength (mark :: rest) =
      if mark = 'e' || mark = 'E' then
        match digitRun isDecimalDigit (rest.drop (signLength rest)) with
        | 0 => 0
        | digits => 1 + signLength rest + digits
      else 0 := by
  cases rest <;> rfl

/-- The length of the float that has a number of digits before a text, which starts with a point. -/
def pointLength (whole : Nat) : List Char → Nat
  | '.' :: afterPoint =>
    let fraction := digitRun isDecimalDigit afterPoint
    if whole = 0 && fraction = 0 then 0
    else whole + 1 + fraction + exponentLength (afterPoint.drop fraction)
  | _ => 0

theorem floatLength_eq (text : List Char) :
    floatLength text =
      let whole := digitRun isDecimalDigit text
      let exponent := if whole = 0 then 0 else exponentLength (text.drop whole)
      if exponent ≠ 0 then whole + exponent else pointLength whole (text.drop whole) := rfl

/-- The length of the digits of the notation that the letter after a zero announces. -/
def announcedLength : List Char → Nat
  | '0' :: letter :: digits =>
    match announcedDigits letter with
    | some isDigit => digitRun isDigit digits
    | none => 0
  | _ => 0

theorem intLength_eq (text : List Char) :
    intLength text =
      if announcedLength text ≠ 0 then 2 + announcedLength text
      else digitRun isDecimalDigit text := rfl

section

variable {stop : Char} (hstop : EndsTokens stop)

include hstop

/-- An exponent stops at a character that ends tokens. -/
theorem stopsAt_exponentLength : StopsAt stop exponentLength := by
  intro text
  cases text with
  | nil =>
    have hsmall := hstop.ne_of_name (c := 'e') rfl
    have hcapital := hstop.ne_of_name (c := 'E') rfl
    exact ⟨Nat.le_refl 0, fun more => by
      rw [List.nil_append, exponentLength_cons]
      simp [hsmall, hcapital, exponentLength]⟩
  | cons mark rest =>
    have hsign := stopsAt_signLength hstop rest
    have hdigits := stopsAt_decimal hstop (rest.drop (signLength rest))
    refine ⟨?_, fun more => ?_⟩
    · rw [exponentLength_cons]
      rw [List.length_drop] at hdigits
      split
      · split
        · omega
        · show 1 + signLength rest + digitRun isDecimalDigit (rest.drop (signLength rest)) ≤ _
          rw [List.length_cons]
          omega
      · omega
    · rw [List.cons_append, exponentLength_cons, exponentLength_cons, hsign.2,
        (stopsAt_signLength hstop).drop_append, hdigits.2]

theorem pointLength_le (whole : Nat) (text : List Char) :
    pointLength whole text ≤ whole + text.length := by
  unfold pointLength
  split
  · rename_i afterPoint
    have hfraction := (stopsAt_decimal hstop afterPoint).1
    have hexponent := (stopsAt_exponentLength hstop
      (afterPoint.drop (digitRun isDecimalDigit afterPoint))).1
    rw [List.length_drop] at hexponent
    simp only [List.length_cons]
    split <;> omega
  · omega

/-- What stands behind a point is measured up to the character. -/
theorem pointLength_stop (whole : Nat) (text more : List Char) :
    pointLength whole (text ++ stop :: more) = pointLength whole text := by
  cases text with
  | nil => simp [pointLength, hstop.ne_of_other (c := '.') (by decide)]
  | cons c afterPoint =>
    by_cases hc : c = '.'
    · subst hc
      simp only [List.cons_append, pointLength, (stopsAt_decimal hstop afterPoint).2,
        (stopsAt_decimal hstop).drop_append, (stopsAt_exponentLength hstop _).2]
    · simp [pointLength, hc]

/-- A float stops at a character that ends tokens. -/
theorem stopsAt_floatLength : StopsAt stop floatLength := by
  intro text
  have hwhole := stopsAt_decimal hstop text
  have hexponent := stopsAt_exponentLength hstop (text.drop (digitRun isDecimalDigit text))
  refine ⟨?_, fun more => ?_⟩
  · have hpoint := pointLength_le hstop (digitRun isDecimalDigit text)
      (text.drop (digitRun isDecimalDigit text))
    rw [List.length_drop] at hpoint hexponent
    simp only [floatLength_eq]
    generalize exponentLength _ = exponent at hexponent ⊢
    split <;> split <;> omega
  · simp only [floatLength_eq, hwhole.2, (stopsAt_decimal hstop).drop_append, hexponent.2,
      pointLength_stop hstop]

theorem announcedLength_le {text : List Char} (h : announcedLength text ≠ 0) :
    2 + announcedLength text ≤ text.length := by
  unfold announcedLength at h ⊢
  split at h
  · rename_i letter digits
    split at h
    · rename_i isDigit hletter
      have hsize := (stopsAt_digitRun hstop (hstop.announced hletter) digits).1
      simp only [List.length_cons]
      omega
    · exact absurd rfl h
  · exact absurd rfl h

theorem announcedLength_stop (text more : List Char) :
    announcedLength (text ++ stop :: more) = announcedLength text := by
  match text with
  | [] => simp [announcedLength, hstop.ne_of_name (c := '0') rfl]
  | [c] =>
    by_cases hc : c = '0'
    · subst hc
      simp [announcedLength, hstop.announcedDigits_eq_none]
    · simp [announcedLength, hc]
  | c :: letter :: digits =>
    by_cases hc : c = '0'
    · subst hc
      cases hletter : announcedDigits letter with
      | none => simp [announcedLength, hletter]
      | some isDigit =>
        have hdigits := stopsAt_digitRun hstop (hstop.announced hletter) digits
        simp [announcedLength, hletter, hdigits.2]
    · simp [announcedLength, hc]

/-- An integer stops at a character that ends tokens, in every base. -/
theorem stopsAt_intLength : StopsAt stop intLength := by
  intro text
  have hdigits := stopsAt_decimal hstop text
  refine ⟨?_, fun more => ?_⟩
  · rw [intLength_eq]
    split
    · exact announcedLength_le hstop ‹_›
    · exact hdigits.1
  · rw [intLength_eq, intLength_eq, announcedLength_stop hstop, hdigits.2]

/-- No symbol goes across a character that ends tokens. -/
theorem symbol?_stop (c : Char) (rest more : List Char) :
    symbol? (c :: rest ++ stop :: more) = symbol? (c :: rest) := by
  have hprefix : ∀ {pattern text : List Char}, stop ∉ pattern →
      pattern.isPrefixOf (text ++ stop :: more) = pattern.isPrefixOf text := by
    intro pattern
    induction pattern with
    | nil => simp
    | cons p pattern ih =>
      intro text hpattern
      obtain ⟨hne, hpattern⟩ := not_or.mp (List.mem_cons.not.mp hpattern)
      cases text with
      | nil => simp [List.isPrefixOf, Ne.symm hne]
      | cons d text => simp only [List.cons_append, List.isPrefixOf, ih hpattern]
  have hfind : (symbols.find? fun entry => entry.1.isPrefixOf (c :: rest ++ stop :: more)) =
      symbols.find? fun entry => entry.1.isPrefixOf (c :: rest) := by
    refine List.find?_congr fun entry hentry => ?_
    have hsymbol := List.all_eq_true.mp hstop.symbol entry hentry
    obtain ⟨pattern, lexeme⟩ := entry
    cases pattern with
    | nil => simp
    | cons first others =>
      have hothers : stop ∉ others := by simpa using hsymbol
      simp only [List.cons_append, List.isPrefixOf, hprefix hothers]
  rw [symbol?, symbol?, hfind]

end

/-! ## Strings, comments, words and symbols -/

/-- A quote that closes a string closes it in every longer text. -/
theorem closingQuote?_append {quote : Char} {text : List Char} {size : Nat}
    (h : closingQuote? quote text = some size) (more : List Char) :
    size ≤ text.length ∧ closingQuote? quote (text ++ more) = some size := by
  induction text using closingQuote?.induct quote generalizing size with
  | case1 => cases h
  | case2 rest =>
    simp only [closingQuote?_cons, if_true, Option.some.injEq] at h
    subst h
    exact ⟨by simp, by simp [closingQuote?_cons]⟩
  | case3 hquote => simp [closingQuote?_cons, hquote] at h
  | case4 c rest hquote ih =>
    simp only [closingQuote?_cons, hquote, if_true, if_false, Option.map_eq_some_iff] at h
    obtain ⟨inner, hinner, rfl⟩ := h
    obtain ⟨hle, hmore⟩ := ih hinner
    refine ⟨?_, by simp [closingQuote?_cons, hquote, hmore]⟩
    simp only [List.length_cons]
    omega
  | case5 c rest hquote hbackslash ih =>
    simp only [closingQuote?_cons, hquote, hbackslash, if_false, Option.map_eq_some_iff] at h
    obtain ⟨inner, hinner, rfl⟩ := h
    obtain ⟨hle, hmore⟩ := ih hinner
    refine ⟨?_, by simp [closingQuote?_cons, hquote, hbackslash, hmore]⟩
    simp only [List.length_cons]
    omega

/-- The end of a comment is its end in every longer text. -/
theorem commentEnd?_append {text : List Char} {size : Nat} (h : commentEnd? text = some size)
    (more : List Char) : size ≤ text.length ∧ commentEnd? (text ++ more) = some size := by
  induction text using commentEnd?.induct generalizing size with
  | case1 rest =>
    cases h
    exact ⟨by simp, rfl⟩
  | case2 c rest hstart ih =>
    rw [commentEnd?.eq_2 c rest hstart] at h
    obtain ⟨inner, hinner, rfl⟩ := Option.map_eq_some_iff.mp h
    obtain ⟨hle, hmore⟩ := ih hinner
    refine ⟨by rw [List.length_cons]; omega, ?_⟩
    -- The rest is not empty, so what is added to it cannot make an end of its first character.
    cases rest with
    | nil => cases hinner
    | cons d after =>
      have hstarts : ∀ tail, c = '*' → d :: after ++ more = '/' :: tail → False := by
        intro tail hc hd
        obtain ⟨rfl, -⟩ := List.cons.inj hd
        exact hstart after hc rfl
      rw [List.cons_append, commentEnd?.eq_2 c _ hstarts, hmore]
      rfl
  | case3 => cases h

/-- What is taken of a text ends before a character that does not belong to it. -/
theorem takeWhile_stop {p : Char → Bool} {stop : Char} {text : List Char}
    (h : p stop = false ∨ ∃ c ∈ text, p c = false) (more : List Char) :
    (text ++ stop :: more).takeWhile p = text.takeWhile p := by
  induction text with
  | nil =>
    have hstop : p stop = false := by simpa using h
    simp [hstop]
  | cons c rest ih =>
    cases hc : p c with
    | false => simp [hc]
    | true =>
      have hrest : p stop = false ∨ ∃ c ∈ rest, p c = false := by simpa [hc] using h
      simp [hc, ih hrest]

theorem length_takeWhile_le (p : Char → Bool) (text : List Char) :
    (text.takeWhile p).length ≤ text.length :=
  (List.takeWhile_prefix p).length_le

/-- A symbol that is found is one of the table and stands at the start of the text. -/
theorem symbol?_cons_eq_some {c : Char} {rest : List Char} {lexeme : Lexeme} {size : Nat}
    (h : symbol? (c :: rest) = some (lexeme, size)) :
    ∃ others tail, (c :: others, lexeme) ∈ symbols ∧ rest = others ++ tail ∧
      size = others.length + 1 := by
  have hnonempty : ∀ entry ∈ symbols, entry.1 ≠ [] := by decide
  obtain ⟨⟨chars, found⟩, hentry, heq⟩ := Option.map_eq_some_iff.mp h
  cases heq
  have hmember := List.mem_of_find?_eq_some hentry
  have hprefix : chars <+: c :: rest := by simpa using List.find?_some hentry
  obtain ⟨first, others, rfl⟩ := List.exists_cons_of_ne_nil (hnonempty _ hmember)
  obtain ⟨rfl, tail, rfl⟩ := List.cons_prefix_cons.mp hprefix
  exact ⟨others, tail, hmember, rfl, rfl⟩

/-! ## Scanning -/

/-- The length of a string after the quote that opens it. -/
def stringSize? (c : Char) (rest : List Char) : Option Nat :=
  if c = '"' || c = '\'' then closingQuote? c rest else none

/-- The length of a block comment after the slash that opens it. -/
def commentSize? (c : Char) (rest : List Char) : Option Nat :=
  if c = '/' then blockComment? rest else none

/-- Whether a line comment starts at a character. -/
def startsLineComment (c : Char) (rest : List Char) : Bool :=
  c = '#' || (c = '/' && rest.head? == some '/')

/-- A string that is closed has its size in every longer text. -/
theorem stringSize?_append {c : Char} {rest : List Char} {size : Nat}
    (h : stringSize? c rest = some size) (more : List Char) :
    size ≤ rest.length ∧ stringSize? c (rest ++ more) = some size := by
  unfold stringSize? at h ⊢
  split at h
  · rw [if_pos ‹_›]
    exact closingQuote?_append h more
  · cases h

/-- A comment that is closed has its size in every longer text. -/
theorem commentSize?_append {c : Char} {rest : List Char} {size : Nat}
    (h : commentSize? c rest = some size) (more : List Char) :
    size ≤ rest.length ∧ commentSize? c (rest ++ more) = some size := by
  unfold commentSize? at h ⊢
  split at h
  · rw [if_pos ‹_›]
    unfold blockComment? at h
    split at h
    · rename_i inner
      obtain ⟨found, hfound, rfl⟩ := Option.map_eq_some_iff.mp h
      obtain ⟨hle, hmore⟩ := commentEnd?_append hfound more
      refine ⟨?_, by simp [blockComment?, hmore]⟩
      rw [List.length_cons]
      omega
    · cases h
  · cases h

/-- The kinds of tokens, in the order in which they are tried. -/
theorem scan_eq (c : Char) (rest : List Char) :
    scan c rest =
      if floatLength (c :: rest) ≠ 0 then
        (some (.float ((c :: rest).take (floatLength (c :: rest)))), floatLength (c :: rest) - 1)
      else if intLength (c :: rest) ≠ 0 then
        (some (.int ((c :: rest).take (intLength (c :: rest)))), intLength (c :: rest) - 1)
      else if c = '$' && rest.head?.any isNameStart then
        (some (.variable (String.ofList (rest.takeWhile isNamePart))),
          (rest.takeWhile isNamePart).length)
      else if isNameStart c then
        (some (wordLexeme (c :: rest.takeWhile isNamePart)), (rest.takeWhile isNamePart).length)
      else
        match stringSize? c rest with
        | some size =>
          (some (if c = '"' then .double (rest.take (size - 1))
            else .single (rest.take (size - 1))), size)
        | none =>
          match commentSize? c rest with
          | some size => (none, size)
          | none =>
            if startsLineComment c rest then (none, (rest.takeWhile (· ≠ '\n')).length)
            else if isTokenBlank c then (none, 0)
            else
              match symbol? (c :: rest) with
              | some (lexeme, size) => (some lexeme, size - 1)
              | none => (some (.stray c), 0) := rfl

/-- No token is longer than the text. -/
theorem scan_size_le (c : Char) (rest : List Char) : (scan c rest).2 ≤ rest.length := by
  have hfloat := (stopsAt_floatLength endsTokens_lineBreak (c :: rest)).1
  have hint := (stopsAt_intLength endsTokens_lineBreak (c :: rest)).1
  rw [List.length_cons] at hfloat hint
  rw [scan_eq]
  split
  · show floatLength (c :: rest) - 1 ≤ _
    omega
  split
  · show intLength (c :: rest) - 1 ≤ _
    omega
  split
  · exact length_takeWhile_le isNamePart rest
  split
  · exact length_takeWhile_le isNamePart rest
  split
  · exact (stringSize?_append ‹_› []).1
  split
  · exact (commentSize?_append ‹_› []).1
  split
  · exact length_takeWhile_le _ rest
  split
  · exact Nat.zero_le _
  split
  · obtain ⟨others, tail, -, rfl, rfl⟩ := symbol?_cons_eq_some ‹_›
    simp
  · exact Nat.zero_le _

/-- A string or a block comment that starts at a character also ends. -/
structure Closes (c : Char) (rest : List Char) : Prop where
  quote : c = '"' ∨ c = '\'' → closingQuote? c rest ≠ none
  comment : ∀ inner, c = '/' → rest = '*' :: inner → commentEnd? inner ≠ none

/-- A character that ends tokens is not seen by what starts before it, unless that is a string, a
    block comment or a line comment that goes on. -/
theorem scan_stop {stop : Char} (hstop : EndsTokens stop) {c : Char} {rest : List Char}
    (hcloses : Closes c rest) (hline : startsLineComment c rest = true → stop = '\n' ∨ '\n' ∈ rest)
    (more : List Char) : scan c (rest ++ stop :: more) = scan c rest := by
  have hfloat := stopsAt_floatLength hstop (c :: rest)
  have hint := stopsAt_intLength hstop (c :: rest)
  have hstring : stringSize? c (rest ++ stop :: more) = stringSize? c rest := by
    unfold stringSize?
    split
    · rename_i hc
      obtain ⟨size, hsize⟩ := Option.ne_none_iff_exists'.mp (hcloses.quote (by simpa using hc))
      rw [hsize, (closingQuote?_append hsize _).2]
    · rfl
  have hblock : commentSize? c (rest ++ stop :: more) = commentSize? c rest := by
    unfold commentSize?
    split
    · rename_i hc
      cases rest with
      | nil => simp [blockComment?, hstop.ne_of_other (c := '*') (by decide)]
      | cons d inner =>
        by_cases hd : d = '*'
        · subst hd
          obtain ⟨size, hsize⟩ :=
            Option.ne_none_iff_exists'.mp (hcloses.comment inner hc rfl)
          simp only [List.cons_append, blockComment?, hsize, (commentEnd?_append hsize _).2]
        · simp [blockComment?, hd]
    · rfl
  have hstarts : startsLineComment c (rest ++ stop :: more) = startsLineComment c rest := by
    unfold startsLineComment
    cases rest with
    | nil => simp [hstop.ne_of_other (c := '/') (by decide)]
    | cons d inner => rfl
  have hname : (rest ++ stop :: more).takeWhile isNamePart = rest.takeWhile isNamePart :=
    takeWhile_stop (.inl hstop.name) more
  have hstart : (rest ++ stop :: more).head?.any isNameStart = rest.head?.any isNameStart := by
    have hnot : isNameStart stop = false :=
      Bool.of_not_eq_true fun h =>
        Bool.false_ne_true (hstop.name.symm.trans (isNamePart_iff.mpr (.inl h)))
    cases rest with
    | nil => simpa using hnot
    | cons d inner => rfl
  have hsymbol := symbol?_stop hstop c rest more
  rw [scan_eq, scan_eq]
  simp only [← List.cons_append, hfloat.2, hint.2, List.take_append_of_le_length hfloat.1,
    List.take_append_of_le_length hint.1, hstart, hname, hstring, hblock, hstarts, hsymbol]
  have htake : startsLineComment c rest = true →
      (rest ++ stop :: more).takeWhile (· ≠ '\n') = rest.takeWhile (· ≠ '\n') := by
    intro h
    refine takeWhile_stop ((hline h).imp (fun h => ?_) fun h => ⟨'\n', h, by decide⟩) more
    subst h
    decide
  cases hsize : stringSize? c rest with
  | none =>
    cases hcase : startsLineComment c rest with
    | true => simp only [htake hcase]
    | false => rfl
  | some size =>
    have hle := (stringSize?_append hsize []).1
    simp only [List.take_append_of_le_length (Nat.le_trans (Nat.sub_le size 1) hle)]

/-- A line comment goes up to the end of its line. -/
theorem scan_startsLineComment {c : Char} {rest : List Char} (h : startsLineComment c rest = true) :
    scan c rest = (none, (rest.takeWhile (· ≠ '\n')).length) := by
  have hc : c = '#' ∨ c = '/' ∧ ∃ inner, rest = '/' :: inner := by
    have hstart : c = '#' ∨ c = '/' ∧ rest.head? = some '/' := by
      simpa [startsLineComment] using h
    exact hstart.imp id fun hslash => ⟨hslash.1, List.head?_eq_some_iff.mp hslash.2⟩
  have hdigit : isDecimalDigit c = false := by
    rcases hc with rfl | ⟨rfl, -⟩ <;> decide
  have hpoint : c ≠ '.' := by
    rcases hc with rfl | ⟨rfl, -⟩ <;> decide
  have hblock : commentSize? c rest = none := by
    rcases hc with rfl | ⟨rfl, inner, rfl⟩ <;> rfl
  rw [scan_eq]
  simp only [floatLength_eq_zero hdigit fun hc => absurd hc hpoint, intLength_eq_zero hdigit,
    hblock, h]
  rcases hc with rfl | ⟨rfl, -⟩ <;> rfl

/-! ## Pieces of texts -/

/-- What holds of the empty text, and of a text whenever it holds of what follows the token, the
    comment or the blank that stands at its start, holds of all texts. -/
theorem scan_induction {motive : List Char → Prop} (nil : motive [])
    (piece : ∀ c rest, motive (rest.drop (scan c rest).2) → motive (c :: rest))
    (text : List Char) : motive text := by
  induction hlength : text.length using Nat.strongRecOn generalizing text with
  | ind length ih =>
    subst hlength
    cases text with
    | nil => exact nil
    | cons c rest =>
      refine piece c rest (ih _ ?_ _ rfl)
      rw [List.length_drop, List.length_cons]
      omega

/-- The token at the start of a text, if there is one. -/
def tokenAt (position : Position) (c : Char) (rest : List Char) : List Token :=
  match scan c rest with
  | (none, _) => []
  | (some lexeme, more) =>
    [⟨lexeme, String.ofList (c :: rest.take more), position.line, position.column⟩]

/-- The tokens of a text are that of its first piece and those of the rest. -/
theorem tokensFrom_piece (position : Position) (c : Char) (rest : List Char) :
    tokensFrom 0 position (c :: rest) =
      tokenAt position c rest ++
        tokensFrom 0 ((c :: rest.take (scan c rest).2).foldl Position.advance position)
          (rest.drop (scan c rest).2) := by
  have hsize := scan_size_le c rest
  have hskip : ∀ after, tokensFrom (scan c rest).2 after rest =
      tokensFrom 0 ((rest.take (scan c rest).2).foldl Position.advance after)
        (rest.drop (scan c rest).2) := by
    intro after
    have hsplit := tokensFrom_skip (rest.take (scan c rest).2) (rest.drop (scan c rest).2) after
    rwa [List.take_append_drop, List.length_take_of_le hsize] at hsplit
  unfold tokenAt
  rw [tokensFrom_cons, List.foldl_cons, ← hskip]
  cases scan c rest with
  | mk found size => cases found <;> rfl

/-- What a character of a text is part of. -/
inductive Part where
  | code
  | string
  | blockComment
  | lineComment
  deriving DecidableEq, Repr

/-- String literals. -/
def Lexeme.isString : Lexeme → Bool
  | .single _ | .double _ => true
  | _ => false

/-- What starts at a character. -/
def partAt (c : Char) (rest : List Char) : Part :=
  match (scan c rest).1 with
  | some lexeme => if lexeme.isString then .string else .code
  | none =>
    if startsLineComment c rest then .lineComment else if c = '/' then .blockComment else .code

/-- The characters of a text with what they are part of, where the first `skip` characters go on
    with `part`. -/
def partsFrom (skip : Nat) (part : Part) : List Char → List (Char × Part)
  | [] => []
  | c :: rest =>
    match skip with
    | skip + 1 => (c, part) :: partsFrom skip part rest
    | 0 => (c, partAt c rest) :: partsFrom (scan c rest).2 (partAt c rest) rest

/-- The characters of a text with what they are part of. -/
def parts (text : List Char) : List (Char × Part) := partsFrom 0 .code text

/-- Characters of an earlier piece belong to the part that the piece is. -/
theorem partsFrom_skip (skip : Nat) (part : Part) (text : List Char) :
    partsFrom skip part text = (text.take skip).map (·, part) ++ parts (text.drop skip) := by
  induction text generalizing skip with
  | nil => simp [partsFrom, parts]
  | cons c rest ih =>
    cases skip with
    | zero => rfl
    | succ skip => simp [partsFrom, ih]

/-- The parts of a text are those of its first piece and of the rest. -/
theorem parts_piece (c : Char) (rest : List Char) :
    parts (c :: rest) =
      (c :: rest.take (scan c rest).2).map (·, partAt c rest) ++
        parts (rest.drop (scan c rest).2) := by
  rw [parts, partsFrom, partsFrom_skip]
  rfl

/-- Whether a text ends inside a line comment. -/
def endsInLineComment (text : List Char) : Bool :=
  (parts text).getLast?.any fun last => last.2 = .lineComment

theorem endsInLineComment_rest {c : Char} {rest : List Char}
    (h : endsInLineComment (c :: rest) = false) :
    endsInLineComment (rest.drop (scan c rest).2) = false := by
  unfold endsInLineComment at h ⊢
  rw [parts_piece, List.getLast?_append] at h
  cases hlast : (parts (rest.drop (scan c rest).2)).getLast? with
  | none => rfl
  | some last => simpa [hlast] using h

/-- A line comment that the text does not end in has a line break after it. -/
theorem mem_lineBreak_of_startsLineComment {c : Char} {rest : List Char}
    (h : endsInLineComment (c :: rest) = false) (hstarts : startsLineComment c rest = true) :
    '\n' ∈ rest := by
  refine Decidable.byContradiction fun hbreak => ?_
  have hwhole : rest.takeWhile (· ≠ '\n') = rest := by
    have hall : ∀ d ∈ rest, decide (d ≠ '\n') = true := by
      intro d hd
      refine decide_eq_true fun heq => hbreak ?_
      rw [← heq]
      exact hd
    simpa using @List.takeWhile_append_of_pos _ (fun d => decide (d ≠ '\n')) rest [] hall
  have hscan := scan_startsLineComment hstarts
  rw [hwhole] at hscan
  have hpart : partAt c rest = .lineComment := by
    unfold partAt
    simp [hscan, hstarts]
  have hnil : parts [] = [] := rfl
  rw [endsInLineComment, parts_piece, hscan, hpart, List.drop_length, hnil, List.append_nil,
    List.getLast?_map] at h
  simp [List.getLast?_cons] at h

/-! ## Rows of tokens -/

/-- Tokens that start neither an operand nor a statement. -/
def Lexeme.startsNothing : Lexeme → Bool
  | .binary _ | .compound _ | .stray _ | .keyword .elseIf | .keyword .otherwise => true
  | _ => false

theorem Lexeme.ne_of_startsNothing {lexeme other : Lexeme} (h : lexeme.startsNothing = true)
    (hother : other.startsNothing = false) : lexeme ≠ other := by
  rintro rfl
  exact Bool.false_ne_true (hother.symm.trans h)

/-- No token is stray, and something starts directly after each operator between operands. -/
def WellJoined : List Lexeme → Prop
  | [] => True
  | lexeme :: rest =>
    (∀ c, lexeme ≠ .stray c) ∧
      (∀ op, lexeme = .binary op → ∀ next ∈ rest.head?, next.startsNothing = false) ∧
      WellJoined rest

theorem floatLength_of_symbol {c : Char} (hdigit : isDecimalDigit c = false) (hpoint : c ≠ '.')
    (rest : List Char) : floatLength (c :: rest) = 0 :=
  floatLength_eq_zero hdigit fun hc => absurd hc hpoint

/-- A quote that nothing closes is a token by itself. -/
theorem scan_openQuote {c : Char} {rest : List Char} (hc : c = '"' ∨ c = '\'')
    (h : closingQuote? c rest = none) : scan c rest = (some (.stray c), 0) := by
  have hdigit : isDecimalDigit c = false := by rcases hc with rfl | rfl <;> decide
  have hpoint : c ≠ '.' := by rcases hc with rfl | rfl <;> decide
  have hstring : stringSize? c rest = none := by rw [stringSize?, h, ite_self]
  rw [scan_eq]
  simp only [floatLength_of_symbol hdigit hpoint, intLength_eq_zero hdigit, hstring]
  rcases hc with rfl | rfl <;> rfl

/-- A comment that nothing closes starts with a division. -/
theorem scan_openComment {inner : List Char} (h : commentEnd? inner = none) :
    scan '/' ('*' :: inner) = (some (.binary .div), 0) := by
  have hcomment : commentSize? '/' ('*' :: inner) = none := by simp [commentSize?, blockComment?, h]
  have hdigit : isDecimalDigit '/' = false := by decide
  rw [scan_eq]
  simp only [floatLength_of_symbol hdigit (by decide), intLength_eq_zero hdigit, hcomment]
  rfl

theorem scan_operator {c : Char} (hc : c = '*' ∨ c = '>') (rest : List Char) :
    ∃ lexeme more, scan c rest = (some lexeme, more) ∧ lexeme.startsNothing = true := by
  have hoperators : ∀ entry ∈ symbols, entry.1.head? = some '*' ∨ entry.1.head? = some '>' →
      entry.2.startsNothing = true := by decide
  have hfound : (symbol? (c :: rest)).isSome := by
    rw [symbol?, Option.isSome_map, List.find?_isSome]
    rcases hc with rfl | rfl
    · exact ⟨(['*'], .binary .mul), by decide, by simp [List.isPrefixOf]⟩
    · exact ⟨(['>'], .binary .greater), by decide, by simp [List.isPrefixOf]⟩
  obtain ⟨⟨lexeme, size⟩, hsymbol⟩ := Option.isSome_iff_exists.mp hfound
  obtain ⟨others, tail, hmember, -, -⟩ := symbol?_cons_eq_some hsymbol
  refine ⟨lexeme, size - 1, ?_, hoperators _ hmember (hc.imp (congrArg some) (congrArg some))⟩
  have hdigit : isDecimalDigit c = false := by rcases hc with rfl | rfl <;> decide
  have hpoint : c ≠ '.' := by rcases hc with rfl | rfl <;> decide
  rw [scan_eq, hsymbol]
  simp only [floatLength_of_symbol hdigit hpoint, intLength_eq_zero hdigit]
  rcases hc with rfl | rfl <;> rfl

/-- A quote that stays open is a stray token, and a comment that stays open starts with two
    operators; neither is well joined. -/
theorem closes_of_wellJoined {c : Char} {rest : List Char} {position : Position}
    (h : WellJoined ((tokensFrom 0 position (c :: rest)).map Token.lexeme)) : Closes c rest where
  quote hc hnone := by
    rw [tokensFrom_cons, scan_openQuote hc hnone] at h
    exact h.1 c rfl
  comment := by
    rintro inner rfl rfl hnone
    obtain ⟨lexeme, size, hscan, hstar⟩ := scan_operator (.inl rfl) inner
    rw [tokensFrom_cons, scan_openComment hnone] at h
    have hnext := h.2.1 .div rfl lexeme (by rw [tokensFrom_cons, hscan]; rfl)
    exact absurd (hnext.symm.trans hstar) Bool.false_ne_true

/-- What comes after the first piece of well joined tokens is well joined. -/
theorem WellJoined.rest {position : Position} {c : Char} {rest : List Char}
    (h : WellJoined ((tokensFrom 0 position (c :: rest)).map Token.lexeme)) :
    WellJoined ((tokensFrom 0 ((c :: rest.take (scan c rest).2).foldl Position.advance position)
      (rest.drop (scan c rest).2)).map Token.lexeme) := by
  rw [tokensFrom_piece] at h
  unfold tokenAt at h
  split at h
  · exact h
  · exact h.2.2

/-- A text whose tokens are well joined has them, too, before a character that ends tokens and more
    text, unless that goes on with a line comment. -/
theorem tokensFrom_stop {stop : Char} (hstop : EndsTokens stop) {text : List Char}
    {position : Position} (h : WellJoined ((tokensFrom 0 position text).map Token.lexeme))
    (hline : stop = '\n' ∨ endsInLineComment text = false) (more : List Char) :
    tokensFrom 0 position (text ++ stop :: more) =
      tokensFrom 0 position text ++
        tokensFrom 0 (text.foldl Position.advance position) (stop :: more) := by
  induction text using scan_induction generalizing position with
  | nil => rfl
  | piece c rest ih =>
    have hscan : scan c (rest ++ stop :: more) = scan c rest := by
      refine scan_stop hstop (closes_of_wellJoined h) (fun hstarts => ?_) more
      exact hline.imp id fun hline => mem_lineBreak_of_startsLineComment hline hstarts
    have hsize := scan_size_le c rest
    have htoken : tokenAt position c (rest ++ stop :: more) = tokenAt position c rest := by
      unfold tokenAt
      rw [hscan]
      split
      · rfl
      · rename_i lexeme size heq
        rw [heq] at hsize
        rw [List.take_append_of_le_length hsize]
    rw [List.cons_append, tokensFrom_piece, tokensFrom_piece position c rest, htoken, hscan,
      List.take_append_of_le_length hsize, List.drop_append_of_le_length hsize,
      ih h.rest (hline.imp id endsInLineComment_rest), ← List.append_assoc, ← List.foldl_append,
      List.cons_append, List.take_append_drop]

/-- Each line break of a text takes the position one line on. -/
theorem line_foldl_advance (text : List Char) (position : Position) :
    (text.foldl Position.advance position).line = position.line + text.count '\n' := by
  induction text generalizing position with
  | nil => rfl
  | cons c rest ih =>
    rw [List.foldl_cons, ih]
    unfold Position.advance
    by_cases hc : c = '\n'
    · simp [hc]
      omega
    · simp [hc]

/-- Lines that are added to a text whose tokens are well joined have their own tokens. -/
theorem tokensFrom_lineBreak {text : List Char} {position : Position}
    (h : WellJoined ((tokensFrom 0 position text).map Token.lexeme)) (more : List Char) :
    tokensFrom 0 position (text ++ '\n' :: more) =
      tokensFrom 0 position text ++
        tokensFrom 0 ⟨position.line + text.count '\n' + 1, 1⟩ more := by
  have hbreak : tokensFrom 0 (text.foldl Position.advance position) ('\n' :: more) =
      tokensFrom 0 ⟨position.line + text.count '\n' + 1, 1⟩ more := by
    rw [tokensFrom_cons, scan_blank (by decide), ← line_foldl_advance]
    rfl
  rw [tokensFrom_stop endsTokens_lineBreak h (.inl rfl), hbreak]

/-- Moving the start of a text down moves its tokens down. -/
theorem tokensFrom_lowered (text : List Char) (skip k line column other : Nat) :
    List.Forall₂ (Token.Lowered k) (tokensFrom skip ⟨line, column⟩ text)
      (tokensFrom skip ⟨line + k, other⟩ text) := by
  induction text generalizing skip line column other with
  | nil => exact .nil
  | cons c rest ih =>
    have hrest : ∀ skip, List.Forall₂ (Token.Lowered k)
        (tokensFrom skip (Position.advance ⟨line, column⟩ c) rest)
        (tokensFrom skip (Position.advance ⟨line + k, other⟩ c) rest) := by
      intro skip
      unfold Position.advance
      split
      · rw [Nat.add_right_comm]
        exact ih skip (line + 1) 1 1
      · exact ih skip line (column + 1) (other + 1)
    cases skip with
    | succ skip => exact hrest skip
    | zero =>
      rw [tokensFrom_cons, tokensFrom_cons]
      cases scan c rest with
      | mk found size =>
        cases found with
        | none => exact hrest size
        | some lexeme => exact .cons ⟨rfl, rfl⟩ (hrest size)

end WebScript
