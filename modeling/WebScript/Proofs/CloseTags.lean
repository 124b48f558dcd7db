import WebScript.Proofs.Joining

/-!
# Finding the end of code

The scanner that looks for a close tag reads a text by itself, before it is cut into tokens, and
agrees with the lexer on it: whatever the lexer takes at once, a token, a comment or a blank, the
scanner passes over in one piece (`passesOver_piece`). A close tag after code is therefore the one
that is found, if none shows in the code outside string literals and block comments
(`passesOver_code`).
-/

namespace WebScript

/-! ## Characters of numbers -/

/-- Characters that numbers are written with. -/
def isNumberPart (c : Char) : Bool :=
  isDecimalDigit c || isNamePart c || c = '.' || c = '+' || c = '-'

theorem isNumberPart_of_isDecimalDigit {c : Char} (h : isDecimalDigit c = true) :
    isNumberPart c = true := by
  simp [isNumberPart, h]

theorem isNumberPart_of_isNamePart {c : Char} (h : isNamePart c = true) :
    isNumberPart c = true := by
  simp [isNumberPart, h]

theorem isNumberPart_of_mem_digits {text : List Char} {c : Char}
    (h : c ∈ text.take (digitRun isDecimalDigit text)) : isNumberPart c = true := by
  refine (mem_take_digitRun h).elim isNumberPart_of_isDecimalDigit ?_
  rintro rfl
  rfl

theorem isNumberPart_of_mem_sign {text : List Char} {c : Char}
    (h : c ∈ text.take (signLength text)) : isNumberPart c = true := by
  cases text with
  | nil => cases h
  | cons sign digits =>
    by_cases hsign : (sign = '+' || sign = '-') = true
    · obtain rfl : c = sign := by simpa [signLength, hsign] using h
      have hsign : c = '+' ∨ c = '-' := by simpa using hsign
      rcases hsign with rfl | rfl <;> rfl
    · simp [signLength, hsign] at h

theorem isNumberPart_of_mem_exponent {text : List Char} {c : Char}
    (h : c ∈ text.take (exponentLength text)) : isNumberPart c = true := by
  cases text with
  | nil => cases h
  | cons mark rest =>
    rw [exponentLength_cons] at h
    split at h
    · rename_i hmark
      have hmark : mark = 'e' ∨ mark = 'E' := by simpa using hmark
      split at h
      · cases h
      · rw [Nat.add_assoc, Nat.add_comm 1, List.take_succ_cons, List.mem_cons, List.take_add,
          List.mem_append] at h
        rcases h with rfl | h | h
        · rcases hmark with rfl | rfl <;> rfl
        · exact isNumberPart_of_mem_sign h
        · exact isNumberPart_of_mem_digits h
    · cases h

/-- What stands behind a point, an exponent included, consists of characters of numbers. -/
theorem isNumberPart_of_mem_point {whole : Nat} {text : List Char} {c : Char}
    (hwhole : ∀ d ∈ text.take whole, isNumberPart d = true)
    (h : c ∈ text.take (pointLength whole (text.drop whole))) : isNumberPart c = true := by
  cases hdrop : text.drop whole with
  | nil =>
    rw [hdrop] at h
    cases h
  | cons point afterPoint =>
    by_cases hpoint : point = '.'
    · subst hpoint
      simp only [hdrop, pointLength] at h
      split at h
      · cases h
      · rw [Nat.add_assoc, Nat.add_assoc, List.take_add, List.mem_append, hdrop, Nat.add_comm 1,
          List.take_succ_cons, List.mem_cons, List.take_add, List.mem_append] at h
        rcases h with h | rfl | h | h
        · exact hwhole c h
        · rfl
        · exact isNumberPart_of_mem_digits h
        · exact isNumberPart_of_mem_exponent h
    · simp [hdrop, pointLength, hpoint] at h

/-- A float consists of characters of numbers. -/
theorem isNumberPart_of_mem_float {text : List Char} {c : Char}
    (h : c ∈ text.take (floatLength text)) : isNumberPart c = true := by
  simp only [floatLength_eq] at h
  generalize hsize : (if digitRun isDecimalDigit text = 0 then 0
    else exponentLength (text.drop (digitRun isDecimalDigit text))) = exponent at h
  by_cases hexponent : exponent = 0
  · rw [if_neg (not_not.mpr hexponent)] at h
    exact isNumberPart_of_mem_point (fun d => isNumberPart_of_mem_digits) h
  · rw [if_pos hexponent, List.take_add, List.mem_append] at h
    refine h.elim isNumberPart_of_mem_digits fun h => ?_
    split at hsize
    · exact absurd hsize.symm hexponent
    · subst hsize
      exact isNumberPart_of_mem_exponent h

theorem isNumberPart_of_mem_int {text : List Char} {c : Char}
    (h : c ∈ text.take (intLength text)) : isNumberPart c = true :=
  (mem_take_intLength h).elim isNumberPart_of_isDecimalDigit isNumberPart_of_isNamePart

theorem isPlain_of_isNumberPart {c : Char} (h : isNumberPart c = true) : isPlain c = true :=
  isPlain_of_class (by decide) h

/-! ## What the lexer takes at once -/

/-- What the lexer takes at once from a text: the token, if it is one, and how many characters it
    has beyond the first. -/
inductive Takes (c : Char) (rest : List Char) : Option Lexeme → Nat → Prop
  | number {lexeme : Lexeme} {size : Nat}
    (hchars : ∀ d ∈ c :: rest.take size, isNumberPart d = true)
    (hlexeme : ∃ text, lexeme = .int text ∨ lexeme = .float text) :
    Takes c rest (some lexeme) size
  | variableName {lexeme : Lexeme} (hc : c = '$')
    (hlexeme : lexeme = .variable (String.ofList (rest.takeWhile isNamePart))) :
    Takes c rest (some lexeme) (rest.takeWhile isNamePart).length
  | word {lexeme : Lexeme} (hc : isNamePart c = true)
    (hlexeme : lexeme = wordLexeme (c :: rest.takeWhile isNamePart)) :
    Takes c rest (some lexeme) (rest.takeWhile isNamePart).length
  | string {lexeme : Lexeme} {size : Nat} (hquote : c = '"' ∨ c = '\'')
    (hclosing : closingQuote? c rest = some size) (hlexeme : lexeme.isString = true) :
    Takes c rest (some lexeme) size
  | blockComment {size : Nat} (hsize : commentSize? c rest = some size) : Takes c rest none size
  | lineComment (hstarts : startsLineComment c rest = true) :
    Takes c rest none (rest.takeWhile (· ≠ '\n')).length
  | blank (hblank : isTokenBlank c = true) : Takes c rest none 0
  | symbol {lexeme : Lexeme} {size : Nat} (hsymbol : symbol? (c :: rest) = some (lexeme, size))
    (hcomment : commentSize? c rest = none) (hline : startsLineComment c rest = false) :
    Takes c rest (some lexeme) (size - 1)
  | stray : Takes c rest (some (.stray c)) 0

/-- What the lexer takes at once is of one of these kinds. -/
theorem takes_scan (c : Char) (rest : List Char) :
    Takes c rest (scan c rest).1 (scan c rest).2 := by
  rw [scan_eq]
  split
  · rename_i hsize
    have hchars : ∀ d ∈ (c :: rest).take (floatLength (c :: rest)), isNumberPart d = true :=
      fun d => isNumberPart_of_mem_float
    rw [List.take_cons (Nat.pos_of_ne_zero hsize)] at hchars
    exact .number hchars ⟨_, Or.inr rfl⟩
  split
  · rename_i hsize
    have hchars : ∀ d ∈ (c :: rest).take (intLength (c :: rest)), isNumberPart d = true :=
      fun d => isNumberPart_of_mem_int
    rw [List.take_cons (Nat.pos_of_ne_zero hsize)] at hchars
    exact .number hchars ⟨_, Or.inl rfl⟩
  split
  · rename_i hdollar
    exact .variableName (of_decide_eq_true (Bool.and_eq_true_iff.mp hdollar).1) rfl
  split
  · rename_i hstart
    exact .word (isNamePart_iff.mpr (.inl hstart)) rfl
  split
  · rename_i size hstring
    obtain ⟨hquote, hclosing⟩ : (c = '"' ∨ c = '\'') ∧ closingQuote? c rest = some size := by
      simpa [stringSize?] using hstring
    exact .string hquote hclosing (by split <;> rfl)
  split
  · exact .blockComment ‹_›
  rename_i hcomment
  split
  · exact .lineComment ‹_›
  rename_i hline
  split
  · exact .blank ‹_›
  split
  · exact .symbol ‹_› hcomment (Bool.of_not_eq_true hline)
  · exact .stray

/-- The characters that the lexer takes with the first one of a name belong to the name. -/
theorem isNamePart_of_mem_take {rest : List Char} {d : Char}
    (h : d ∈ rest.take (rest.takeWhile isNamePart).length) : isNamePart d = true := by
  rw [← List.prefix_iff_eq_take.mp (List.takeWhile_prefix isNamePart)] at h
  exact List.all_eq_true.mp List.all_takeWhile d h

/-! ## Pieces of code -/

/-- Whether characters are those of a string literal or of a block comment. -/
def Part.isLiteral : Part → Bool
  | .string | .blockComment => true
  | .code | .lineComment => false

/-- The characters of a text; nothing stands for those of string literals and block comments. -/
def outsideLiterals (text : List Char) : List (Option Char) :=
  (parts text).map fun (c, part) => if part.isLiteral then none else some c

/-- A close tag stands in a text outside string literals and block comments. -/
def ShowsCloseTag (text : List Char) : Prop := [some '?', some '>'] <:+: outsideLiterals text

instance (text : List Char) : Decidable (ShowsCloseTag text) :=
  inferInstanceAs (Decidable ([some '?', some '>'] <:+: outsideLiterals text))

/-- A text shows outside of literals what its first piece shows and what the rest does. -/
theorem outsideLiterals_piece (c : Char) (rest : List Char) :
    outsideLiterals (c :: rest) =
      (c :: rest.take (scan c rest).2).map
          (fun d => if (partAt c rest).isLiteral then none else some d) ++
        outsideLiterals (rest.drop (scan c rest).2) := by
  rw [outsideLiterals, parts_piece, List.map_append, List.map_map]
  rfl

/-- A close tag that the rest of a text shows is shown by the text. -/
theorem ShowsCloseTag.of_rest {c : Char} {rest : List Char}
    (h : ShowsCloseTag (rest.drop (scan c rest).2)) : ShowsCloseTag (c :: rest) := by
  rw [ShowsCloseTag, outsideLiterals_piece]
  exact h.trans (List.suffix_append _ _).isInfix

/-- A comment with an end is passed over in search of a close tag. -/
theorem splitCloseTag_blockComment {text : List Char} {size : Nat}
    (h : commentEnd? text = some size) (tail : List Char) :
    splitCloseTag .blockComment (text ++ tail) =
      (splitCloseTag .code (text.drop size ++ tail)).map
        (splitCloseTag.prepend (text.take size)) := by
  induction text using commentEnd?.induct generalizing size with
  | case1 rest =>
    cases h
    rfl
  | case2 c rest hstart ih =>
    rw [commentEnd?.eq_2 c rest hstart] at h
    obtain ⟨inner, hinner, rfl⟩ := Option.map_eq_some_iff.mp h
    have hinside : splitCloseTag .blockComment (c :: rest ++ tail) =
        (splitCloseTag .blockComment (rest ++ tail)).map (splitCloseTag.prepend [c]) := by
      -- The comment does not end here, so the rest is not empty.
      cases rest with
      | nil => cases hinner
      | cons d after =>
        rw [splitCloseTag.eq_def]
        split
        case h_8 =>
          rename_i heq
          obtain ⟨rfl, rfl, -⟩ := heq
          exact absurd rfl (hstart after rfl)
        case h_9 =>
          rename_i heq
          cases heq
          rfl
        all_goals contradiction
    rw [hinside, ih hinner, Option.map_map, splitCloseTag.prepend_comp_prepend]
    rfl
  | case3 => cases h

theorem passesOver_blockComment {c : Char} {rest : List Char} {size : Nat}
    (h : commentSize? c rest = some size) (tail : List Char) :
    PassesOver (c :: rest.take size) (rest.drop size ++ tail) := by
  unfold commentSize? at h
  split at h
  · rename_i hc
    subst hc
    unfold blockComment? at h
    split at h
    · rename_i inner
      obtain ⟨found, hfound, rfl⟩ := Option.map_eq_some_iff.mp h
      have hopen : ∀ text, splitCloseTag .code ('/' :: '*' :: text) =
          (splitCloseTag .blockComment text).map (splitCloseTag.prepend ['/', '*']) := fun _ => rfl
      rw [PassesOver, List.take_succ_cons, List.drop_succ_cons, List.cons_append, List.cons_append,
        hopen, ← List.append_assoc, List.take_append_drop, splitCloseTag_blockComment hfound,
        Option.map_map, splitCloseTag.prepend_comp_prepend]
      rfl
    · cases h
  · cases h

/-- What is added to a line comment that the close tag does not cut short belongs to the code. -/
theorem prependComment_comp_prepend (chars body : List Char) :
    splitCloseTag.prependComment chars ∘ splitCloseTag.prepend (body ++ ['\n']) =
      splitCloseTag.prepend (chars ++ (body ++ ['\n'])) := by
  funext parts
  obtain ⟨code, comment, after⟩ := parts
  cases body with
  | nil => simp [splitCloseTag.prepend, splitCloseTag.prependComment]
  | cons d body => simp [splitCloseTag.prepend, splitCloseTag.prependComment]

/-- A line comment that shows no close tag is passed over together with the end of its line. -/
theorem splitCloseTag_lineComment {body : List Char} (hbreak : '\n' ∉ body)
    (hshows : ¬ ['?', '>'] <:+: body) (tail : List Char) :
    splitCloseTag .lineComment (body ++ '\n' :: tail) =
      (splitCloseTag .code tail).map (splitCloseTag.prepend (body ++ ['\n'])) := by
  induction body with
  | nil => rfl
  | cons d body ih =>
    obtain ⟨hd, hbreak⟩ := not_or.mp (List.mem_cons.not.mp hbreak)
    rw [List.infix_cons_iff, not_or] at hshows
    have hinside : splitCloseTag .lineComment (d :: body ++ '\n' :: tail) =
        (splitCloseTag .lineComment (body ++ '\n' :: tail)).map
          (splitCloseTag.prependComment [d]) := by
      rw [List.cons_append, splitCloseTag.eq_def]
      split
      case h_10 =>
        rename_i heq
        obtain ⟨rfl, hrest⟩ := List.cons.inj heq
        cases body with
        | nil => cases hrest
        | cons e body =>
          obtain ⟨rfl, -⟩ := List.cons.inj hrest
          exact absurd (List.prefix_append ['?', '>'] body) hshows.1
      case h_11 =>
        rename_i heq
        cases heq
        exact if_neg (Ne.symm hd)
      all_goals contradiction
    rw [hinside, ih hbreak hshows.2, Option.map_map, prependComment_comp_prepend]
    rfl

theorem passesOver_commentBody {c : Char} {body tail : List Char}
    (hstarts : startsLineComment c body = true) (hbreak : '\n' ∉ body)
    (hshows : ¬ ['?', '>'] <:+: body) : PassesOver (c :: body) ('\n' :: tail) := by
  have hcode : splitCloseTag .code ('\n' :: tail) =
      (splitCloseTag .code tail).map (splitCloseTag.prepend ['\n']) :=
    passesOver_singleton (by decide) fun _ _ => ⟨nofun, nofun⟩
  have hstart : c = '#' ∨ c = '/' ∧ ∃ inner, body = '/' :: inner := by
    cases body <;> simpa [startsLineComment] using hstarts
  rw [PassesOver, hcode, Option.map_map, splitCloseTag.prepend_comp_prepend]
  rcases hstart with rfl | ⟨rfl, inner, rfl⟩
  · have hopen : ∀ text, splitCloseTag .code ('#' :: text) =
        (splitCloseTag .lineComment text).map (splitCloseTag.prependComment ['#']) := fun _ => rfl
    rw [List.cons_append, hopen, splitCloseTag_lineComment hbreak hshows, Option.map_map,
      prependComment_comp_prepend]
    rfl
  · have hopen : ∀ text, splitCloseTag .code ('/' :: '/' :: text) =
        (splitCloseTag .lineComment text).map (splitCloseTag.prependComment ['/', '/']) :=
      fun _ => rfl
    rw [List.infix_cons_iff, not_or] at hshows
    rw [List.cons_append, List.cons_append, hopen,
      splitCloseTag_lineComment (not_or.mp (List.mem_cons.not.mp hbreak)).2 hshows.2,
      Option.map_map, prependComment_comp_prepend]
    rfl

/-- A piece that is no literal shows all of its characters. -/
theorem outsideLiterals_of_code {c : Char} {rest : List Char}
    (h : (partAt c rest).isLiteral = false) :
    outsideLiterals (c :: rest) =
      (c :: rest.take (scan c rest).2).map some ++
        outsideLiterals (rest.drop (scan c rest).2) := by
  simp [outsideLiterals_piece, h]

theorem outsideLiterals_of_scan {c : Char} {rest : List Char} {lexeme : Lexeme} {size : Nat}
    (hscan : scan c rest = (some lexeme, size)) (h : lexeme.isString = false) :
    outsideLiterals (c :: rest) =
      (c :: rest.take size).map some ++ outsideLiterals (rest.drop size) := by
  have hpart : (partAt c rest).isLiteral = false := by
    unfold partAt
    simp [hscan, h, Part.isLiteral]
  rw [outsideLiterals_of_code hpart, hscan]

/-- The scanner for the close tag passes over a line comment that ends and shows no close tag. -/
theorem passesOver_lineComment {c : Char} {rest : List Char}
    (hstarts : startsLineComment c rest = true) (hbreak : '\n' ∈ rest)
    (hshows : ¬ ShowsCloseTag (c :: rest)) (more : List Char) :
    PassesOver (c :: rest.take (rest.takeWhile (· ≠ '\n')).length)
      (rest.drop (rest.takeWhile (· ≠ '\n')).length ++ more) := by
  have hscan := scan_startsLineComment hstarts
  have hpart : (partAt c rest).isLiteral = false := by
    unfold partAt
    simp [hscan, hstarts, Part.isLiteral]
  obtain ⟨body, tail, rfl, hbody⟩ := List.eq_append_cons_of_mem hbreak
  have htake : (body ++ '\n' :: tail).takeWhile (· ≠ '\n') = body := by
    refine takeWhile_word (fun d hd => decide_eq_true ?_) (by simp)
    rintro rfl
    exact hbody hd
  have hinside : startsLineComment c body = true := by
    cases body with
    | nil => simpa [startsLineComment] using hstarts
    | cons d inner => exact hstarts
  have hpiece := outsideLiterals_of_code hpart
  simp only [hscan, htake, List.take_left, List.drop_left] at hpiece ⊢
  refine passesOver_commentBody hinside hbody fun hshown => hshows ?_
  rw [ShowsCloseTag, hpiece, List.map_cons]
  exact (hshown.map some).trans
    ((List.infix_cons List.infix_rfl).trans (List.prefix_append _ _).isInfix)

/-- Two question marks before a `>` show a close tag, although the lexer sees none. -/
theorem showsCloseTag_coalesce {tail : List Char} {lexeme : Lexeme}
    (hscan : scan '?' ('?' :: '>' :: tail) = (some lexeme, 1)) (h : lexeme.isString = false) :
    ShowsCloseTag ('?' :: '?' :: '>' :: tail) := by
  obtain ⟨operator, size, hoperator, hnothing⟩ := scan_operator (.inr rfl) tail
  have hstring : operator.isString = false := by
    cases operator with
    | single raw | double raw => cases hnothing
    | _ => rfl
  rw [ShowsCloseTag, outsideLiterals_of_scan hscan h]
  show _ <:+: _ ++ outsideLiterals ('>' :: tail)
  rw [outsideLiterals_of_scan hoperator hstring]
  exact ⟨[some '?'], _, rfl⟩

/-- A division before other code does not become the start of a comment. -/
theorem staysApart_slash {rest : List Char} (hcloses : Closes '/' rest)
    (hcomment : commentSize? '/' rest = none) (hline : startsLineComment '/' rest = false)
    (more : List Char) : StaysApart '/' (rest ++ '?' :: more) := by
  intro d hd
  refine ⟨fun _ hmem => ?_, nofun⟩
  have hpair : d = '*' ∨ d = '/' := by simpa using hmem
  cases rest with
  | nil =>
    obtain rfl : '?' = d := by simpa using hd
    exact absurd hmem (by decide)
  | cons e inner =>
    obtain rfl : e = d := by simpa using hd
    rcases hpair with rfl | rfl
    · exact hcloses.comment inner rfl rfl (by simpa [commentSize?, blockComment?] using hcomment)
    · simp [startsLineComment] at hline

/-- A question mark before other code does not become half of a close tag. -/
theorem staysApart_question {rest : List Char} (h : ∀ inner, rest ≠ '>' :: inner)
    (more : List Char) : StaysApart '?' (rest ++ '?' :: more) := by
  intro d hd
  refine ⟨nofun, fun _ hgreater => ?_⟩
  subst hgreater
  cases rest with
  | nil => simp at hd
  | cons e inner =>
    obtain rfl : e = '>' := by simpa using hd
    exact h inner rfl

/-- A symbol is passed over if it neither opens a comment nor is half of a close tag. -/
theorem passesOver_symbol {c : Char} {rest : List Char} {lexeme : Lexeme} {size : Nat}
    (h : symbol? (c :: rest) = some (lexeme, size)) (hscan : scan c rest = (some lexeme, size - 1))
    (hcloses : Closes c rest) (hcomment : commentSize? c rest = none)
    (hline : startsLineComment c rest = false) (hshows : ¬ ShowsCloseTag (c :: rest))
    (more : List Char) :
    PassesOver (c :: rest.take (size - 1)) (rest.drop (size - 1) ++ '?' :: more) := by
  have hsymbols : ∀ entry ∈ symbols, entry.2.isString = false ∧
      (entry.1.all isPlain = true ∨ entry.1 ∈ [['/'], ['/', '=']] ∨
        entry.1 ∈ [['?', '?'], ['?', '?', '=']]) := by decide
  obtain ⟨others, tail, hmember, rfl, rfl⟩ := symbol?_cons_eq_some h
  obtain ⟨hstring, hkind⟩ := hsymbols _ hmember
  simp only [Nat.add_sub_cancel, List.take_left, List.drop_left] at hscan ⊢
  rcases hkind with hplain | hslash | hquestion
  · exact passesOver_plain hplain _
  · obtain ⟨rfl, hothers⟩ : c = '/' ∧ (others = [] ∨ others = ['=']) := by
      simpa [and_or_left] using hslash
    refine passesOver_alone (by decide) hothers ?_
    rintro rfl
    exact staysApart_slash hcloses hcomment hline more
  · obtain ⟨rfl, last, rfl, hlast⟩ :
        c = '?' ∧ ∃ last, others = '?' :: last ∧ (last = [] ∨ last = ['=']) := by
      simp only [List.mem_cons, List.not_mem_nil, or_false, List.cons.injEq] at hquestion
      rcases hquestion with ⟨rfl, rfl⟩ | ⟨rfl, rfl⟩
      · exact ⟨rfl, [], rfl, .inl rfl⟩
      · exact ⟨rfl, ['='], rfl, .inr rfl⟩
    refine passesOver_coalesce hlast ?_
    rintro rfl
    refine staysApart_question ?_ more
    rintro inner rfl
    exact hshows (showsCloseTag_coalesce hscan hstring)

/-- The scanner for the close tag passes over whatever the lexer takes at once. -/
theorem passesOver_piece {c : Char} {rest : List Char} (hcloses : Closes c rest)
    (hbreak : startsLineComment c rest = true → '\n' ∈ rest)
    (hstray : ∀ d, (scan c rest).1 ≠ some (.stray d)) (hshows : ¬ ShowsCloseTag (c :: rest))
    (more : List Char) :
    PassesOver (c :: rest.take (scan c rest).2) (rest.drop (scan c rest).2 ++ '?' :: more) := by
  have htakes := takes_scan c rest
  obtain ⟨found, size, hscan⟩ : ∃ found size, scan c rest = (found, size) := ⟨_, _, rfl⟩
  rw [hscan] at htakes hstray ⊢
  cases htakes with
  | number hchars =>
    exact passesOver_plain (List.all_eq_true.mpr fun d hd =>
      isPlain_of_isNumberPart (hchars d hd)) _
  | variableName hc =>
    have hplain : isPlain c = true := by
      rw [hc]
      rfl
    refine passesOver_plain (List.all_eq_true.mpr (List.forall_mem_cons.mpr ⟨hplain, ?_⟩)) _
    exact fun d hd => isPlain_of_isNamePart (isNamePart_of_mem_take hd)
  | word hc =>
    exact passesOver_name (List.forall_mem_cons.mpr ⟨hc, fun d => isNamePart_of_mem_take⟩) _
  | string hquote hclosing => exact passesOver_string hquote hclosing _
  | blockComment hsize => exact passesOver_blockComment hsize _
  | lineComment hstarts => exact passesOver_lineComment hstarts (hbreak hstarts) hshows _
  | blank hblank => exact passesOver_plain (by simpa using isPlain_of_isTokenBlank hblank) _
  | symbol hsymbol hcomment hline =>
    exact passesOver_symbol hsymbol hscan hcloses hcomment hline hshows more
  | stray => exact absurd rfl (hstray c)

theorem WellJoined.scan_ne_stray {position : Position} {c : Char} {rest : List Char}
    (h : WellJoined ((tokensFrom 0 position (c :: rest)).map Token.lexeme)) (d : Char) :
    (scan c rest).1 ≠ some (.stray d) := by
  intro hstray
  rw [tokensFrom_piece] at h
  unfold tokenAt at h
  split at h
  · rename_i heq
    rw [heq] at hstray
    cases hstray
  · rename_i heq
    rw [heq] at hstray
    cases hstray
    exact h.1 d rfl

/-- The scanner for the close tag passes over a text whose tokens are well joined, if no close tag
    shows in it and its last line comment has ended. -/
theorem passesOver_code {text : List Char} {position : Position}
    (hjoined : WellJoined ((tokensFrom 0 position text).map Token.lexeme))
    (hline : endsInLineComment text = false) (hshows : ¬ ShowsCloseTag text) (more : List Char) :
    PassesOver text ('?' :: more) := by
  induction text using scan_induction generalizing position with
  | nil => exact passesOver_nil _
  | piece c rest ih =>
    have hpiece := passesOver_piece (closes_of_wellJoined hjoined)
      (mem_lineBreak_of_startsLineComment hline) hjoined.scan_ne_stray hshows more
    have hrest := ih hjoined.rest (endsInLineComment_rest hline) fun h => hshows h.of_rest
    have hwhole := hpiece.append hrest
    rwa [List.cons_append, List.take_append_drop] at hwhole

end WebScript
