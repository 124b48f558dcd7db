import WebScript.Proofs.BracketBalance
import WebScript.Proofs.CloseTags
import WebScript.Prompt

/-!
# Inputs that can be submitted

The prompt counts brackets by itself, character by character, and knows strings but no comments. On
code it agrees with the lexer: it passes over whatever the lexer takes at once with the change that
the token stands for (`opens_piece`). A program without its comments is therefore never unclosed, and
with them it is unclosed only by what stands in the comments.
-/

namespace WebScript

/-! ## Reading characters -/

/-- What is open after characters. -/
def openState (chars : List Char) : OpenState := chars.foldl OpenState.step {}

/-- Characters that start outside of quotes and end there, with so many more brackets open. -/
def Opens (chars : List Char) (change : Int) : Prop :=
  ∀ depth : Int, chars.foldl OpenState.step ⟨depth, none, false⟩ = ⟨depth + change, none, false⟩

/-- Quotes and brackets. -/
def openMarks : List Char := ['\'', '"', '(', '[', '{', ')', ']', '}']

/-- Characters that are neither quotes nor brackets. -/
def isNeutral (c : Char) : Bool := !openMarks.contains c

/-- The state with more brackets open. -/
def OpenState.raise (state : OpenState) (depth : Int) : OpenState :=
  { state with depth := depth + state.depth }

theorem OpenState.step_raise (state : OpenState) (depth : Int) (c : Char) :
    (state.raise depth).step c = (state.step c).raise depth := by
  obtain ⟨opened, quote, escaped⟩ := state
  cases quote with
  | some quote =>
    by_cases hbackslash : c = '\\'
    · cases escaped <;> simp [OpenState.step, OpenState.raise, hbackslash]
    by_cases hquote : c = quote
    · subst hquote
      cases escaped <;> simp [OpenState.step, OpenState.raise, hbackslash]
    · cases escaped <;> simp [OpenState.step, OpenState.raise, hbackslash, hquote]
  | none =>
    simp only [OpenState.step, OpenState.raise]
    split_ifs <;> simp [Int.add_assoc, Int.add_sub_assoc]

theorem OpenState.foldl_raise (state : OpenState) (depth : Int) (chars : List Char) :
    chars.foldl OpenState.step (state.raise depth) =
      (chars.foldl OpenState.step state).raise depth := by
  induction chars generalizing state with
  | nil => rfl
  | cons c rest ih => rw [List.foldl_cons, OpenState.step_raise, ih, List.foldl_cons]

/-- Outside of quotes no character is escaped. -/
theorem OpenState.not_escaped_step {state : OpenState}
    (h : state.quote = none → state.escaped = false) (c : Char) :
    (state.step c).quote = none → (state.step c).escaped = false := by
  obtain ⟨opened, quote, escaped⟩ := state
  cases quote with
  | some quote =>
    simp only [OpenState.step]
    split_ifs <;> simp_all
  | none =>
    simp only [OpenState.step]
    split_ifs <;> simp_all

theorem not_escaped_openState (chars : List Char) (h : (openState chars).quote = none) :
    (openState chars).escaped = false := by
  suffices hfrom : ∀ (chars : List Char) (state : OpenState),
      (state.quote = none → state.escaped = false) →
      (chars.foldl OpenState.step state).quote = none →
        (chars.foldl OpenState.step state).escaped = false from
    hfrom chars {} (fun _ => rfl) h
  intro chars
  induction chars with
  | nil => exact fun _ hstate => hstate
  | cons c rest ih => exact fun state hstate => ih _ (OpenState.not_escaped_step hstate c)

namespace Opens

variable {first second chars : List Char} {change other : Int}

theorem nil : Opens [] 0 := fun depth => by simp

theorem append (hfirst : Opens first change) (hsecond : Opens second other) :
    Opens (first ++ second) (change + other) := by
  intro depth
  rw [List.foldl_append, hfirst, hsecond, Int.add_assoc]

theorem neutral (h : chars.all isNeutral = true) : Opens chars 0 := by
  intro depth
  rw [Int.add_zero]
  induction chars with
  | nil => rfl
  | cons c rest ih =>
    rw [List.all_cons, Bool.and_eq_true] at h
    have hc : c ∉ openMarks := by simpa [isNeutral] using h.1
    simp only [openMarks, List.mem_cons, List.not_mem_nil, or_false, not_or] at hc
    have hstep : OpenState.step ⟨depth, none, false⟩ c = ⟨depth, none, false⟩ := by
      simp [OpenState.step, hc]
    rw [List.foldl_cons, hstep, ih h.2]

/-- A string literal changes nothing. -/
theorem string {quote : Char} {text : List Char} {size : Nat}
    (hquote : quote = '"' ∨ quote = '\'') (h : closingQuote? quote text = some size) :
    Opens (quote :: text.take size) 0 := by
  intro depth
  have hinside : (text.take size).foldl OpenState.step ⟨depth, some quote, false⟩ =
      ⟨depth, none, false⟩ := by
    induction text using closingQuote?.induct quote generalizing size with
    | case1 => cases h
    | case2 rest =>
      simp only [closingQuote?_cons, if_true, Option.some.injEq] at h
      subst h
      rcases hquote with rfl | rfl <;> rfl
    | case3 hne => simp [closingQuote?_cons, hne] at h
    | case4 c rest hne ih =>
      simp only [closingQuote?_cons, hne, if_true, if_false, Option.map_eq_some_iff] at h
      obtain ⟨inner, hinner, rfl⟩ := h
      simp [OpenState.step, ih hinner]
    | case5 c rest hne hbackslash ih =>
      simp only [closingQuote?_cons, hne, hbackslash, if_false, Option.map_eq_some_iff] at h
      obtain ⟨inner, hinner, rfl⟩ := h
      simp [OpenState.step, hne, hbackslash, ih hinner]
  have hopen : OpenState.step ⟨depth, none, false⟩ quote = ⟨depth, some quote, false⟩ := by
    rcases hquote with rfl | rfl <;> rfl
  rw [List.foldl_cons, hopen, hinside, Int.add_zero]

/-- Characters that, read by themselves, end outside of quotes do so anywhere. -/
theorem of_openState (h : (openState chars).quote = none) :
    Opens chars (openState chars).depth := by
  intro depth
  have hescaped := not_escaped_openState chars h
  have hraise := OpenState.foldl_raise {} depth chars
  have hstart : OpenState.raise {} depth = ⟨depth, none, false⟩ := by
    simp [OpenState.raise]
  rw [hstart] at hraise
  rw [hraise]
  show (openState chars).raise depth = _
  generalize openState chars = state at h hescaped
  obtain ⟨opened, quote, escaped⟩ := state
  cases h
  cases hescaped
  rfl

theorem of_class {p : Char → Bool}
    (hmarks : (openMarks.all fun mark => !p mark) = true)
    (h : chars.all p = true) : Opens chars 0 := by
  refine neutral (List.all_eq_true.mpr fun c hc => ?_)
  have hmem : c ∉ openMarks := by
    intro hmem
    simpa [List.all_eq_true.mp h c hc] using List.all_eq_true.mp hmarks c hmem
  simpa [isNeutral] using hmem

theorem number (h : ∀ c ∈ chars, isNumberPart c = true) : Opens chars 0 :=
  of_class (by decide) (List.all_eq_true.mpr h)

theorem name (h : ∀ c ∈ chars, isNamePart c = true) : Opens chars 0 :=
  of_class (by decide) (List.all_eq_true.mpr h)

/-- A symbol changes what it stands for. -/
theorem symbol {c : Char} {rest : List Char} {lexeme : Lexeme} {size : Nat}
    (h : symbol? (c :: rest) = some (lexeme, size)) :
    Opens (c :: rest.take (size - 1)) lexeme.bracketChange := by
  have hsymbols : ∀ entry ∈ symbols, openState entry.1 = ⟨entry.2.bracketChange, none, false⟩ := by
    decide
  obtain ⟨others, tail, hmember, rfl, rfl⟩ := symbol?_cons_eq_some h
  have hstate : openState (c :: others) = ⟨lexeme.bracketChange, none, false⟩ := hsymbols _ hmember
  have hopens := of_openState (congrArg OpenState.quote hstate)
  rw [hstate] at hopens
  simpa using hopens

end Opens

/-! ## Comments -/

/-- Whether characters are those of a comment. -/
def Part.isComment : Part → Bool
  | .blockComment | .lineComment => true
  | .code | .string => false

/-- A text without its comments. -/
def withoutComments (text : List Char) : List Char :=
  ((parts text).filter fun entry => !entry.2.isComment).map Prod.fst

/-- The comment at the start of a text, if there is one. -/
def commentAt (c : Char) (rest : List Char) : List (List Char) :=
  if (partAt c rest).isComment then [c :: rest.take (scan c rest).2] else []

/-- The comments of a text whose first `skip` characters belong to what was scanned before. -/
def commentsFrom (skip : Nat) : List Char → List (List Char)
  | [] => []
  | c :: rest =>
    match skip with
    | skip + 1 => commentsFrom skip rest
    | 0 => commentAt c rest ++ commentsFrom (scan c rest).2 rest

/-- The comments of a text. -/
def comments (text : List Char) : List (List Char) := commentsFrom 0 text

/-- How many more brackets are open after the comments of a text, each read by itself. -/
def commentChange (text : List Char) : Int :=
  ((comments text).map fun comment => (openState comment).depth).sum

theorem commentsFrom_skip (skip : Nat) (text : List Char) :
    commentsFrom skip text = comments (text.drop skip) := by
  induction text generalizing skip with
  | nil => simp [commentsFrom, comments]
  | cons c rest ih =>
    cases skip with
    | zero => rfl
    | succ skip => simp [commentsFrom, ih]

theorem comments_piece (c : Char) (rest : List Char) :
    comments (c :: rest) = commentAt c rest ++ comments (rest.drop (scan c rest).2) := by
  rw [comments, commentsFrom, commentsFrom_skip]

theorem commentChange_piece (c : Char) (rest : List Char) :
    commentChange (c :: rest) =
      ((commentAt c rest).map fun comment => (openState comment).depth).sum +
        commentChange (rest.drop (scan c rest).2) := by
  simp [commentChange, comments_piece]

theorem withoutComments_piece (c : Char) (rest : List Char) :
    withoutComments (c :: rest) =
      (if (partAt c rest).isComment then [] else c :: rest.take (scan c rest).2) ++
        withoutComments (rest.drop (scan c rest).2) := by
  rw [withoutComments, parts_piece, List.filter_append, List.map_append]
  generalize c :: rest.take (scan c rest).2 = piece
  cases hcomment : (partAt c rest).isComment <;>
    simp [withoutComments, List.filter_map, Function.comp_def, hcomment]

/-- A comment is no token. -/
theorem tokenAt_of_isComment {c : Char} {rest : List Char} (h : (partAt c rest).isComment = true)
    (position : Position) : tokenAt position c rest = [] := by
  unfold partAt at h
  unfold tokenAt
  generalize scan c rest = found at h ⊢
  obtain ⟨found, size⟩ := found
  cases found with
  | none => rfl
  | some lexeme =>
    dsimp only at h
    split at h <;> cases h

/-! ## Reading pieces -/

theorem bracketChange_wordLexeme (word : List Char) : (wordLexeme word).bracketChange = 0 := by
  unfold wordLexeme
  split
  · rename_i entry hentry
    have hall : ∀ entry ∈ reservedWords, entry.2.bracketChange = 0 := by decide
    exact hall entry (List.mem_of_find?_eq_some hentry)
  · rfl

/-- What the lexer takes at once opens or closes the bracket that it is, unless it is a comment. -/
theorem opens_piece {c : Char} {rest : List Char} (hcomment : (partAt c rest).isComment = false)
    (hstray : ∀ d, (scan c rest).1 ≠ some (.stray d)) (position : Position) :
    Opens (c :: rest.take (scan c rest).2) (bracketBalance (tokenAt position c rest)) := by
  have htakes := takes_scan c rest
  unfold partAt at hcomment
  unfold tokenAt
  generalize scan c rest = found at hcomment hstray htakes ⊢
  obtain ⟨lexeme?, size⟩ := found
  cases htakes with
  | number hchars hlexeme =>
    obtain ⟨text, rfl | rfl⟩ := hlexeme <;> exact .number hchars
  | variableName hc hlexeme =>
    have hfirst : Opens [c] 0 := by
      rw [hc]
      exact .neutral rfl
    rw [hlexeme]
    exact hfirst.append (.name fun d => isNamePart_of_mem_take)
  | word hc hlexeme =>
    rw [hlexeme, bracketBalance_cons, bracketChange_wordLexeme]
    exact .name (List.forall_mem_cons.mpr ⟨hc, fun d => isNamePart_of_mem_take⟩)
  | @string lexeme size hquote hclosing hlexeme =>
    have hchange : lexeme.bracketChange = 0 := by
      cases lexeme with
      | single raw | double raw => rfl
      | _ => cases hlexeme
    rw [bracketBalance_cons, hchange]
    exact .string hquote hclosing
  | blockComment hsize =>
    have hc : c = '/' := by
      unfold commentSize? at hsize
      exact (Option.ite_none_right_eq_some.mp hsize).1
    simp only [hc, if_true] at hcomment
    split at hcomment <;> cases hcomment
  | lineComment hstarts => simp [hstarts, Part.isComment] at hcomment
  | blank hblank =>
    exact .of_class (by decide) (List.all_eq_true.mpr (List.forall_mem_singleton.mpr hblank))
  | symbol hsymbol =>
    rw [bracketBalance_cons, bracketBalance_nil, Int.add_zero]
    exact .symbol hsymbol
  | stray => exact absurd rfl (hstray c)

/-- Without its comments, a text opens what its tokens do. -/
theorem opens_withoutComments {text : List Char} {position : Position}
    (h : WellJoined ((tokensFrom 0 position text).map Token.lexeme)) :
    Opens (withoutComments text) (bracketBalance (tokensFrom 0 position text)) := by
  induction text using scan_induction generalizing position with
  | nil => exact .nil
  | piece c rest ih =>
    have hrest := ih h.rest
    rw [withoutComments_piece, tokensFrom_piece, bracketBalance_append]
    cases hcomment : (partAt c rest).isComment with
    | true =>
      rw [tokenAt_of_isComment hcomment]
      exact Opens.nil.append hrest
    | false => exact (opens_piece hcomment h.scan_ne_stray position).append hrest

/-- A text opens what its tokens and its comments do, if no comment leaves a quote open. -/
theorem opens_text {text : List Char} {position : Position}
    (h : WellJoined ((tokensFrom 0 position text).map Token.lexeme))
    (hquotes : ∀ comment ∈ comments text, (openState comment).quote = none) :
    Opens text (bracketBalance (tokensFrom 0 position text) + commentChange text) := by
  induction text using scan_induction generalizing position with
  | nil => exact .nil
  | piece c rest ih =>
    rw [comments_piece] at hquotes
    obtain ⟨hfirst, hothers⟩ := List.forall_mem_append.mp hquotes
    have hrest := ih h.rest hothers
    have hpiece : Opens (c :: rest.take (scan c rest).2)
        (bracketBalance (tokenAt position c rest) +
          ((commentAt c rest).map fun comment => (openState comment).depth).sum) := by
      unfold commentAt at hfirst ⊢
      cases hcomment : (partAt c rest).isComment with
      | true =>
        rw [tokenAt_of_isComment hcomment]
        rw [hcomment] at hfirst
        simpa using Opens.of_openState (hfirst _ List.mem_cons_self)
      | false => simpa using opens_piece hcomment h.scan_ne_stray position
    have hwhole := hpiece.append hrest
    rw [List.cons_append, List.take_append_drop] at hwhole
    rw [tokensFrom_piece, bracketBalance_append, commentChange_piece]
    convert hwhole using 1
    omega

/-! ## Programs -/

theorem Opens.openState_eq {chars : List Char} {change : Int} (h : Opens chars change) :
    openState chars = ⟨change, none, false⟩ := by
  rw [openState, h 0, Int.zero_add]

theorem isUnclosed_eq_of_opens {text : String} {change : Int} (h : Opens text.toList change) :
    isUnclosed text = decide (0 < change) := by
  have hstate : isUnclosed text =
      (decide (0 < (openState text.toList).depth) || (openState text.toList).quote.isSome) := rfl
  rw [hstate, h.openState_eq]
  exact Bool.or_false _

/-- A program without its comments is never unclosed. If none of its comments, read by itself,
    leaves a quote open, then the program is unclosed if its comments open more brackets than they
    close, and the enter key submits it otherwise; so it submits every program whose comments open
    none. -/
theorem program_unclosed_by_comments {text : String} {nodes : List Node}
    (htags : splitOpenTag text.toList = none) (hparse : parse text = .ok nodes) :
    isUnclosed (String.ofList (withoutComments text.toList)) = false ∧
      ((∀ comment ∈ comments text.toList, (openState comment).quote = none) →
        isUnclosed text = decide (0 < commentChange text.toList) ∧
        pressKey text .enter =
          if 0 < commentChange text.toList then (text ++ "\n", none)
          else ("", some (.submitted text))) := by
  obtain ⟨final, hfinal, -⟩ := parse_eq_ok_iff.mp hparse
  have hjoined := wellJoined_of_foldlM hfinal
  have hclosed := bracketBalance_of_parse hparse
  rw [expandTags_eq_self htags, tokens] at hjoined hclosed
  constructor
  · have hopens := opens_withoutComments hjoined
    rw [hclosed, ← String.toList_ofList (l := withoutComments text.toList)] at hopens
    exact isUnclosed_eq_of_opens hopens
  · intro hquotes
    have hopens := opens_text hjoined hquotes
    rw [hclosed, Int.zero_add] at hopens
    have hunclosed := isUnclosed_eq_of_opens hopens
    refine ⟨hunclosed, ?_⟩
    simp only [pressKey, hunclosed, decide_eq_true_eq]

/-- `g(['(']); /* [ */ # ]` is submitted: one comment opens a bracket, and the other closes one. -/
theorem program_unclosed_by_comments_none :
    let text := "g(['(']); /* [ */ # ]"
    let item : ArrayItem Node := ⟨some 1, ⟨some 1, .str "("⟩, none⟩
    let nodes : List Node :=
      [⟨some 1, .call "g" [⟨some 1, .arg ⟨some 1, .arrayLiteral [item]⟩⟩]⟩]
    parse text = .ok nodes ∧ comments text.toList = ["/* [ */".toList, "# ]".toList] ∧
      isUnclosed text = false ∧ pressKey text .enter = ("", some (.submitted text)) := by
  intro text item nodes
  have hparse : parse text = .ok nodes := by
    have htokens : tokens (expandTags text.toList) =
        [⟨.identifier "g", "g", 1, 1⟩, ⟨.openParen, "(", 1, 2⟩, ⟨.openBracket, "[", 1, 3⟩,
          ⟨.single ['('], "'('", 1, 4⟩, ⟨.closeBracket, "]", 1, 7⟩, ⟨.closeParen, ")", 1, 8⟩,
          ⟨.semicolon, ";", 1, 9⟩] := by
      decide +kernel
    rw [parse, htokens]
    rfl
  have htags : splitOpenTag text.toList = none := by decide +kernel
  have hcomments : comments text.toList = ["/* [ */".toList, "# ]".toList] := by decide +kernel
  have hquotes : ∀ comment ∈ comments text.toList, (openState comment).quote = none := by
    rw [hcomments]
    decide
  have hchange : commentChange text.toList = 0 := by
    rw [commentChange, hcomments]
    rfl
  obtain ⟨-, hunclosed⟩ := program_unclosed_by_comments htags hparse
  obtain ⟨hclosed, hpressed⟩ := hunclosed hquotes
  rw [hchange] at hclosed hpressed
  exact ⟨hparse, hcomments, hclosed, hpressed⟩

/-- The program `echo 1; // (` is not submitted, although every bracket of it is closed. -/
theorem program_unclosed_by_comments_parenthesis :
    let text := "echo 1; // ("
    splitOpenTag text.toList = none ∧
      parse text = .ok [⟨some 1, .echo [⟨some 1, .int 1⟩]⟩] ∧
      isUnclosed text = true ∧ pressKey text .enter = (text ++ "\n", none) := by
  intro text
  have hparse : parse text = .ok [⟨some 1, .echo [⟨some 1, .int 1⟩]⟩] := by
    have htokens : tokens (expandTags text.toList) =
        [⟨.keyword .echo, "echo", 1, 1⟩, ⟨.int ['1'], "1", 1, 6⟩, ⟨.semicolon, ";", 1, 7⟩] := by
      decide +kernel
    rw [parse, htokens]
    rfl
  have hunclosed : isUnclosed text = true := by decide +kernel
  exact ⟨by decide +kernel, hparse, hunclosed, if_pos hunclosed⟩

end WebScript
