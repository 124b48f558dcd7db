import WebScript.Proofs.Joining

/-!
# Programs put together

Two programs on lines after each other are one program, whose statements are those of both, and
braces around a program change nothing. The tokens of the whole text are those of its parts; a
program that ends here can be followed by the start of another one (`ParserState.step_of_settled?`);
and reading the second program goes on after the first as it would by itself, at another `Site`.
-/

namespace WebScript

/-! ## Tokens of programs -/

section StartsNothing

variable {token : Token} (h : token.lexeme.startsNothing = true)

include h

theorem Bracket.closeEmpty?_of_startsNothing (bracket : Bracket) :
    bracket.closeEmpty? token.lexeme = none := by
  have hparen : token.lexeme ≠ .closeParen := Lexeme.ne_of_startsNothing h rfl
  have hbracket : token.lexeme ≠ .closeBracket := Lexeme.ne_of_startsNothing h rfl
  cases bracket with
  | items round line done key => cases round <;> exact if_neg ‹_›
  | paren line => rfl
  | index base | args name line done => exact if_neg ‹_›

/-- A token that starts nothing is no operand. -/
theorem ExprState.operandStep_of_startsNothing (state : ExprState) (closable : Bool) :
    state.operandStep token closable = .reject := by
  have hclose : state.closeStep token.lexeme closable = .reject := by
    unfold ExprState.closeStep
    split
    · rw [Bracket.closeEmpty?_of_startsNothing h]
    · rfl
  rw [← hclose]
  unfold ExprState.operandStep
  cases hlexeme : token.lexeme with
  | binary op | compound op | stray c => rfl
  | keyword word =>
    cases word with
    | elseIf | otherwise => rfl
    | _ =>
      rw [hlexeme] at h
      cases h
  | _ =>
    rw [hlexeme] at h
    cases h

theorem expressionStep_start_of_startsNothing (context : ExprContext) (fault : Option SourceError)
    (stack : List StatementFrame) :
    expressionStep context (.start fault) stack token = none := by
  have hstep : (ExprState.start fault).step token = .reject :=
    ExprState.operandStep_of_startsNothing h _ false
  rw [expressionStep, hstep]

/-- A token that starts nothing starts no statement. -/
theorem statementStep_of_startsNothing (stack : List StatementFrame)
    (fault : Option SourceError) : statementStep stack fault token = none := by
  rw [← expressionStep_start_of_startsNothing h .statement fault stack]
  unfold statementStep
  split
  case h_9 => rfl
  all_goals
    rename_i heq
    rw [heq] at h
    cases h

/-- A token that starts nothing, and adds no part to an `if`, can only be read directly after an
    operand. -/
theorem ParserState.operator_of_step {state next : ParserState}
    (helseIf : token.lexeme ≠ .keyword .elseIf) (helse : token.lexeme ≠ .keyword .otherwise)
    (hnext : state.step token = some next) :
    ∃ context inner current, state.mode = .expression context inner ∧
      inner.mode = .operator current ∧
      expressionStep context inner state.stack token = some next := by
  obtain ⟨mode, stack, fault⟩ := state
  unfold ParserState.step at hnext
  simp only at hnext
  split at hnext
  case h_1 | h_4 =>
    rw [statementStep_of_startsNothing h] at hnext
    cases hnext
  case h_2 => exact absurd ‹_› helseIf
  case h_3 => exact absurd ‹_› helse
  case h_6 context inner =>
    cases hmode : inner.mode with
    | operator current => exact ⟨context, inner, current, rfl, hmode, hnext⟩
    | operand closable =>
      have hstep : inner.step token = .reject := by
        rw [ExprState.step, hmode]
        exact ExprState.operandStep_of_startsNothing h inner closable
      rw [expressionStep, hstep] at hnext
      cases hnext
    | arrayOpen line =>
      have hparen : token.lexeme ≠ .openParen := Lexeme.ne_of_startsNothing h rfl
      have hstep : inner.step token = .reject := by
        simp only [ExprState.step, hmode, if_neg hparen]
      rw [expressionStep, hstep] at hnext
      cases hnext
  case h_8 =>
    rw [expressionStep_start_of_startsNothing h] at hnext
    cases hnext
  case h_22 => cases hnext
  all_goals
    rename_i heq
    exact absurd heq (Lexeme.ne_of_startsNothing h rfl)

end StartsNothing

/-- Whether the next token has to start an operand. -/
def ParserState.AwaitsOperand (state : ParserState) : Prop :=
  ∃ context inner, state.mode = .expression context inner ∧ inner.mode = .operand false

theorem expressionStep_stray {context : ExprContext} {inner : ExprState}
    {stack : List StatementFrame} {token : Token} {c : Char} {current : Operand}
    (h : token.lexeme = .stray c) (hmode : inner.mode = .operator current) :
    expressionStep context inner stack token = none := by
  have hnext : ∀ (bracket : Bracket) (operand : Operand),
      bracket.next? operand (.stray c) = none := by
    intro bracket operand
    cases bracket with
    | items round line done key => cases round <;> simp [Bracket.next?, arrayCloser]
    | _ => simp [Bracket.next?]
  have hstep : inner.step token = inner.endStep current (.stray c) := by
    rw [ExprState.step, hmode, h]
    rfl
  rw [expressionStep, hstep, ExprState.endStep, h]
  cases inner.outer with
  | nil => cases context <;> rfl
  | cons first outer => simp only [hnext]

/-- A character that is part of no token is refused in every state. -/
theorem ParserState.step_stray {state : ParserState} {token : Token} {c : Char}
    (h : token.lexeme = .stray c) : state.step token = none := by
  refine Option.eq_none_iff_forall_ne_some.mpr fun next hnext => ?_
  obtain ⟨context, inner, current, -, hmode, hexpression⟩ :=
    ParserState.operator_of_step (by rw [h]; rfl) (by rw [h]; nofun) (by rw [h]; nofun) hnext
  rw [expressionStep_stray h hmode] at hexpression
  cases hexpression

/-- After an operator an operand has to follow. -/
theorem ParserState.awaitsOperand_of_step {state next : ParserState} {token : Token}
    {op : BinaryOperator} (h : token.lexeme = .binary op) (hnext : state.step token = some next) :
    next.AwaitsOperand := by
  obtain ⟨context, inner, current, -, hmode, hexpression⟩ :=
    ParserState.operator_of_step (by rw [h]; rfl) (by rw [h]; nofun) (by rw [h]; nofun) hnext
  have hstep : inner.step token = inner.betweenStep current op.binding (.binary op) := by
    rw [ExprState.step, hmode, h]
    rfl
  rw [expressionStep, hstep, ExprState.betweenStep] at hexpression
  cases hleft : makeLeft op.binding current tightest inner.pending inner.fault with
  | none =>
    rw [hleft] at hexpression
    cases hexpression
  | some found =>
    rw [hleft] at hexpression
    cases hexpression
    exact ⟨context, _, rfl, rfl⟩

/-- Where an operand has to follow, a token that starts nothing is refused. -/
theorem ParserState.AwaitsOperand.not_startsNothing {state next : ParserState} {token : Token}
    (h : state.AwaitsOperand) (hnext : state.step token = some next) :
    token.lexeme.startsNothing = false := by
  obtain ⟨context, inner, hexpression, hmode⟩ := h
  refine Bool.of_not_eq_true fun hstart => ?_
  have hstep : inner.step token = .reject := by
    rw [ExprState.step, hmode]
    exact ExprState.operandStep_of_startsNothing hstart inner false
  obtain ⟨mode, stack, fault⟩ := state
  subst hexpression
  simp only [ParserState.step, expressionStep, hstep] at hnext
  cases hnext

/-- The tokens that a program goes on with are well joined. -/
theorem wellJoined_of_foldlM {tokens : List Token} {state final : ParserState}
    (h : tokens.foldlM ParserState.step state = some final) :
    WellJoined (tokens.map Token.lexeme) := by
  induction tokens generalizing state with
  | nil => trivial
  | cons token rest ih =>
    rw [List.foldlM_cons] at h
    obtain ⟨next, hnext, hrest⟩ := Option.bind_eq_some_iff.mp h
    refine ⟨fun c hc => ?_, fun op hop lexeme hlexeme => ?_, ih hrest⟩
    · rw [ParserState.step_stray hc] at hnext
      cases hnext
    · cases rest with
      | nil => cases hlexeme
      | cons second others =>
        cases hlexeme
        rw [List.foldlM_cons] at hrest
        obtain ⟨after, hafter, -⟩ := Option.bind_eq_some_iff.mp hrest
        exact (ParserState.awaitsOperand_of_step hop hnext).not_startsNothing hafter

/-! ## The end of a program -/

/-- The open statements of a program that may end here or go on with another statement; an `if` at
    its end is complete. -/
def ParserState.settled? (state : ParserState) : Option (List StatementFrame) :=
  match state.mode with
  | .clauses head => some (deliverAll [head.finish none] state.stack)
  | .statement => some state.stack
  | _ => none

/-- A text ends between statements, outside of all braces. -/
theorem ParserState.finish?_eq_some_iff {state : ParserState} {nodes : List Node} :
    state.finish? = some nodes ↔ state.settled? = some [.list .program nodes.reverse] := by
  obtain ⟨mode, stack, fault⟩ := state
  cases mode with
  | clauses head => exact (ParserState.finish?_statement _ fault).trans Option.some_inj.symm
  | statement => exact (ParserState.finish?_statement _ fault).trans Option.some_inj.symm
  | _ => simp [ParserState.finish?, ParserState.settled?]

/-- Between statements a token that continues no `if` starts a statement. -/
theorem ParserState.step_of_settled? {state : ParserState} {stack : List StatementFrame}
    {token : Token} (h : state.settled? = some stack) (helseIf : token.lexeme ≠ .keyword .elseIf)
    (helse : token.lexeme ≠ .keyword .otherwise) :
    state.step token = statementStep stack state.fault token := by
  obtain ⟨mode, frames, fault⟩ := state
  cases mode with
  | statement =>
    cases h
    rfl
  | clauses head =>
    cases h
    simp only [ParserState.step]
  | _ => cases h

theorem Site.settled?_place (site : Site) {state : ParserState} {stack : List StatementFrame}
    (h : state.settled? = some stack) : (site.place state).settled? = some (site.stack stack) := by
  obtain ⟨mode, frames, fault⟩ := state
  cases mode with
  | statement =>
    cases h
    rfl
  | clauses head =>
    cases h
    rw [← site.deliverAll_stack, List.map_singleton, ← IfHead.finish_shiftLines]
    rfl
  | _ => cases h

/-- Reading tokens succeeds if no token is refused, the text may end there and no fault was met. -/
theorem readTokens_eq_ok_iff {tokens : List Token} {state : ParserState} {last : Option Token}
    {nodes : List Node} :
    readTokens state last tokens = .ok nodes ↔
      ∃ final, tokens.foldlM ParserState.step state = some final ∧ final.finish? = some nodes ∧
        final.fault = none := by
  induction tokens generalizing state last with
  | nil =>
    simp only [readTokens, List.foldlM_nil, Option.pure_def, Option.some.injEq, exists_eq_left']
    cases state.finish? with
    | none => simp
    | some found => cases state.fault <;> simp
  | cons token rest ih =>
    rw [readTokens, List.foldlM_cons]
    cases state.step token with
    | none => simp
    | some next => exact ih

/-- A text is a program if its tokens can be read one after another and nothing is wrong then. -/
theorem parse_eq_ok_iff {source : String} {nodes : List Node} :
    parse source = .ok nodes ↔
      ∃ final, (tokens (expandTags source.toList)).foldlM ParserState.step .start = some final ∧
        final.settled? = some [.list .program nodes.reverse] ∧ final.fault = none ∧
        appendReadList? nodes = none := by
  constructor
  · intro h
    obtain ⟨hread, happend⟩ := parse_eq_ok h
    obtain ⟨final, hfinal, hfinish, hfault⟩ := readTokens_eq_ok_iff.mp hread
    exact ⟨final, hfinal, ParserState.finish?_eq_some_iff.mp hfinish, hfault, happend⟩
  · rintro ⟨final, hfinal, hsettled, hfault, happend⟩
    have hread : readTokens .start none (tokens (expandTags source.toList)) = .ok nodes :=
      readTokens_eq_ok_iff.mpr
        ⟨final, hfinal, ParserState.finish?_eq_some_iff.mpr hsettled, hfault⟩
    rw [parse, hread]
    show rejectAppendReads nodes = _
    rw [rejectAppendReads, happend]

/-! ## Programs after each other and in braces -/

/-- After a program that ends here, the tokens of another one are read as after the list of its
    statements. -/
theorem foldlM_of_settled? {state final : ParserState} {done : List Node} {tokens : List Token}
    (h : state.settled? = some [.list .program done]) (hfault : state.fault = none)
    (htokens : tokens.foldlM ParserState.step ⟨.statement, [.list .program done], none⟩ =
      some final) :
    ∃ other, tokens.foldlM ParserState.step state = some other ∧
      other.settled? = final.settled? ∧ other.fault = final.fault := by
  cases tokens with
  | nil =>
    cases htokens
    exact ⟨state, rfl, h, hfault⟩
  | cons token rest =>
    -- A program starts with neither `else` nor `elseif`, so an `if` before it is complete.
    have hstart : token.lexeme.startsNothing ≠ true := by
      intro hstart
      rw [List.foldlM_cons, ParserState.step, statementStep_of_startsNothing hstart] at htokens
      cases htokens
    refine ⟨final, ?_, rfl, rfl⟩
    rw [← htokens, List.foldlM_cons, List.foldlM_cons, ParserState.step_of_settled? h, hfault]
    · rfl
    · intro heq
      exact hstart (by rw [heq]; rfl)
    · intro heq
      exact hstart (by rw [heq]; rfl)

theorem map_lexeme_of_lowered {k : Nat} {tokens lowers : List Token}
    (h : List.Forall₂ (Token.Lowered k) tokens lowers) :
    lowers.map Token.lexeme = tokens.map Token.lexeme := by
  induction h with
  | nil => rfl
  | cons htoken hrest ih => rw [List.map_cons, List.map_cons, htoken.lexeme, ih]

/-- A program that starts further down is read after other statements as by itself. -/
theorem foldlM_of_parse {p : String} {nodes done : List Node} {state : ParserState}
    (hp : splitOpenTag p.toList = none) (h : parse p = .ok nodes)
    (hsettled : state.settled? = some [.list .program done]) (hfault : state.fault = none)
    (k column : Nat) :
    ∃ final,
      (tokensFrom 0 ⟨1 + k, column⟩ p.toList).foldlM ParserState.step state = some final ∧
        final.settled? =
          some [.list .program ((nodes.map (Node.shiftLines k)).reverse ++ done)] ∧
        final.fault = none := by
  obtain ⟨last, hlast, hend, hlastFault, -⟩ := parse_eq_ok_iff.mp h
  rw [expandTags_eq_self hp] at hlast
  -- The program goes on where it would start by itself, after the statements before it.
  let site : Site := ⟨k, .program, done, []⟩
  have hplaced := site.foldlM_place (tokensFrom_lowered p.toList 0 k 1 1 column) hlast
  obtain ⟨final, hfinal, hsame, hsameFault⟩ := foldlM_of_settled? hsettled hfault hplaced
  refine ⟨final, hfinal, ?_, ?_⟩
  · rw [hsame, site.settled?_place hend]
    simp [site, Site.stack]
  · rw [hsameFault]
    simp [Site.place, hlastFault]

/-- Two programs with a line break between them are one, in which the statements of the second are
    further down by the lines of the first. -/
theorem parse_lineBreak {p q : String} {first second : List Node}
    (hp : splitOpenTag p.toList = none) (hq : splitOpenTag q.toList = none)
    (hfirst : parse p = .ok first) (hsecond : parse q = .ok second) :
    parse (p ++ "\n" ++ q) =
      .ok (first ++ second.map (Node.shiftLines (1 + p.toList.count '\n'))) := by
  obtain ⟨middle, hmiddle, hsettled, hfault, happend⟩ := parse_eq_ok_iff.mp hfirst
  obtain ⟨-, -, -, -, hlastAppend⟩ := parse_eq_ok_iff.mp hsecond
  rw [expandTags_eq_self hp] at hmiddle
  generalize hk : 1 + p.toList.count '\n' = k
  have hchars : (p ++ "\n" ++ q).toList = p.toList ++ '\n' :: q.toList := by
    simp [String.toList_append]
  have htokens : tokens (expandTags (p ++ "\n" ++ q).toList) =
      tokens p.toList ++ tokensFrom 0 ⟨1 + k, 1⟩ q.toList := by
    have hline : 1 + p.toList.count '\n' + 1 = 1 + k := by omega
    rw [hchars, expandTags_eq_self (splitOpenTag_lineBreak hp hq), tokens,
      tokensFrom_lineBreak (wellJoined_of_foldlM hmiddle), hline]
    rfl
  obtain ⟨final, hfinal, hend, hendFault⟩ := foldlM_of_parse hq hsecond hsettled hfault k 1
  refine parse_eq_ok_iff.mpr ⟨final, ?_, ?_, hendFault, ?_⟩
  · rw [htokens, List.foldlM_append, hmiddle]
    exact hfinal
  · rw [hend, List.reverse_append]
  · have hshift : appendReadList? (second.map (Node.shiftLines k)) = none :=
      appendReadList?_of_eraseLines (by simp) hlastAppend
    rw [appendReadList?_eq_none_iff] at happend hshift ⊢
    exact List.forall_mem_append.mpr ⟨happend, hshift⟩

/-- A mark is a token whatever follows it. -/
theorem scan_mark {c : Char} {lexeme : Lexeme}
    (h : (c, lexeme) ∈ [('{', Lexeme.openBrace), (';', .semicolon)]) (rest : List Char) :
    scan c rest = (some lexeme, 0) := by
  simp only [List.mem_cons, List.not_mem_nil, or_false, Prod.mk.injEq] at h
  have hdigit : isDecimalDigit c = false := by rcases h with ⟨rfl, -⟩ | ⟨rfl, -⟩ <;> decide
  have hpoint : c ≠ '.' := by rcases h with ⟨rfl, -⟩ | ⟨rfl, -⟩ <;> decide
  rw [scan_eq]
  simp only [floatLength_of_symbol hdigit hpoint, intLength_eq_zero hdigit]
  rcases h with ⟨rfl, rfl⟩ | ⟨rfl, rfl⟩ <;> rfl

theorem tokensFrom_closeBrace (position : Position) :
    tokensFrom 0 position ['}'] = [⟨.closeBrace, "\x7d", position.line, position.column⟩] := by
  have hscan : scan '}' [] = (some .closeBrace, 0) := by decide
  rw [tokensFrom_cons, hscan]
  rfl

/-- The braces around a text are one token each, and leave the tokens of the text as they are. -/
theorem tokens_inBraces {text : List Char}
    (h : WellJoined ((tokensFrom 0 ⟨1, 2⟩ text).map Token.lexeme)) :
    ∃ opening closing : Token, opening.lexeme = .openBrace ∧ closing.lexeme = .closeBrace ∧
      tokens ('{' :: (text ++ '\n' :: ['}'])) =
        opening :: (tokensFrom 0 ⟨1, 2⟩ text ++ [closing]) := by
  have hopen : ∀ rest, scan '{' rest = (some .openBrace, 0) := scan_mark (by decide)
  have hinner := tokensFrom_lineBreak h ['}']
  rw [tokensFrom_closeBrace] at hinner
  refine ⟨⟨.openBrace, "\x7b", 1, 1⟩, ⟨.closeBrace, "\x7d", 1 + text.count '\n' + 1, 1⟩, rfl, rfl,
    ?_⟩
  rw [tokens, tokensFrom_cons, hopen, ← hinner]
  rfl

/-- Braces around a program change nothing. -/
theorem parse_inBraces {p : String} {nodes : List Node} (hp : splitOpenTag p.toList = none)
    (h : parse p = .ok nodes) : parse ("\x7b" ++ p ++ "\n\x7d") = .ok nodes := by
  obtain ⟨last, hlast, hsettled, hfault, happend⟩ := parse_eq_ok_iff.mp h
  rw [expandTags_eq_self hp] at hlast
  have hchars : ("\x7b" ++ p ++ "\n\x7d").toList = '{' :: (p.toList ++ '\n' :: ['}']) := by
    simp [String.toList_append]
  have htag : splitOpenTag ('{' :: (p.toList ++ '\n' :: ['}'])) = none :=
    splitOpenTag_eq_none_cons.mpr ⟨rfl, splitOpenTag_lineBreak hp rfl⟩
  have hlowered := tokensFrom_lowered p.toList 0 0 1 1 2
  have hjoined : WellJoined ((tokensFrom 0 ⟨1, 2⟩ p.toList).map Token.lexeme) := by
    have hlexemes := map_lexeme_of_lowered hlowered
    rw [hlexemes]
    exact wellJoined_of_foldlM hlast
  obtain ⟨opening, closing, hopening, hclosing, htokens⟩ := tokens_inBraces hjoined
  -- The program is read inside a block, which joins the empty list of statements around it.
  let site : Site := ⟨0, .block, [], [.list .program []]⟩
  have hplaced := site.foldlM_place hlowered hlast
  have hopen : ParserState.start.step opening = some (site.place .start) := by
    simp only [ParserState.step, statementStep, hopening]
    rfl
  have hclose : (site.place last).step closing =
      some ⟨.statement, [.list .program nodes.reverse], none⟩ := by
    rw [ParserState.step_of_settled? (site.settled?_place hsettled) (by simp [hclosing])
      (by simp [hclosing])]
    simp [statementStep, hclosing, site, Site.stack, Site.place, closeList?, deliver, hfault]
  refine parse_eq_ok_iff.mpr
    ⟨⟨.statement, [.list .program nodes.reverse], none⟩, ?_, rfl, rfl, happend⟩
  rw [hchars, expandTags_eq_self htag, htokens, List.foldlM_cons, hopen]
  show List.foldlM _ _ _ = _
  rw [List.foldlM_append, hplaced]
  show List.foldlM _ _ _ = _
  rw [List.foldlM_cons, hclose]
  rfl

/-- Programs compose. Two accepted texts without open tags, with a line break between them, are
    accepted, and give the statements of the first and then those of the second, moved down by the
    lines above them; and an accepted text in braces, the closing one on a line of its own, gives
    the same statements as without the braces, lines included. -/
theorem parse_composes (p q : String) (first second : List Node)
    (hp : splitOpenTag p.toList = none) (hq : splitOpenTag q.toList = none)
    (hfirst : parse p = .ok first) (hsecond : parse q = .ok second) :
    parse (p ++ "\n" ++ q) =
        .ok (first ++ second.map (Node.shiftLines (1 + p.toList.count '\n'))) ∧
      parse ("\x7b" ++ p ++ "\n\x7d") = .ok first :=
  ⟨parse_lineBreak hp hq hfirst hsecond, parse_inBraces hp hfirst⟩

theorem parse_composes_if :
    parse ("if ($a)\n; # '" ++ "\n" ++ "\x7b echo 1; \x7d") =
        .ok [⟨some 1, .conditional ⟨some 1, .variable "a"⟩ [⟨some 2, .nop⟩] [] none⟩,
          ⟨some 3, .echo [⟨some 3, .int 1⟩]⟩] ∧
      parse ("\x7b" ++ "if ($a)\n; # '" ++ "\n\x7d") =
        .ok [⟨some 1, .conditional ⟨some 1, .variable "a"⟩ [⟨some 2, .nop⟩] [] none⟩] := by
  have hfirst : parse "if ($a)\n; # '" =
      .ok [⟨some 1, .conditional ⟨some 1, .variable "a"⟩ [⟨some 2, .nop⟩] [] none⟩] := by
    have htokens : tokens (expandTags "if ($a)\n; # '".toList) =
        [⟨.keyword .conditional, "if", 1, 1⟩, ⟨.openParen, "(", 1, 4⟩, ⟨.variable "a", "$a", 1, 5⟩,
          ⟨.closeParen, ")", 1, 7⟩, ⟨.semicolon, ";", 2, 1⟩] := by
      decide +kernel
    rw [parse, htokens]
    rfl
  have hsecond : parse "\x7b echo 1; \x7d" = .ok [⟨some 1, .echo [⟨some 1, .int 1⟩]⟩] := by
    have htokens : tokens (expandTags "\x7b echo 1; \x7d".toList) =
        [⟨.openBrace, "\x7b", 1, 1⟩, ⟨.keyword .echo, "echo", 1, 3⟩, ⟨.int ['1'], "1", 1, 8⟩,
          ⟨.semicolon, ";", 1, 9⟩, ⟨.closeBrace, "\x7d", 1, 11⟩] := by
      decide +kernel
    rw [parse, htokens]
    rfl
  exact parse_composes _ _ _ _ (by decide) (by decide) hfirst hsecond

end WebScript
