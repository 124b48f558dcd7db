import WebScript.Proofs.Concatenation

/-!
# Brackets of programs

The parser counts no brackets, but its state shows how many are open: one for each list of statements
in braces, for each bracket in an expression, and for the head of an `if`, a loop or a function. A
token changes this number by the bracket that it is (`ParserState.depth_step`), so in a program as
many brackets are closed as are opened.
-/

namespace WebScript

/-! ## Open brackets -/

/-- How many more brackets are open after a token. -/
def Lexeme.bracketChange : Lexeme → Int
  | .openParen | .openBracket | .openBrace => 1
  | .closeParen | .closeBracket | .closeBrace => -1
  | _ => 0

/-- How many more brackets are open after a row of tokens. -/
def bracketBalance (tokens : List Token) : Int :=
  (tokens.map fun token => token.lexeme.bracketChange).sum

/-- The brackets around an expression that belong to its statement. -/
def ExprContext.depth : ExprContext → Int
  | .statement | .echo .. | .ret _ => 0
  | .ifCond _ | .elseIfCond .. | .foreachSource _ | .default .. => 1

/-- The brackets that a statement is open with. -/
def StatementFrame.depth : StatementFrame → Int
  | .list .block _ | .list (.function _) _ => 1
  | _ => 0

/-- The brackets that are open inside the open statements. -/
def Mode.depth : Mode → Int
  -- The parenthesis that belongs to the context is still to come.
  | .parenthesis context => context.depth - 1
  | .expression context inner => context.depth + inner.outer.length
  | .parameter _ | .parameterEnd .. | .foreachFirst .. | .foreachSecond .. | .foreachValue ..
  | .foreachClose _ => 1
  | .statement | .clauses _ | .returned _ | .functionName _ | .functionOpen .. | .functionBrace _ =>
    0

/-- The brackets that open statements are open with. -/
def stackDepth (stack : List StatementFrame) : Int := (stack.map StatementFrame.depth).sum

/-- The brackets that are open. -/
def ParserState.depth (state : ParserState) : Int := state.mode.depth + stackDepth state.stack

@[simp] theorem bracketBalance_nil : bracketBalance [] = 0 := rfl

@[simp] theorem bracketBalance_cons (token : Token) (rest : List Token) :
    bracketBalance (token :: rest) = token.lexeme.bracketChange + bracketBalance rest := by
  simp [bracketBalance]

@[simp] theorem bracketBalance_append (first second : List Token) :
    bracketBalance (first ++ second) = bracketBalance first + bracketBalance second := by
  simp [bracketBalance]

@[simp] theorem stackDepth_cons (frame : StatementFrame) (rest : List StatementFrame) :
    stackDepth (frame :: rest) = frame.depth + stackDepth rest := by
  simp [stackDepth]

/-! ## Expressions -/

/-- A token does to the open brackets of an expression what it does to those of the text; none is
    open where the expression ends. -/
def ExprStep.Counts (before : ExprState) (lexeme : Lexeme) : ExprStep → Prop
  | .more next => (next.outer.length : Int) = before.outer.length + lexeme.bracketChange
  | .done _ _ => before.outer = []
  | .reject => True

theorem bracketChange_arrayCloser (round : Bool) : (arrayCloser round).bracketChange = -1 := by
  cases round <;> rfl

/-- Only the counterpart of a bracket closes it with nothing in it. -/
theorem Bracket.bracketChange_of_closeEmpty? {bracket : Bracket} {lexeme : Lexeme}
    {operand : Operand} (h : bracket.closeEmpty? lexeme = some operand) :
    lexeme.bracketChange = -1 := by
  unfold Bracket.closeEmpty? at h
  split at h
  · cases h
  · obtain ⟨rfl, -⟩ := Option.ite_none_right_eq_some.mp h
    rfl
  · obtain ⟨rfl, -⟩ := Option.ite_none_right_eq_some.mp h
    rfl
  · obtain ⟨rfl, -⟩ := Option.ite_none_right_eq_some.mp h
    exact bracketChange_arrayCloser _

/-- How many more brackets are open after a token that ends a part of a bracket. -/
def BracketStep.change : BracketStep → Int
  | .closed _ => -1
  | .reopened .. => 0

/-- A token that ends what stands in a bracket closes the bracket or separates; it counts
    accordingly. -/
theorem Bracket.bracketChange_of_next? {bracket : Bracket} {inner : Operand} {lexeme : Lexeme}
    {step : BracketStep} (h : bracket.next? inner lexeme = some step) :
    lexeme.bracketChange = step.change := by
  unfold Bracket.next? at h
  split at h
  · obtain ⟨rfl, hstep⟩ := Option.ite_none_right_eq_some.mp h
    cases hstep
    rfl
  · obtain ⟨rfl, hstep⟩ := Option.ite_none_right_eq_some.mp h
    cases hstep
    rfl
  · split at h
    · rename_i hcomma
      cases h
      rw [hcomma]
      rfl
    · obtain ⟨rfl, hstep⟩ := Option.ite_none_right_eq_some.mp h
      cases hstep
      rfl
  · split at h
    · rename_i harrow
      cases h
      rw [of_decide_eq_true (Bool.and_eq_true_iff.mp harrow).1]
      rfl
    · split at h
      · rename_i hcomma
        cases h
        rw [hcomma]
        rfl
      · obtain ⟨rfl, hstep⟩ := Option.ite_none_right_eq_some.mp h
        cases hstep
        exact bracketChange_arrayCloser _

section

variable {state : ExprState} {lexeme : Lexeme}

/-- A token that is no bracket leaves the brackets around an expression alone. -/
theorem ExprState.counts_more {next : ExprState} (houter : next.outer = state.outer)
    (h : lexeme.bracketChange = 0) : (ExprStep.more next).Counts state lexeme := by
  show (next.outer.length : Int) = state.outer.length + _
  rw [houter, h, Int.add_zero]

/-- An opening bracket puts one more bracket around what follows. -/
theorem ExprState.counts_openBracket (bracket : Bracket) (closable : Bool)
    (h : lexeme.bracketChange = 1) : (state.openBracket bracket closable).Counts state lexeme := by
  show (List.length (_ :: state.outer) : Int) = state.outer.length + _
  rw [h, List.length_cons, Int.natCast_add]
  rfl

theorem ExprState.counts_gotLiteral (line : Nat) (literal : Except SourceError Node)
    (h : lexeme.bracketChange = 0) : (state.gotLiteral line literal).Counts state lexeme := by
  cases literal <;> exact counts_more rfl h

theorem ExprState.counts_betweenStep (current : Operand) (binding : Binding)
    (operator : Operand → Pending) (h : lexeme.bracketChange = 0) :
    (state.betweenStep current binding operator).Counts state lexeme := by
  unfold ExprState.betweenStep
  split
  · exact counts_more rfl h
  · trivial

/-- A token after an operand closes the bracket around it if it is counted as closing one. -/
theorem ExprState.counts_endStep (current : Operand) :
    (state.endStep current lexeme).Counts state lexeme := by
  unfold ExprState.endStep
  generalize completeAll state.pending current state.fault = found
  obtain ⟨inner, fault⟩ := found
  simp only
  split
  · exact ‹state.outer = []›
  · rename_i bracket pending outer houter
    split
    · rename_i operand hnext
      show (outer.length : Int) = state.outer.length + _
      rw [Bracket.bracketChange_of_next? hnext, houter, List.length_cons, BracketStep.change]
      omega
    · rename_i reopened closable hnext
      show (List.length (_ :: outer) : Int) = state.outer.length + _
      rw [Bracket.bracketChange_of_next? hnext, houter, BracketStep.change, Int.add_zero]
      rfl
    · trivial

end

/-- Where an operand is expected, the brackets around the expression follow the count. -/
theorem ExprState.counts_operandStep (state : ExprState) (token : Token) (closable : Bool) :
    (state.operandStep token closable).Counts state token.lexeme := by
  unfold ExprState.operandStep
  split
  case h_3 | h_6 => exact counts_gotLiteral _ _ (by simp only [*, Lexeme.bracketChange])
  case h_7 | h_9 => exact counts_openBracket _ _ (by simp only [*, Lexeme.bracketChange])
  case h_12 =>
    split
    · exact counts_more rfl (by simp only [*, Lexeme.bracketChange])
    · trivial
  case h_13 =>
    split
    · rename_i bracket pending outer houter
      split
      · rename_i operand hclose
        show (outer.length : Int) = state.outer.length + _
        rw [Bracket.bracketChange_of_closeEmpty? hclose, houter, List.length_cons]
        omega
      · trivial
    · trivial
  all_goals exact counts_more rfl (by simp only [*, Lexeme.bracketChange])

/-- A token of an expression opens or closes the bracket that it is. -/
theorem ExprState.counts_step (state : ExprState) (token : Token) :
    (state.step token).Counts state token.lexeme := by
  unfold ExprState.step
  split
  · exact state.counts_operandStep token _
  · split
    · exact counts_openBracket _ _ (by simp only [*, Lexeme.bracketChange])
    · trivial
  · unfold ExprState.operatorStep
    split
    · exact counts_openBracket _ _ (by simp only [*, Lexeme.bracketChange])
    · split
      · exact counts_openBracket _ _ (by simp only [*, Lexeme.bracketChange])
      · trivial
    · exact counts_betweenStep _ _ _ (by simp only [*, Lexeme.bracketChange])
    · exact counts_betweenStep _ _ _ (by simp only [*, Lexeme.bracketChange])
    · exact counts_betweenStep _ _ _ (by simp only [*, Lexeme.bracketChange])
    · exact counts_betweenStep _ _ _ (by simp only [*, Lexeme.bracketChange])
    · exact counts_endStep _

/-! ## Statements -/

/-- Statements that are handed to the innermost open statement close no brace. -/
theorem depth_deliver (nodes : List Node) (stack : List StatementFrame) :
    (deliver nodes stack).1.depth + stackDepth (deliver nodes stack).2 = stackDepth stack := by
  fun_induction deliver nodes stack with
  | case1 => rfl
  | case2 nodes kind done rest => cases kind <;> simp [Mode.depth, StatementFrame.depth]
  | case3 | case4 => simp [Mode.depth, StatementFrame.depth]
  | case5 nodes head line rest ih | case6 nodes head rest ih =>
    simpa [StatementFrame.depth] using ih

/-- After a complete statement, only the open statements around it are open with brackets. -/
theorem depth_delivered (nodes : List Node) (stack : List StatementFrame)
    (fault : Option SourceError) :
    ParserState.depth ⟨(deliver nodes stack).1, (deliver nodes stack).2, fault⟩ =
      stackDepth stack :=
  depth_deliver nodes stack

theorem stackDepth_deliverAll (nodes : List Node) (stack : List StatementFrame) :
    stackDepth (deliverAll nodes stack) = stackDepth stack := by
  fun_induction deliverAll nodes stack with
  | case1 => rfl
  | case2 nodes kind done rest => cases kind <;> simp [StatementFrame.depth]
  | case3 | case4 | case5 | case6 => simp [StatementFrame.depth, *]

/-! ## Programs -/

theorem depth_start (context : ExprContext) (fault : Option SourceError)
    (stack : List StatementFrame) :
    ParserState.depth ⟨.expression context (.start fault), stack, fault⟩ =
      context.depth + stackDepth stack := by
  simp [ParserState.depth, Mode.depth, ExprState.start]

section

variable {context : ExprContext} {stack : List StatementFrame} {fault : Option SourceError}
  {next : ParserState}

/-- The end of an expression gives its token to the statement that the expression is part of. -/
theorem depth_finish {operand : Operand} {lexeme : Lexeme}
    (h : context.finish? operand fault lexeme stack = some next) :
    next.depth = context.depth + stackDepth stack + lexeme.bracketChange := by
  unfold ExprContext.finish? at h
  split at h
  case h_1 | h_3 | h_4 =>
    cases h
    rw [depth_delivered]
    simp [ExprContext.depth, Lexeme.bracketChange]
  case h_10 => cases h
  all_goals
    cases h
    simp [ParserState.depth, Mode.depth, ExprState.start, ExprContext.depth,
      StatementFrame.depth, Lexeme.bracketChange]

/-- A token of an expression counts as the brackets around the expression do. -/
theorem depth_expressionStep {inner : ExprState} {token : Token}
    (h : expressionStep context inner stack token = some next) :
    next.depth =
      context.depth + inner.outer.length + stackDepth stack + token.lexeme.bracketChange := by
  have hcounts := inner.counts_step token
  unfold expressionStep at h
  split at h
  · rename_i after hstep
    cases h
    rw [hstep] at hcounts
    have hlength : (after.outer.length : Int) =
        inner.outer.length + token.lexeme.bracketChange := hcounts
    simp only [ParserState.depth, Mode.depth, hlength]
    omega
  · rename_i operand found hstep
    rw [hstep] at hcounts
    have houter : inner.outer = [] := hcounts
    rw [depth_finish h, houter]
    simp
  · cases h

/-- The brace at the end of a list of statements takes one level away. -/
theorem depth_closeList (h : closeList? stack fault = some next) :
    next.depth = stackDepth stack - 1 := by
  unfold closeList? at h
  split at h
  · cases h
    simp [ParserState.depth, depth_deliver, StatementFrame.depth]
  · cases h
    simp [ParserState.depth, depth_deliver, StatementFrame.depth]
  · cases h

/-- A token at the start of a statement counts as the levels around it do. -/
theorem depth_statementStep {token : Token} (h : statementStep stack fault token = some next) :
    next.depth = stackDepth stack + token.lexeme.bracketChange := by
  unfold statementStep at h
  split at h
  case h_7 hbrace =>
    rw [depth_closeList h, hbrace]
    rfl
  case h_9 =>
    rw [depth_expressionStep h]
    simp [ExprContext.depth, ExprState.start]
  case h_8 hsemicolon =>
    cases h
    rw [depth_delivered, hsemicolon]
    exact (Int.add_zero _).symm
  all_goals
    rename_i hlexeme
    cases h
    simp [ParserState.depth, Mode.depth, ExprState.start, ExprContext.depth,
      StatementFrame.depth, Lexeme.bracketChange, hlexeme, Int.add_comm]

end

/-- A token opens or closes the bracket that it is. -/
theorem ParserState.depth_step {state next : ParserState} {token : Token}
    (h : state.step token = some next) :
    next.depth = state.depth + token.lexeme.bracketChange := by
  obtain ⟨mode, stack, fault⟩ := state
  unfold ParserState.step at h
  simp only at h
  split at h
  case h_1 =>
    rw [depth_statementStep h]
    simp [ParserState.depth, Mode.depth]
  case h_4 =>
    rw [depth_statementStep h, stackDepth_deliverAll]
    simp [ParserState.depth, Mode.depth]
  case h_5 hparen =>
    cases h
    rw [depth_start, hparen]
    simp only [ParserState.depth, Mode.depth, Lexeme.bracketChange]
    omega
  case h_6 => rw [depth_expressionStep h, ParserState.depth, Mode.depth]
  case h_7 hsemicolon =>
    cases h
    rw [depth_delivered, hsemicolon]
    simp only [ParserState.depth, Mode.depth, Lexeme.bracketChange]
    omega
  case h_8 =>
    rw [depth_expressionStep h]
    simp [ParserState.depth, Mode.depth, ExprContext.depth, ExprState.start]
  case h_22 => cases h
  all_goals
    rename_i hlexeme
    cases h
    simp [ParserState.depth, Mode.depth, ExprState.start, ExprContext.depth,
      StatementFrame.depth, Lexeme.bracketChange, hlexeme, Int.add_comm]

/-- After several tokens the depth has changed by their balance. -/
theorem ParserState.depth_foldlM {tokens : List Token} {state final : ParserState}
    (h : tokens.foldlM ParserState.step state = some final) :
    final.depth = state.depth + bracketBalance tokens := by
  induction tokens generalizing state with
  | nil =>
    cases h
    simp
  | cons token rest ih =>
    rw [List.foldlM_cons] at h
    obtain ⟨next, hnext, hrest⟩ := Option.bind_eq_some_iff.mp h
    rw [ih hrest, depth_step hnext, bracketBalance_cons]
    omega

/-- Between statements, only what is on the stack adds to the depth. -/
theorem ParserState.depth_of_settled? {state : ParserState} {stack : List StatementFrame}
    (h : state.settled? = some stack) : state.depth = stackDepth stack := by
  obtain ⟨mode, frames, fault⟩ := state
  cases mode with
  | statement =>
    cases h
    simp [ParserState.depth, Mode.depth]
  | clauses head =>
    cases h
    simp [ParserState.depth, Mode.depth, stackDepth_deliverAll]
  | _ => cases h

/-- A program closes as many brackets as it opens. -/
theorem bracketBalance_of_parse {source : String} {nodes : List Node}
    (h : parse source = .ok nodes) : bracketBalance (tokens (expandTags source.toList)) = 0 := by
  obtain ⟨final, hfinal, hsettled, -, -⟩ := parse_eq_ok_iff.mp h
  have hdepth := ParserState.depth_foldlM hfinal
  rw [ParserState.depth_of_settled? hsettled] at hdepth
  have hstart : ParserState.start.depth = 0 := rfl
  have hend : stackDepth [.list .program nodes.reverse] = 0 := rfl
  omega

end WebScript
