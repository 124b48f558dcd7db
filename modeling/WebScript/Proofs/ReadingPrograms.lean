import WebScript.Proofs.ReadingExpressions

/-!
# Printed statements read back

The reader of programs takes a printed statement and hands it to the list of statements around it.
After an `if` it does not know yet whether another part follows, so a list is `Settled` when the
next token can only start another statement or end the list. Since all bodies stand in braces, an
`else` always belongs to the `if` before it.
-/

namespace WebScript

/-! ## Expressions inside statements -/

/-- An expression of a statement has just been read. -/
def ExprGot (context : ExprContext) (stack : List StatementFrame) (expr : Node)
    (state : ParserState) : Prop :=
  ∃ inner, ReadAt 1 expr [] [] inner ∧ state = ⟨.expression context inner, stack, inner.fault⟩

/-- A token that continues an expression continues the statement that it is part of. -/
theorem step_expression {context : ExprContext} {stack : List StatementFrame}
    {inner next : ExprState} {token : Token} (h : inner.step token = .more next) :
    ParserState.step ⟨.expression context inner, stack, inner.fault⟩ token =
      some ⟨.expression context next, stack, next.fault⟩ := by
  simp only [ParserState.step, expressionStep, h]

/-- Tokens that are read in an expression are read in a statement around it. -/
theorem Reads.inStatement {goal : ExprState → Prop} {lexemes : List Lexeme} {inner : ExprState}
    (h : Reads ExprState.step? goal lexemes inner) (context : ExprContext)
    (stack : List StatementFrame) :
    Reads ParserState.step
      (fun state => ∃ inner, goal inner ∧ state = ⟨.expression context inner, stack, inner.fault⟩)
      lexemes ⟨.expression context inner, stack, inner.fault⟩ := by
  induction lexemes generalizing inner with
  | nil => exact ⟨inner, h, rfl⟩
  | cons lexeme rest ih =>
    intro token htoken
    obtain ⟨next, hstep, hnext⟩ := h token htoken
    exact ⟨_, step_expression (ExprState.step_of_step? hstep), ih hnext⟩

/-- An expression is read in every state that treats the first token of one as the start of an
    expression. -/
theorem reads_expression (context : ExprContext) (stack : List StatementFrame) {expr : Node}
    {state : ParserState} (hexpr : expr.Readable)
    (hfirst : ∀ token next, (ExprState.start none).step token = .more next →
      state.step token = some ⟨.expression context next, stack, next.fault⟩) :
    Reads ParserState.step (ExprGot context stack expr) (expr.lexemes 1) state := by
  have hread : Reads ExprState.step? (ReadAt 1 expr [] []) (expr.lexemes 1) (.start none) :=
    hexpr 1 (by decide) [] [] false nofun
  cases hlexemes : expr.lexemes 1 with
  | nil =>
    -- Without a token the reader would still wait for an operand.
    rw [hlexemes] at hread
    obtain ⟨waiting, current, whole, hstate, -⟩ := hread
    exact absurd (congrArg ExprState.mode hstate) nofun
  | cons lexeme rest =>
    rw [hlexemes] at hread
    intro token htoken
    obtain ⟨next, hstep, hnext⟩ := hread token htoken
    exact ⟨_, hfirst token next (ExprState.step_of_step? hstep), hnext.inStatement context stack⟩

theorem reads_expression_start {context : ExprContext} {stack : List StatementFrame} {expr : Node}
    (hexpr : expr.Readable) :
    Reads ParserState.step (ExprGot context stack expr) (expr.lexemes 1)
      ⟨.expression context (.start none), stack, none⟩ :=
  reads_expression context stack hexpr fun _ _ => step_expression

/-- A token that ends an expression hands it to what it is read for. -/
theorem ExprGot.step_end {context : ExprContext} {stack : List StatementFrame} {expr : Node}
    {state : ParserState} (h : ExprGot context stack expr state) :
    ∃ whole : Operand, whole.node.eraseLines = expr.eraseLines ∧
      ∀ lexeme ∈ endLexemes, ∀ token : Token, token.lexeme = lexeme →
        state.step token = context.finish? whole none lexeme stack := by
  obtain ⟨inner, hread, rfl⟩ := h
  obtain ⟨whole, hwhole, hstep⟩ := hread.step_end
  refine ⟨whole, hwhole, fun lexeme hend token htoken => ?_⟩
  have hdone : inner.step token = .done whole none := hstep lexeme hend token htoken
  simp only [ParserState.step, expressionStep, hdone, htoken]

/-- A condition in parentheses. -/
theorem reads_condition (context : ExprContext) (stack : List StatementFrame) {cond : Node}
    (hcond : cond.Readable) (next : Operand → ParserState)
    (hnext : ∀ whole, context.finish? whole none .closeParen stack = some (next whole)) :
    Reads ParserState.step
      (fun state => ∃ whole : Operand, whole.node.eraseLines = cond.eraseLines ∧
        state = next whole)
      (inParens (cond.lexemes 1)) ⟨.parenthesis context, stack, none⟩ := by
  intro paren hparen
  refine ⟨⟨.expression context (.start none), stack, none⟩, ?_, ?_⟩
  · simp only [ParserState.step, hparen]
  · refine (reads_expression_start hcond).append fun state hgot close hclose => ?_
    obtain ⟨whole, hwhole, hstep⟩ := hgot.step_end
    exact ⟨next whole, (hstep .closeParen (by decide) close hclose).trans (hnext whole), whole,
      hwhole, rfl⟩

/-! ## Lists of statements -/

/-- The statements of a list have been read up to here, and another one or the end of the list
    follows. -/
def Settled (kind : ListKind) (done : List Node) (rest : List StatementFrame)
    (state : ParserState) : Prop :=
  state = ⟨.statement, .list kind done :: rest, none⟩ ∨
    ∃ head before, state = ⟨.clauses head, .list kind before :: rest, none⟩ ∧
      done = head.finish none :: before

/-- Between statements, every token but those that continue an `if` starts a statement. -/
theorem Settled.step_eq {kind : ListKind} {done : List Node} {rest : List StatementFrame}
    {state : ParserState} (h : Settled kind done rest state) {token : Token}
    (helseIf : token.lexeme ≠ .keyword .elseIf) (helse : token.lexeme ≠ .keyword .otherwise) :
    state.step token = statementStep (.list kind done :: rest) none token := by
  rcases h with rfl | ⟨head, before, rfl, rfl⟩
  · rfl
  · simp only [ParserState.step]
    rfl

/-- The tokens of a statement are read as that statement. -/
def Node.StatementReadable (node : Node) : Prop :=
  ∀ (kind : ListKind) (done : List Node) (rest : List StatementFrame) (state : ParserState),
    Settled kind done rest state →
      Reads ParserState.step
        (fun state => ∃ read : Node, read.eraseLines = node.eraseLines ∧
          Settled kind (read :: done) rest state)
        node.statementLexemes state

/-- Statements are read one after another into the list that is open. -/
theorem reads_statements {nodes : List Node} (hnodes : ∀ node ∈ nodes, node.StatementReadable)
    {kind : ListKind} {done : List Node} {rest : List StatementFrame} {state : ParserState}
    (h : Settled kind done rest state) :
    Reads ParserState.step
      (fun state => ∃ read : List Node, read.map Node.eraseLines = nodes.map Node.eraseLines ∧
        Settled kind (read.reverse ++ done) rest state)
      (statementsLexemes nodes) state := by
  induction nodes generalizing done state with
  | nil => exact ⟨[], rfl, h⟩
  | cons node others ih =>
    refine (hnodes node List.mem_cons_self kind done rest state h).append ?_
    rintro state ⟨first, hfirst, hsettled⟩
    refine (ih (fun other hother => hnodes other (List.mem_cons_of_mem node hother))
      hsettled).mono ?_
    rintro state ⟨read, hread, hstate⟩
    refine ⟨first :: read, ?_, ?_⟩
    · rw [List.map_cons, List.map_cons, hfirst, hread]
    · rwa [List.reverse_cons, List.append_assoc, List.singleton_append]

/-- What the statement around a complete one becomes. -/
def delivered (nodes : List Node) (stack : List StatementFrame) : ParserState :=
  ⟨(deliver nodes stack).1, (deliver nodes stack).2, none⟩

/-- A closing brace ends the list of statements that is open. -/
theorem Settled.step_close {kind : ListKind} {done : List Node} {rest : List StatementFrame}
    {state : ParserState} (h : Settled kind done rest state) {token : Token}
    (htoken : token.lexeme = .closeBrace) :
    state.step token = closeList? (.list kind done :: rest) none := by
  rw [h.step_eq (by rw [htoken]; decide) (by rw [htoken]; decide)]
  simp only [statementStep, htoken]

/-- Statements in braces become the body of the statement around them. -/
theorem reads_block {body : List Node} (hbody : ∀ node ∈ body, node.StatementReadable)
    (stack : List StatementFrame) :
    Reads ParserState.step
      (fun state => ∃ read : List Node, read.map Node.eraseLines = body.map Node.eraseLines ∧
        state = delivered read stack)
      (inBraces (statementsLexemes body)) ⟨.statement, stack, none⟩ := by
  intro brace hbrace
  refine ⟨⟨.statement, .list .block [] :: stack, none⟩, ?_, ?_⟩
  · simp only [ParserState.step, statementStep, hbrace]
  · refine (reads_statements hbody (.inl rfl)).append ?_
    rintro state ⟨read, hread, hsettled⟩ close hclose
    refine ⟨delivered read stack, ?_, read, hread, rfl⟩
    rw [hsettled.step_close hclose, closeList?, List.append_nil, List.reverse_reverse]
    rfl

/-! ## Simple statements -/

theorem statementStep_expression {stack : List StatementFrame} {token : Token} {next : ExprState}
    (h : (ExprState.start none).step token = .more next) :
    statementStep stack none token = some ⟨.expression .statement next, stack, next.fault⟩ := by
  unfold statementStep
  split
  case h_9 => simp only [expressionStep, h]
  all_goals
    rename_i hlexeme
    simp [ExprState.start, ExprState.step, ExprState.operandStep, hlexeme] at h

/-- No expression starts with a token that continues an `if`. -/
theorem start_step_ne {token : Token} {next : ExprState}
    (h : (ExprState.start none).step token = .more next) :
    token.lexeme ≠ .keyword .elseIf ∧ token.lexeme ≠ .keyword .otherwise := by
  constructor <;> intro hlexeme <;>
    simp [ExprState.start, ExprState.step, ExprState.operandStep, hlexeme] at h

/-- An expression is printed as a statement with a semicolon after it. -/
theorem Node.IsExpression.statementLexemes_eq {expr : Node} (h : expr.IsExpression .value) :
    expr.statementLexemes = expr.lexemes 1 ++ [.semicolon] := by
  cases h <;> rfl

/-- An expression is read as a statement. -/
theorem statementReadable_expression {expr : Node} (h : expr.IsExpression .value) :
    expr.StatementReadable := by
  intro kind done rest state hsettled
  rw [h.statementLexemes_eq]
  refine (reads_expression .statement (.list kind done :: rest) h.readable
    fun token next hnext => ?_).append ?_
  · obtain ⟨helseIf, helse⟩ := start_step_ne hnext
    rw [hsettled.step_eq helseIf helse, statementStep_expression hnext]
  · intro state hgot token htoken
    obtain ⟨whole, hwhole, hstep⟩ := hgot.step_end
    exact ⟨_, hstep .semicolon (by decide) token htoken, whole.node, hwhole, .inl rfl⟩

/-- The first token of a statement other than an expression. -/
theorem Settled.step_keyword {kind : ListKind} {done : List Node} {rest : List StatementFrame}
    {state next : ParserState} (h : Settled kind done rest state) {token : Token} {lexeme : Lexeme}
    (htoken : token.lexeme = lexeme) (helseIf : lexeme ≠ .keyword .elseIf)
    (helse : lexeme ≠ .keyword .otherwise)
    (hnext : statementStep (.list kind done :: rest) none token = some next) :
    state.step token = some next := by
  rw [h.step_eq (htoken ▸ helseIf) (htoken ▸ helse), hnext]

theorem statementReadable_nop (line : Option Int) : (Node.mk line .nop).StatementReadable := by
  intro kind done rest state hsettled token htoken
  refine ⟨⟨.statement, .list kind (⟨some token.line, .nop⟩ :: done) :: rest, none⟩, ?_, ?_⟩
  · apply hsettled.step_keyword htoken (by decide) (by decide)
    simp only [statementStep, htoken]
    rfl
  · exact ⟨⟨some token.line, .nop⟩, rfl, .inl rfl⟩

theorem step_returned {line : Nat} {stack : List StatementFrame} {token : Token} {next : ExprState}
    (h : (ExprState.start none).step token = .more next) :
    ParserState.step ⟨.returned line, stack, none⟩ token =
      some ⟨.expression (.ret line) next, stack, next.fault⟩ := by
  have hsemicolon : token.lexeme ≠ .semicolon := by
    intro hlexeme
    simp [ExprState.start, ExprState.step, ExprState.operandStep, hlexeme] at h
  simp only [ParserState.step, expressionStep, h]

/-- A `return` is read with its expression or without one. -/
theorem statementReadable_ret (line : Option Int) {expr : Option Node}
    (hexpr : ∀ node ∈ expr, node.Readable) : (Node.mk line (.ret expr)).StatementReadable := by
  intro kind done rest state hsettled
  have hret : ∀ token : Token, token.lexeme = .keyword .ret →
      state.step token = some ⟨.returned token.line, .list kind done :: rest, none⟩ := by
    intro token htoken
    apply hsettled.step_keyword htoken (by decide) (by decide)
    simp only [statementStep, htoken]
  cases expr with
  | none =>
    intro token htoken
    refine ⟨_, hret token htoken, fun close hclose => ?_⟩
    refine ⟨⟨.statement, .list kind (⟨some token.line, .ret none⟩ :: done) :: rest, none⟩, ?_, ?_⟩
    · simp only [ParserState.step, hclose]
      rfl
    · exact ⟨⟨some token.line, .ret none⟩, rfl, .inl rfl⟩
  | some node =>
    intro token htoken
    refine ⟨_, hret token htoken, ?_⟩
    refine (reads_expression (.ret token.line) (.list kind done :: rest) (hexpr node rfl)
      fun first next => step_returned).append fun state hgot close hclose => ?_
    obtain ⟨whole, hwhole, hstep⟩ := hgot.step_end
    refine ⟨_, hstep .semicolon (by decide) close hclose, ⟨some token.line, .ret (some whole.node)⟩,
      ?_, .inl rfl⟩
    simp only [Node.eraseLines, Form.eraseLines, eraseLinesOption, hwhole]

/-! ## Output -/

section Echo

variable {line : Nat} {stack : List StatementFrame}

/-- Some expressions of an output have been read, and another one follows. -/
def EchoReady (line : Nat) (stack : List StatementFrame) (seen : List Node)
    (state : ParserState) : Prop :=
  ∃ done : List Node, done.reverse.map Node.eraseLines = seen.map Node.eraseLines ∧
    state = ⟨.expression (.echo line done) (.start none), stack, none⟩

/-- The last of some expressions of an output has just been read. -/
def EchoGot (line : Nat) (stack : List StatementFrame) (seen : List Node)
    (state : ParserState) : Prop :=
  ∃ (done : List Node) (expr : Node), ExprGot (.echo line done) stack expr state ∧
    (done.reverse ++ [expr]).map Node.eraseLines = seen.map Node.eraseLines

/-- A token that ends an expression of an `echo` completes it and adds it to those before. -/
theorem EchoGot.step_end {seen : List Node} {state : ParserState}
    (h : EchoGot line stack seen state) :
    ∃ (done : List Node) (whole : Operand),
      (whole.node :: done).reverse.map Node.eraseLines = seen.map Node.eraseLines ∧
      ∀ lexeme ∈ endLexemes, ∀ token : Token, token.lexeme = lexeme →
        state.step token = (ExprContext.echo line done).finish? whole none lexeme stack := by
  obtain ⟨done, expr, hgot, hseen⟩ := h
  obtain ⟨whole, hwhole, hstep⟩ := hgot.step_end
  refine ⟨done, whole, ?_, hstep⟩
  rw [← hseen, List.reverse_cons, List.map_append, List.map_append]
  simp only [List.map_cons, List.map_nil, hwhole]

end Echo

/-- An `echo` is read with its expressions, of which there is at least one. -/
theorem statementReadable_echo (line : Option Int) {exprs : List Node} (hne : exprs ≠ [])
    (hexprs : ∀ expr ∈ exprs, expr.Readable) :
    (Node.mk line (.echo exprs)).StatementReadable := by
  intro kind done rest state hsettled token htoken
  refine ⟨⟨.expression (.echo token.line []) (.start none), .list kind done :: rest, none⟩, ?_, ?_⟩
  · apply hsettled.step_keyword htoken (by decide) (by decide)
    simp only [statementStep, htoken]
  have hread : Reads ParserState.step (EchoGot token.line (.list kind done :: rest) ([] ++ exprs))
      (commaSeparated (exprs.map (Node.lexemes 1)))
      ⟨.expression (.echo token.line []) (.start none), .list kind done :: rest, none⟩ := by
    refine reads_commaSeparated (EchoReady token.line (.list kind done :: rest)) _ ?_ ?_ hne
      ⟨[], rfl, rfl⟩
    · rintro seen expr hexpr state ⟨shown, hshown, rfl⟩
      refine (reads_expression_start (hexprs expr hexpr)).mono fun state hgot =>
        ⟨shown, expr, hgot, ?_⟩
      rw [List.map_append, List.map_append, hshown]
    · intro seen state hgot comma hcomma
      obtain ⟨shown, whole, hseen, hstep⟩ := hgot.step_end
      exact ⟨_, hstep .comma (by decide) comma hcomma, _, hseen, rfl⟩
  refine hread.append fun state hgot close hclose => ?_
  obtain ⟨shown, whole, hseen, hstep⟩ := hgot.step_end
  refine ⟨_, hstep .semicolon (by decide) close hclose,
    ⟨some token.line, .echo (whole.node :: shown).reverse⟩, ?_, .inl rfl⟩
  simp only [Node.eraseLines, Form.eraseLines, eraseLinesList_eq_map, hseen, List.nil_append]

/-! ## Conditions -/

/-- The parts of an `if` that have been read so far are those given. -/
structure IfHead.Reads (head : IfHead) (cond : Node) (body : List Node)
    (elseIfs : List (ElseIf Node)) : Prop where
  cond : head.cond.eraseLines = cond.eraseLines
  body : head.body.map Node.eraseLines = body.map Node.eraseLines
  elseIfs : head.elseIfs.reverse.map ElseIf.eraseLines = elseIfs.map ElseIf.eraseLines

/-- An `if` whose parts have been read as they were printed is the one that was printed. -/
theorem IfHead.Reads.eraseLines_finish {head : IfHead} {cond : Node} {body : List Node}
    {elseIfs : List (ElseIf Node)} (h : head.Reads cond body elseIfs)
    {read otherwise : Option (Else Node)} (helse : eraseLinesElse read = eraseLinesElse otherwise)
    (line : Option Int) :
    (head.finish read).eraseLines =
      (Node.mk line (.conditional cond body elseIfs otherwise)).eraseLines := by
  simp only [IfHead.finish, Node.eraseLines, Form.eraseLines, eraseLinesList_eq_map,
    eraseLinesElseIfs_eq_map, h.cond, h.body, h.elseIfs, helse]

/-- Further conditions are read one after another into the `if` that is open. -/
theorem reads_elseIfs {cond : Node} {body : List Node} {clauses seen : List (ElseIf Node)}
    (hconds : ∀ clause ∈ clauses, clause.cond.Readable)
    (hbodies : ∀ clause ∈ clauses, ∀ node ∈ clause.body, node.StatementReadable)
    {stack : List StatementFrame} {head : IfHead} (hhead : head.Reads cond body seen) :
    Reads ParserState.step
      (fun state => ∃ head : IfHead, head.Reads cond body (seen ++ clauses) ∧
        state = ⟨.clauses head, stack, none⟩)
      (elseIfsLexemes clauses) ⟨.clauses head, stack, none⟩ := by
  induction clauses generalizing seen head with
  | nil => exact ⟨head, by rwa [List.append_nil], rfl⟩
  | cons clause rest ih =>
    obtain ⟨clauseLine, clauseCond, clauseBody⟩ := clause
    intro token htoken
    refine ⟨⟨.parenthesis (.elseIfCond head token.line), stack, none⟩, ?_, ?_⟩
    · simp only [ParserState.step, htoken]
    have hcondition := reads_condition (.elseIfCond head token.line) stack
      (hconds _ List.mem_cons_self)
      (fun whole => ⟨.statement, .elseIfBody head token.line whole.node :: stack, none⟩)
      fun _ => rfl
    rw [List.append_assoc]
    refine hcondition.append ?_
    rintro state ⟨whole, hwhole, rfl⟩
    refine (reads_block (hbodies _ List.mem_cons_self) _).append ?_
    rintro state ⟨read, hread, rfl⟩
    have hnext : (head.addElseIf token.line whole.node read).Reads cond body
        (seen ++ [⟨clauseLine, clauseCond, clauseBody⟩]) := by
      refine ⟨hhead.cond, hhead.body, ?_⟩
      rw [IfHead.addElseIf, List.reverse_cons, List.map_append, List.map_append, hhead.elseIfs]
      simp only [List.map_cons, List.map_nil, ElseIf.eraseLines, hwhole, hread]
    refine (ih (fun other hother => hconds other (List.mem_cons_of_mem _ hother))
      (fun other hother => hbodies other (List.mem_cons_of_mem _ hother)) hnext).mono ?_
    rintro state ⟨head, hreads, rfl⟩
    rw [List.append_assoc, List.singleton_append] at hreads
    exact ⟨head, hreads, rfl⟩

/-- The last part of an `if`, or its absence, completes it. -/
theorem reads_else {cond : Node} {body : List Node} {elseIfs : List (ElseIf Node)}
    {otherwise : Option (Else Node)}
    (hlast : ∀ clause ∈ otherwise, ∀ node ∈ clause.body, node.StatementReadable)
    {kind : ListKind} {done : List Node} {rest : List StatementFrame} {head : IfHead}
    (hhead : head.Reads cond body elseIfs) (line : Option Int) :
    Reads ParserState.step
      (fun state => ∃ read : Node,
        read.eraseLines = (Node.mk line (.conditional cond body elseIfs otherwise)).eraseLines ∧
          Settled kind (read :: done) rest state)
      (elseLexemes otherwise) ⟨.clauses head, .list kind done :: rest, none⟩ := by
  cases otherwise with
  -- The `if` stays open: only the next token shows that no part follows.
  | none => exact ⟨head.finish none, hhead.eraseLines_finish rfl line, .inr ⟨head, done, rfl, rfl⟩⟩
  | some clause =>
    obtain ⟨clauseLine, clauseBody⟩ := clause
    intro token htoken
    refine ⟨⟨.statement, .elseBody head token.line :: .list kind done :: rest, none⟩, ?_, ?_⟩
    · simp only [ParserState.step, htoken]
    refine (reads_block (hlast _ rfl) _).mono ?_
    rintro state ⟨read, hread, rfl⟩
    refine ⟨head.finish (some ⟨some token.line, read⟩), hhead.eraseLines_finish ?_ line, .inl rfl⟩
    simp only [eraseLinesElse, eraseLinesList_eq_map, hread]

/-- An `if` is read if its conditions and bodies are. -/
theorem statementReadable_conditional (line : Option Int) {cond : Node} {body : List Node}
    {elseIfs : List (ElseIf Node)} {otherwise : Option (Else Node)} (hcond : cond.Readable)
    (hbody : ∀ node ∈ body, node.StatementReadable)
    (hconds : ∀ clause ∈ elseIfs, clause.cond.Readable)
    (hbodies : ∀ clause ∈ elseIfs, ∀ node ∈ clause.body, node.StatementReadable)
    (hlast : ∀ clause ∈ otherwise, ∀ node ∈ clause.body, node.StatementReadable) :
    (Node.mk line (.conditional cond body elseIfs otherwise)).StatementReadable := by
  intro kind done rest state hsettled token htoken
  refine ⟨⟨.parenthesis (.ifCond token.line), .list kind done :: rest, none⟩, ?_, ?_⟩
  · apply hsettled.step_keyword htoken (by decide) (by decide)
    simp only [statementStep, htoken]
  have hcondition := reads_condition (.ifCond token.line) (.list kind done :: rest) hcond
    (fun whole => ⟨.statement, .ifBody token.line whole.node :: .list kind done :: rest, none⟩)
    fun _ => rfl
  rw [List.append_assoc, List.append_assoc]
  refine hcondition.append ?_
  rintro state ⟨whole, hwhole, rfl⟩
  refine (reads_block hbody _).append ?_
  rintro state ⟨read, hread, rfl⟩
  have hhead : IfHead.Reads ⟨token.line, whole.node, read, []⟩ cond body [] := ⟨hwhole, hread, rfl⟩
  refine (reads_elseIfs hconds hbodies hhead).append ?_
  rintro state ⟨head, hhead, rfl⟩
  exact reads_else hlast hhead line

/-! ## Loops -/

/-- The head of a loop is read with what it goes over and its one or two variables. -/
theorem reads_foreachHead {expr : Node} (hexpr : expr.Readable) (valueVar : String)
    (keyVar : Option String) (line : Nat) (stack : List StatementFrame) :
    Reads ParserState.step
      (fun state => ∃ whole : Operand, whole.node.eraseLines = expr.eraseLines ∧
        state = ⟨.statement, .foreachBody ⟨line, whole.node, keyVar, valueVar⟩ :: stack, none⟩)
      (inParens (expr.lexemes 1 ++ .keyword .as :: loopVariables valueVar keyVar))
      ⟨.parenthesis (.foreachSource line), stack, none⟩ := by
  intro paren hparen
  refine ⟨⟨.expression (.foreachSource line) (.start none), stack, none⟩, ?_, ?_⟩
  · simp only [ParserState.step, hparen]
  rw [List.append_assoc]
  refine (reads_expression_start hexpr).append fun state hgot word hword => ?_
  obtain ⟨whole, hwhole, hstep⟩ := hgot.step_end
  refine ⟨_, hstep (.keyword .as) (by decide) word hword, ?_⟩
  cases keyVar with
  | none =>
    intro token htoken
    refine ⟨_, by simp only [ParserState.step, htoken]; rfl, fun close hclose => ?_⟩
    refine ⟨_, by simp only [ParserState.step, hclose]; rfl, ?_⟩
    exact ⟨whole, hwhole, rfl⟩
  | some name =>
    intro first hfirst
    refine ⟨_, by simp only [ParserState.step, hfirst]; rfl, fun arrow harrow => ?_⟩
    refine ⟨_, by simp only [ParserState.step, harrow]; rfl, fun second hsecond => ?_⟩
    refine ⟨_, by simp only [ParserState.step, hsecond]; rfl, fun close hclose => ?_⟩
    refine ⟨_, by simp only [ParserState.step, hclose]; rfl, ?_⟩
    exact ⟨whole, hwhole, rfl⟩

/-- A loop is read if what it goes over and its body are. -/
theorem statementReadable_foreach (line : Option Int) {expr : Node} (valueVar : String)
    {body : List Node} (keyVar : Option String) (hexpr : expr.Readable)
    (hbody : ∀ node ∈ body, node.StatementReadable) :
    (Node.mk line (.foreach expr valueVar body keyVar)).StatementReadable := by
  intro kind done rest state hsettled token htoken
  refine ⟨⟨.parenthesis (.foreachSource token.line), .list kind done :: rest, none⟩, ?_, ?_⟩
  · apply hsettled.step_keyword htoken (by decide) (by decide)
    simp only [statementStep, htoken]
  refine (reads_foreachHead hexpr valueVar keyVar token.line _).append ?_
  rintro state ⟨whole, hwhole, rfl⟩
  refine (reads_block hbody _).mono ?_
  rintro state ⟨read, hread, rfl⟩
  refine ⟨ForeachHead.finish ⟨token.line, whole.node, keyVar, valueVar⟩ read, ?_, .inl rfl⟩
  simp only [ForeachHead.finish, Node.eraseLines, Form.eraseLines, eraseLinesList_eq_map, hwhole,
    hread]

/-! ## Functions -/

section FunctionDecl

variable {line : Nat} {name : String} {stack : List StatementFrame}

/-- Some parameters of a function have been read, and another one may follow. -/
def ParamsReady (line : Nat) (name : String) (stack : List StatementFrame)
    (seen : List (Param Node)) (state : ParserState) : Prop :=
  ∃ params : List (Param Node), params.reverse.map Param.eraseLines = seen.map Param.eraseLines ∧
    state = ⟨.parameter ⟨line, name, params⟩, stack, none⟩

/-- The last of some parameters of a function has just been read. -/
def ParamsGot (line : Nat) (name : String) (stack : List StatementFrame)
    (seen : List (Param Node)) (state : ParserState) : Prop :=
  ∃ params : List (Param Node), params.reverse.map Param.eraseLines = seen.map Param.eraseLines ∧
    (∀ token : Token, token.lexeme = .comma →
      state.step token = some ⟨.parameter ⟨line, name, params⟩, stack, none⟩) ∧
    ∀ token : Token, token.lexeme = .closeParen →
      state.step token = some ⟨.functionBrace ⟨line, name, params⟩, stack, none⟩

/-- A parameter is read with its default or without one. -/
theorem reads_param {param : Param Node} {seen : List (Param Node)} {state : ParserState}
    (hdefault : ∀ node ∈ param.default, node.Readable)
    (hready : ParamsReady line name stack seen state) :
    Reads ParserState.step (ParamsGot line name stack (seen ++ [param])) param.lexemes state := by
  obtain ⟨paramLine, paramName, default⟩ := param
  obtain ⟨params, hparams, rfl⟩ := hready
  cases default with
  | none =>
    intro token htoken
    refine ⟨⟨.parameterEnd ⟨line, name, params⟩ token.line paramName, stack, none⟩, ?_, ?_⟩
    · simp only [ParserState.step, htoken]
    refine ⟨⟨some token.line, paramName, none⟩ :: params, ?_, ?_, ?_⟩
    · rw [List.reverse_cons, List.map_append, List.map_append, hparams]
      rfl
    · exact fun comma hcomma => by simp only [ParserState.step, hcomma, FunctionHead.addParam]
    · exact fun close hclose => by simp only [ParserState.step, hclose, FunctionHead.addParam]
  | some node =>
    intro token htoken
    refine ⟨⟨.parameterEnd ⟨line, name, params⟩ token.line paramName, stack, none⟩, ?_, ?_⟩
    · simp only [ParserState.step, htoken]
    intro equals hequals
    refine ⟨⟨.expression (.default ⟨line, name, params⟩ token.line paramName) (.start none), stack,
      none⟩, ?_, ?_⟩
    · simp only [ParserState.step, hequals]
    refine (reads_expression_start (hdefault node rfl)).mono fun state hgot => ?_
    obtain ⟨whole, hwhole, hstep⟩ := hgot.step_end
    refine ⟨⟨some token.line, paramName, some whole.node⟩ :: params, ?_, ?_, ?_⟩
    · rw [List.reverse_cons, List.map_append, List.map_append, hparams]
      simp only [List.map_cons, List.map_nil, Param.eraseLines, Option.map_some, hwhole]
    · exact hstep .comma (by decide)
    · exact hstep .closeParen (by decide)

/-- Parameters are read one after another, up to the closing parenthesis. -/
theorem reads_params {params : List (Param Node)}
    (hdefaults : ∀ param ∈ params, ∀ node ∈ param.default, node.Readable) :
    Reads ParserState.step
      (fun state => ∃ read : List (Param Node),
        read.reverse.map Param.eraseLines = params.map Param.eraseLines ∧
          state = ⟨.functionBrace ⟨line, name, read⟩, stack, none⟩)
      (commaSeparated (params.map Param.lexemes) ++ [.closeParen])
      ⟨.parameter ⟨line, name, []⟩, stack, none⟩ := by
  by_cases hne : params = []
  · subst hne
    intro close hclose
    exact ⟨_, by simp only [ParserState.step, hclose], [], rfl, rfl⟩
  have hread : Reads ParserState.step (ParamsGot line name stack ([] ++ params))
      (commaSeparated (params.map Param.lexemes)) ⟨.parameter ⟨line, name, []⟩, stack, none⟩ := by
    refine reads_commaSeparated (ParamsReady line name stack) _ ?_ ?_ hne ⟨[], rfl, rfl⟩
    · exact fun seen param hparam state => reads_param (hdefaults param hparam)
    · rintro seen state ⟨read, hseen, hcomma, -⟩ token htoken
      exact ⟨_, hcomma token htoken, read, hseen, rfl⟩
  refine hread.append ?_
  rintro state ⟨read, hseen, -, hclose⟩ token htoken
  exact ⟨_, hclose token htoken, read, hseen, rfl⟩

end FunctionDecl

/-- A function is read if its defaults and its body are. -/
theorem statementReadable_functionDecl (line : Option Int) {name : String}
    {params : List (Param Node)} {body : List Node} (hcase : lowerCase name = name)
    (hdefaults : ∀ param ∈ params, ∀ node ∈ param.default, node.Readable)
    (hbody : ∀ node ∈ body, node.StatementReadable) :
    (Node.mk line (.functionDecl name params body)).StatementReadable := by
  intro kind done rest state hsettled token htoken
  refine ⟨⟨.functionName token.line, .list kind done :: rest, none⟩, ?_, ?_⟩
  · apply hsettled.step_keyword htoken (by decide) (by decide)
    simp only [statementStep, htoken]
  intro word hword
  refine ⟨⟨.functionOpen token.line name, .list kind done :: rest, none⟩, ?_, ?_⟩
  · simp only [ParserState.step, hword, hcase]
  intro paren hparen
  refine ⟨⟨.parameter ⟨token.line, name, []⟩, .list kind done :: rest, none⟩, ?_, ?_⟩
  · simp only [ParserState.step, hparen]
  refine (reads_params hdefaults).append ?_
  rintro state ⟨readParams, hparams, rfl⟩ brace hbrace
  refine ⟨⟨.statement, .list (.function ⟨token.line, name, readParams⟩) [] ::
    .list kind done :: rest, none⟩, ?_, ?_⟩
  · simp only [ParserState.step, hbrace]
  refine (reads_statements hbody (.inl rfl)).append ?_
  rintro state ⟨read, hread, hinner⟩ close hclose
  refine ⟨⟨.statement, .list kind
    (⟨some token.line, .functionDecl name readParams.reverse read⟩ :: done) :: rest, none⟩, ?_, ?_⟩
  · rw [hinner.step_close hclose, closeList?, List.append_nil, List.reverse_reverse]
    rfl
  · refine ⟨⟨some token.line, .functionDecl name readParams.reverse read⟩, ?_, .inl rfl⟩
    simp only [Node.eraseLines, Form.eraseLines, eraseLinesList_eq_map, eraseLinesParams_eq_map,
      hread, hparams]

/-! ## All statements -/

/-- A printed statement is read back, whatever stands before it. -/
theorem Node.IsStatement.readable {node : Node} (h : node.IsStatement) :
    node.StatementReadable := by
  induction h with
  | expression hnode => exact statementReadable_expression hnode
  | echo hne hexprs =>
    exact statementReadable_echo _ hne fun expr hexpr => (hexprs expr hexpr).readable
  | nop => exact statementReadable_nop _
  | ret hexpr => exact statementReadable_ret _ fun node hnode => (hexpr node hnode).readable
  | conditional hcond hbody hconds hbodies hlast ihbody ihbodies ihlast =>
    exact statementReadable_conditional _ hcond.readable ihbody
      (fun clause hclause => (hconds clause hclause).readable) ihbodies ihlast
  | foreach hexpr hvalue hkey hbody ihbody =>
    exact statementReadable_foreach _ _ _ hexpr.readable ihbody
  | functionDecl hname hcase hparams hdefaults hbody ihbody =>
    exact statementReadable_functionDecl _ hcase
      (fun param hparam node hnode => (hdefaults param hparam node hnode).readable) ihbody

end WebScript
