import WebScript.Proofs.Spelling

/-!
# Printed expressions read back

`Reads` says that a reader takes tokens one after another, whatever their lines. The main result of
this module, `Node.IsExpression.readable`, says that the reader of expressions takes a printed
expression and then holds it. It need not have put the expression together yet: operators that may
still get a longer right operand keep waiting. `ReadAt` therefore says what these operators would
complete to, and that each operator which can follow at this place completes them all.
-/

namespace WebScript

/-! ## Reading tokens -/

/-- Whatever tokens have the lexemes given, a reader takes them one after another and is then in a
    state of some kind. -/
def Reads {σ : Type} (step : σ → Token → Option σ) (goal : σ → Prop) : List Lexeme → σ → Prop
  | [], state => goal state
  | lexeme :: rest, state =>
    ∀ token : Token, token.lexeme = lexeme →
      ∃ next, step state token = some next ∧ Reads step goal rest next

section Reads

variable {σ : Type} {step : σ → Token → Option σ} {goal mid : σ → Prop}

/-- Reading one row of tokens after another is reading the first and then the second. -/
theorem reads_append {first second : List Lexeme} {state : σ} :
    Reads step goal (first ++ second) state ↔ Reads step (Reads step goal second) first state := by
  induction first generalizing state with
  | nil => rfl
  | cons lexeme rest ih => simp only [List.cons_append, Reads, ih]

theorem Reads.mono {lexemes : List Lexeme} {state : σ} (h : Reads step mid lexemes state)
    (hgoal : ∀ state, mid state → goal state) : Reads step goal lexemes state := by
  induction lexemes generalizing state with
  | nil => exact hgoal state h
  | cons lexeme rest ih =>
    intro token htoken
    obtain ⟨next, hstep, hnext⟩ := h token htoken
    exact ⟨next, hstep, ih hnext⟩

/-- Where reading the first row leads, the second one is read on. -/
theorem Reads.append {first second : List Lexeme} {state : σ} (h : Reads step mid first state)
    (hsecond : ∀ state, mid state → Reads step goal second state) :
    Reads step goal (first ++ second) state :=
  reads_append.mpr (h.mono hsecond)

/-- Tokens with these lexemes lead to a state of this kind. -/
theorem Reads.foldlM {tokens : List Token} {state : σ}
    (h : Reads step goal (tokens.map Token.lexeme) state) :
    ∃ final, tokens.foldlM step state = some final ∧ goal final := by
  induction tokens generalizing state with
  | nil => exact ⟨state, rfl, h⟩
  | cons token rest ih =>
    obtain ⟨next, hstep, hnext⟩ := h token rfl
    obtain ⟨final, hfinal, hgoal⟩ := ih hnext
    refine ⟨final, ?_, hgoal⟩
    rw [List.foldlM_cons, hstep]
    exact hfinal

/-- Elements with commas between them are read one by one. `Ready` says what holds before an element
    when some have been read, and `Got` what holds after one. -/
theorem reads_commaSeparated {α : Type} {row : α → List Lexeme} {items : List α}
    (Ready Got : List α → σ → Prop)
    (hrow : ∀ seen, ∀ item ∈ items, ∀ state, Ready seen state →
      Reads step (Got (seen ++ [item])) (row item) state)
    (hcomma : ∀ seen state, Got seen state → Reads step (Ready seen) [.comma] state)
    (hne : items ≠ []) {seen : List α} {state : σ} (hready : Ready seen state) :
    Reads step (Got (seen ++ items)) (commaSeparated (items.map row)) state := by
  induction items generalizing seen state with
  | nil => exact absurd rfl hne
  | cons item rest ih =>
    have hitem := hrow seen item List.mem_cons_self state hready
    cases rest with
    | nil => simpa [commaSeparated] using hitem
    | cons other more =>
      have hseen : seen ++ item :: other :: more = seen ++ [item] ++ other :: more := by simp
      rw [List.map_cons, List.map_cons, commaSeparated_cons_cons, hseen]
      refine hitem.append fun state hgot => (hcomma _ state hgot).append fun state hready => ?_
      exact ih (fun seen item hitem => hrow seen item (List.mem_cons_of_mem _ hitem))
        (List.cons_ne_nil other more) hready

end Reads

/-! ## Levels and strengths -/

theorem BinaryOperator.binding_eq (op : BinaryOperator) :
    op.binding = ⟨op.leftLevel, op.level, op.rightLevel⟩ := by cases op <;> rfl

theorem BinaryOperator.mem_all (op : BinaryOperator) : op ∈ BinaryOperator.all := by
  cases op <;> decide

/-- No operator takes operands that bind more loosely than itself. -/
theorem BinaryOperator.level_le_leftLevel (op : BinaryOperator) : op.level ≤ op.leftLevel := by
  cases op <;> decide

theorem BinaryOperator.leftLevel_le (op : BinaryOperator) : op.leftLevel ≤ postfixLevel := by
  cases op <;> decide

theorem BinaryOperator.rightLevel_le (op : BinaryOperator) : op.rightLevel ≤ postfixLevel := by
  cases op <;> decide

/-- Every operator that takes an expression of the given level on its left completes a waiting
    operator first. -/
def Pending.Closes (pending : Pending) (level : Nat) : Prop :=
  ∀ op : BinaryOperator, op.leftLevel ≤ level → op.level < pending.right

/-- An operator that closes before a level closes before all looser ones. -/
theorem Pending.Closes.anti {pending : Pending} {level required : Nat} (h : pending.Closes level)
    (hle : required ≤ level) : pending.Closes required :=
  fun op hop => h op (Nat.le_trans hop hle)

theorem Pending.closes_binary (op : BinaryOperator) (left : Operand) :
    (Pending.binary op left).Closes op.level := by
  have hall : ∀ op ∈ BinaryOperator.all, ∀ other ∈ BinaryOperator.all,
      other.leftLevel ≤ op.level → other.level < op.rightLevel := by decide
  intro other hother
  rw [Pending.right, op.binding_eq]
  exact hall op op.mem_all other other.mem_all hother

/-- The right operand of a binary operator may bind less tightly than the operator itself, but then
    no operator comes between the two. -/
theorem Pending.Closes.of_rightLevel {pending : Pending} {op : BinaryOperator}
    (h : pending.Closes op.rightLevel) : pending.Closes op.level := by
  have hall : ∀ op ∈ BinaryOperator.all, ∀ other ∈ BinaryOperator.all,
      other.leftLevel ≤ op.level → other.leftLevel ≤ op.rightLevel := by decide
  exact fun other hother => h other (hall op op.mem_all other other.mem_all hother)

/-- A sign before an operand closes before what binds as signs do. -/
theorem Pending.closes_unaryLevel {pending : Pending} (h : pending.right = unaryStrength) :
    pending.Closes unaryLevel := by
  intro op hop
  rw [h]
  revert hop
  cases op <;> decide

theorem Pending.closes_assignmentLevel {pending : Pending}
    (h : pending.right = assignmentStrength) : pending.Closes assignmentLevel := by
  intro op hop
  rw [h]
  revert hop
  cases op <;> decide

theorem Pending.result_lt (pending : Pending) : pending.result < postfixLevel := by
  cases pending with
  | binary op left =>
    show op.binding.result < postfixLevel
    cases op <;> decide
  | unary => exact (by decide : unaryStrength < postfixLevel)
  | assign | compound | require => exact (by decide : assignmentStrength < postfixLevel)

/-! ## Completing -/

/-- Waiting operators and a right operand form an expression, and nothing is wrong with it. -/
def Completes : List Pending → Operand → Operand → Prop
  | [], current, whole => current = whole
  | pending :: rest, current, whole =>
    ∃ operand, pending.complete current = (operand, none) ∧ Completes rest operand whole

/-- Operators that wait are completed from the innermost on, one row after another. -/
theorem Completes.append {first second : List Pending} {current middle whole : Operand}
    (hfirst : Completes first current middle) (hsecond : Completes second middle whole) :
    Completes (first ++ second) current whole := by
  induction first generalizing current with
  | nil => exact (show current = middle from hfirst) ▸ hsecond
  | cons pending rest ih =>
    obtain ⟨operand, hcomplete, hrest⟩ := hfirst
    exact ⟨operand, hcomplete, ih hrest⟩

/-- At the end of an expression all operators that wait are completed. -/
theorem Completes.completeAll_eq {waiting : List Pending} {current whole : Operand}
    (h : Completes waiting current whole) :
    completeAll waiting current none = (whole, none) := by
  induction waiting generalizing current with
  | nil => exact congrArg (·, none) (show current = whole from h)
  | cons pending rest ih =>
    obtain ⟨operand, hcomplete, hrest⟩ := h
    rw [completeAll, hcomplete]
    exact ih hrest

/-- The strength of what waiting operators complete to, given that of their right operand. -/
def strengthOf : Nat → List Pending → Nat
  | strength, [] => strength
  | _, pending :: rest => strengthOf pending.result rest

theorem strengthOf_append_singleton (strength : Nat) (waiting : List Pending) (last : Pending) :
    strengthOf strength (waiting ++ [last]) = last.result := by
  induction waiting generalizing strength with
  | nil => rfl
  | cons pending rest ih => exact ih pending.result

/-- Nothing waits in an operand that binds as tightly as a name. -/
theorem eq_nil_of_postfixLevel_le {waiting : List Pending}
    (h : postfixLevel ≤ strengthOf tightest waiting) : waiting = [] := by
  rcases List.eq_nil_or_concat waiting with hnil | ⟨first, last, rfl⟩
  · exact hnil
  · rw [List.concat_eq_append, strengthOf_append_singleton] at h
    exact absurd h (Nat.not_le.mpr last.result_lt)

/-- An operator that completes all operators waiting inside an expression, and none outside of it,
    takes the expression as its left operand. -/
theorem Completes.makeLeft_eq {waiting before : List Pending} {current whole : Operand}
    {binding : Binding} {strength : Nat} (hcomplete : Completes waiting current whole)
    (hinside : ∀ pending ∈ waiting, binding.result < pending.right)
    (houtside : ∀ pending ∈ before.head?, pending.right ≤ binding.result)
    (hstrength : binding.left ≤ strengthOf strength waiting) :
    makeLeft binding current strength (waiting ++ before) none = some (whole, before, none) := by
  induction waiting generalizing current strength with
  | nil =>
    obtain rfl : current = whole := hcomplete
    cases before with
    | nil => exact if_pos hstrength
    | cons pending rest =>
      rw [List.nil_append, makeLeft, if_pos (houtside pending rfl)]
      exact if_pos hstrength
  | cons pending rest ih =>
    obtain ⟨operand, hpending, hrest⟩ := hcomplete
    have hopen : ¬pending.right ≤ binding.result :=
      Nat.not_le.mpr (hinside pending List.mem_cons_self)
    rw [List.cons_append, makeLeft, if_neg hopen, hpending]
    exact ih hrest (fun other hother => hinside other (List.mem_cons_of_mem pending hother))
      hstrength

/-! ## Expressions that have been read -/

/-- Reads one token inside an expression. -/
def ExprState.step? (state : ExprState) (token : Token) : Option ExprState :=
  match state.step token with
  | .more next => some next
  | .done _ _ | .reject => none

theorem ExprState.step?_eq_some {state next : ExprState} {token : Token}
    (h : state.step token = .more next) : state.step? token = some next := by
  rw [ExprState.step?, h]

theorem ExprState.step_of_step? {state next : ExprState} {token : Token}
    (h : state.step? token = some next) : state.step token = .more next := by
  unfold ExprState.step? at h
  split at h
  · rename_i found heq
    rw [heq, Option.some.inj h]
  · exact absurd h nofun
  · exact absurd h nofun

/-- An expression has just been read at a place that asks for a level. Some of its operators may
    still be waiting; `before` are those that waited already. -/
def ReadAt (required : Nat) (expr : Node) (before : List Pending)
    (outer : List (Bracket × List Pending)) (state : ExprState) : Prop :=
  ∃ waiting current whole, state = ⟨waiting ++ before, outer, .operator current, none⟩ ∧
    Completes waiting current whole ∧ whole.node.eraseLines = expr.eraseLines ∧
    required ≤ strengthOf tightest waiting ∧ ∀ pending ∈ waiting, pending.Closes required

/-- Tokens are read as an expression wherever a level is asked for. -/
def ReadableAt (required : Nat) (lexemes : List Lexeme) (expr : Node) : Prop :=
  ∀ (before : List Pending) (outer : List (Bracket × List Pending)) (closable : Bool),
    (∀ pending ∈ before.head?, pending.right ≤ required) →
      Reads ExprState.step? (ReadAt required expr before outer) lexemes
        ⟨before, outer, .operand closable, none⟩

/-- The tokens of an expression are read as that expression. -/
def Node.Readable (expr : Node) : Prop :=
  ∀ required ≤ postfixLevel, ReadableAt required (expr.lexemes required) expr

section ReadAt

variable {required level : Nat} {expr : Node} {before : List Pending}
  {outer : List (Bracket × List Pending)} {state : ExprState}

/-- An operand alone has been read at any level. -/
theorem readAt_operand (hrequired : required ≤ postfixLevel) {operand : Operand}
    (hnode : operand.node.eraseLines = expr.eraseLines) :
    ReadAt required expr before outer ⟨before, outer, .operator operand, none⟩ :=
  ⟨[], operand, operand, rfl, rfl, hnode, hrequired, nofun⟩

/-- What has been read at a level has been read at all looser levels. -/
theorem ReadAt.of_le (h : ReadAt level expr before outer state) (hle : required ≤ level) :
    ReadAt required expr before outer state := by
  obtain ⟨waiting, current, whole, hstate, hcomplete, hnode, hstrength, hcloses⟩ := h
  exact ⟨waiting, current, whole, hstate, hcomplete, hnode, Nat.le_trans hle hstrength,
    fun pending hpending => (hcloses pending hpending).anti hle⟩

/-- What has been read at the tightest level is an operand alone. -/
theorem ReadAt.exists_operand (h : ReadAt postfixLevel expr before outer state) :
    ∃ operand : Operand, operand.node.eraseLines = expr.eraseLines ∧
      state = ⟨before, outer, .operator operand, none⟩ := by
  obtain ⟨waiting, current, whole, rfl, hcomplete, hnode, hstrength, -⟩ := h
  obtain rfl := eq_nil_of_postfixLevel_le hstrength
  obtain rfl : current = whole := hcomplete
  exact ⟨current, hnode, rfl⟩

/-- Once its right operand has been read, a pending operator counts as part of the expression. -/
theorem ReadAt.complete {pending : Pending} {operand : Node}
    (h : ReadAt required operand (pending :: before) outer state) (hresult : pending.result = level)
    (hcloses : pending.Closes level)
    (hinside : ∀ other : Pending, other.Closes required → other.Closes level)
    (hcomplete : ∀ right : Operand, right.node.eraseLines = operand.eraseLines →
      ∃ whole, pending.complete right = (whole, none) ∧ whole.node.eraseLines = expr.eraseLines) :
    ReadAt level expr before outer state := by
  obtain ⟨waiting, current, right, rfl, hwaiting, hright, -, hclose⟩ := h
  obtain ⟨whole, hwhole, hnode⟩ := hcomplete right hright
  -- The operator has waited longer than those inside its operand, so it completes after them.
  refine ⟨waiting ++ [pending], current, whole, ?_, ?_, hnode, ?_, ?_⟩
  · rw [List.append_assoc, List.singleton_append]
  · exact hwaiting.append ⟨whole, hwhole, rfl⟩
  · rw [strengthOf_append_singleton, hresult]
  · intro other hother
    rcases List.mem_append.mp hother with hmem | hmem
    · exact hinside other (hclose other hmem)
    · exact List.mem_singleton.mp hmem ▸ hcloses

/-- Tokens that are no operators and open no brackets: they end what has been read in a bracket. -/
def endLexemes : List Lexeme :=
  [.closeParen, .closeBracket, .comma, .arrow, .semicolon, .keyword .as]

/-- A token that ends an expression first completes it. -/
theorem ReadAt.step_end (h : ReadAt required expr [] outer state) :
    ∃ whole : Operand, whole.node.eraseLines = expr.eraseLines ∧
      ∀ lexeme ∈ endLexemes, ∀ token : Token, token.lexeme = lexeme →
        state.step token = (ExprState.mk [] outer (.operator whole) none).endStep whole lexeme := by
  obtain ⟨waiting, current, whole, rfl, hcomplete, hnode, -, -⟩ := h
  refine ⟨whole, hnode, fun lexeme hend token htoken => ?_⟩
  have hoperator : (ExprState.mk (waiting ++ []) outer (.operator current) none).step token =
      (ExprState.mk (waiting ++ []) outer (.operator current) none).endStep current lexeme := by
    simp only [endLexemes, List.mem_cons, List.not_mem_nil, or_false] at hend
    rcases hend with rfl | rfl | rfl | rfl | rfl | rfl <;>
      simp only [ExprState.step, htoken, ExprState.operatorStep]
  rw [hoperator, ExprState.endStep, ExprState.endStep, List.append_nil, hcomplete.completeAll_eq]
  rfl

end ReadAt

/-! ## Parentheses -/

theorem ReadableAt.of_le {required level : Nat} {lexemes : List Lexeme} {expr : Node}
    (h : ReadableAt level lexemes expr) (hle : required ≤ level) :
    ReadableAt required lexemes expr := by
  intro before outer closable hbefore
  have hread := h before outer closable fun pending hpending =>
    Nat.le_trans (hbefore pending hpending) hle
  exact hread.mono fun state hstate => hstate.of_le hle

/-- In parentheses, anything can be read as an operand alone. -/
theorem ReadableAt.inParens {required : Nat} {lexemes : List Lexeme} {expr : Node}
    (h : ReadableAt required lexemes expr) : ReadableAt postfixLevel (inParens lexemes) expr := by
  intro before outer closable hbefore token htoken
  refine ⟨⟨[], (.paren token.line, before) :: outer, .operand false, none⟩, ?_, ?_⟩
  · apply ExprState.step?_eq_some
    simp only [ExprState.step, ExprState.operandStep, htoken, ExprState.openBracket]
  · refine (h [] _ false nofun).append fun state hstate close hclose => ?_
    obtain ⟨whole, hnode, hstep⟩ := hstate.step_end
    refine ⟨_, ExprState.step?_eq_some (hstep .closeParen (by decide) close hclose), ?_⟩
    exact readAt_operand (Nat.le_refl _) hnode

/-- An expression is put in parentheses just where it binds too loosely. -/
theorem ReadableAt.atLevel {required level : Nat} {lexemes : List Lexeme} {expr : Node}
    (h : ReadableAt level lexemes expr) (hrequired : required ≤ postfixLevel) :
    ReadableAt required (atLevel required level lexemes) expr := by
  unfold WebScript.atLevel
  split
  · exact h.inParens.of_le hrequired
  · rename_i hle
    exact h.of_le (Nat.not_lt.mp hle)

/-! ## Operands without operators -/

/-- A token that is an operand by itself is read at the tightest level. -/
theorem readableAt_of_operand {lexeme : Lexeme} {expr : Node}
    (h : ∀ (state : ExprState) (token : Token) (closable : Bool), token.lexeme = lexeme →
      ∃ operand : Operand, operand.node.eraseLines = expr.eraseLines ∧
        state.operandStep token closable = state.gotOperand operand) :
    ReadableAt postfixLevel [lexeme] expr := by
  intro before outer closable hbefore token htoken
  obtain ⟨operand, hnode, hstep⟩ := h ⟨before, outer, .operand closable, none⟩ token closable htoken
  exact ⟨_, ExprState.step?_eq_some hstep, readAt_operand (Nat.le_refl _) hnode⟩

theorem readable_variable (line : Option Int) (name : String) :
    (Node.mk line (.variable name)).Readable := by
  intro required hrequired
  refine (readableAt_of_operand fun state token closable htoken => ?_).of_le hrequired
  exact ⟨.plain ⟨some token.line, .variable name⟩ token.line, rfl,
    by simp only [ExprState.operandStep, htoken]⟩

theorem readable_constant (line : Option Int) (name : String) :
    (Node.mk line (.constant name)).Readable := by
  intro required hrequired
  refine (readableAt_of_operand fun state token closable htoken => ?_).of_le hrequired
  exact ⟨⟨⟨some token.line, .constant name⟩, token.line, some name⟩, rfl,
    by simp only [ExprState.operandStep, htoken]⟩

/-- The digits of an integer that is not too large are read as it. -/
theorem readable_int (line : Option Int) {n : Int} (hmin : 0 ≤ n) (hmax : n ≤ intMax) :
    (Node.mk line (.int n)).Readable := by
  intro required hrequired
  refine (readableAt_of_operand fun state token closable htoken => ?_).of_le hrequired
  refine ⟨.plain ⟨some token.line, .int n⟩ token.line, rfl, ?_⟩
  simp only [ExprState.operandStep, htoken, intLiteral_toDigits hmin hmax, ExprState.gotLiteral]

theorem readable_str (line : Option Int) (text : String) :
    (Node.mk line (.str text)).Readable := by
  intro required hrequired
  refine (readableAt_of_operand fun state token closable htoken => ?_).of_le hrequired
  refine ⟨.plain ⟨some token.line, .str text⟩ token.line, rfl, ?_⟩
  simp only [ExprState.operandStep, htoken, unescapeSingle_flatMap_escapeSingle,
    String.ofList_toList]

/-! ## Operators -/

theorem ExprState.operatorStep_lexeme (state : ExprState) (current : Operand)
    (op : BinaryOperator) :
    state.operatorStep current op.lexeme = state.betweenStep current op.binding (.binary op) := by
  cases op <;> rfl

/-- An operator completes what binds more tightly and takes it as its left operand. -/
theorem step?_between {pending before : List Pending} {outer : List (Bracket × List Pending)}
    {current whole : Operand} {binding : Binding} {operator : Operand → Pending} {token : Token}
    (hoperator : ∀ state : ExprState,
      state.operatorStep current token.lexeme = state.betweenStep current binding operator)
    (hmake : makeLeft binding current tightest pending none = some (whole, before, none)) :
    (ExprState.mk pending outer (.operator current) none).step? token =
      some ⟨operator whole :: before, outer, .operand false, none⟩ := by
  refine ExprState.step?_eq_some ((hoperator _).trans ?_)
  rw [ExprState.betweenStep, hmake]

/-- An operator between two expressions is read if they are. -/
theorem readable_binary (line : Option Int) (op : BinaryOperator) {left right : Node}
    (hleft : left.Readable) (hright : right.Readable) :
    (Node.mk line (.binary op left right)).Readable := by
  intro required hrequired
  refine ReadableAt.atLevel (fun before outer closable hbefore => ?_) hrequired
  refine (hleft op.leftLevel op.leftLevel_le before outer closable fun pending hpending =>
    Nat.le_trans (hbefore pending hpending) op.level_le_leftLevel).append ?_
  rintro state ⟨waiting, current, whole, rfl, hcomplete, hnode, hstrength, hcloses⟩ token htoken
  have hbinding := op.binding_eq
  -- The operator completes all that waits inside the left operand and leaves `before` alone, since
  -- its own level is between theirs.
  have hmake : makeLeft op.binding current tightest (waiting ++ before) none =
      some (whole, before, none) := by
    refine hcomplete.makeLeft_eq ?_ ?_ ?_
    · exact fun pending hpending => hbinding ▸ hcloses pending hpending op (Nat.le_refl _)
    · exact fun pending hpending => hbinding ▸ hbefore pending hpending
    · exact hbinding ▸ hstrength
  refine ⟨⟨.binary op whole :: before, outer, .operand false, none⟩, ?_, ?_⟩
  · exact step?_between (fun state => htoken ▸ state.operatorStep_lexeme current op) hmake
  · have hread := hright op.rightLevel op.rightLevel_le (.binary op whole :: before) outer false
      (by rintro pending ⟨⟩; rw [Pending.right, hbinding])
    refine hread.mono fun state hstate => hstate.complete ?_ ?_ ?_ fun operand hoperand => ?_
    · rw [Pending.result, hbinding]
    · exact Pending.closes_binary op whole
    · exact fun other hother => hother.of_rightLevel
    · refine ⟨_, rfl, ?_⟩
      simp only [Operand.plain, Node.eraseLines, Form.eraseLines, hnode, hoperand]

/-- An operator before its operand: reading it makes it wait, and asks for a level. -/
theorem readable_before {level : Nat} {lexeme : Lexeme} {operand expr : Node}
    (hlevel : level ≤ postfixLevel) (hoperand : operand.Readable) (pending : Token → Pending)
    (hstep : ∀ (state : ExprState) (token : Token) (closable : Bool), token.lexeme = lexeme →
      (∀ waiting ∈ state.pending.head?, waiting.right ≤ level) →
        state.operandStep token closable =
          .more { state with pending := pending token :: state.pending, mode := .operand false })
    (hright : ∀ token, (pending token).right = level)
    (hresult : ∀ token, (pending token).result = level)
    (hcloses : ∀ token, (pending token).Closes level)
    (hcomplete : ∀ token (right : Operand), right.node.eraseLines = operand.eraseLines →
      ∃ whole, (pending token).complete right = (whole, none) ∧
        whole.node.eraseLines = expr.eraseLines) :
    ReadableAt level (lexeme :: operand.lexemes level) expr := by
  intro before outer closable hbefore token htoken
  refine ⟨⟨pending token :: before, outer, .operand false, none⟩, ?_, ?_⟩
  · exact ExprState.step?_eq_some
      (hstep ⟨before, outer, .operand closable, none⟩ token closable htoken hbefore)
  · have hread := hoperand level hlevel (pending token :: before) outer false
      (by rintro waiting ⟨⟩; rw [hright])
    exact hread.mono fun state hstate => hstate.complete (hresult token) (hcloses token)
      (fun other hother => hother) (hcomplete token)

/-- An operator before an expression is read if it is. -/
theorem readable_unary (line : Option Int) (op : UnaryOperator) {operand : Node}
    (hoperand : operand.Readable) : (Node.mk line (.unary op operand)).Readable := by
  intro required hrequired
  refine ReadableAt.atLevel ?_ hrequired
  refine readable_before (by decide) hoperand (fun token => .unary op token.line) ?_
    (fun _ => rfl) (fun _ => rfl) (fun _ => Pending.closes_unaryLevel rfl) ?_
  · intro state token closable htoken _
    cases op <;> simp only [ExprState.operandStep, htoken, UnaryOperator.lexeme] <;> rfl
  · intro token right hright
    refine ⟨_, rfl, ?_⟩
    simp only [Operand.plain, Node.eraseLines, Form.eraseLines, hright]

theorem readable_require (line : Option Int) (once fatal : Bool) {path : Node}
    (hpath : path.Readable) : (Node.mk line (.require path once fatal)).Readable := by
  intro required hrequired
  refine ReadableAt.atLevel ?_ hrequired
  refine readable_before (by decide) hpath (fun token => .require once fatal token.line) ?_
    (fun _ => rfl) (fun _ => rfl) (fun _ => Pending.closes_assignmentLevel rfl) ?_
  · intro state token closable htoken hwaiting
    have hadmits : state.admitsAssignment = true := by
      unfold ExprState.admitsAssignment
      split
      · rename_i pending rest heq
        exact decide_eq_true (hwaiting pending (by rw [heq]; rfl))
      · rfl
    simp only [ExprState.operandStep, htoken, hadmits, if_true]
  · intro token right hright
    refine ⟨_, rfl, ?_⟩
    simp only [Operand.plain, Node.eraseLines, Form.eraseLines, hright]

/-! ## Assignments -/

@[simp] theorem Node.isTarget_eraseLines (node : Node) :
    node.eraseLines.isTarget = node.isTarget := by
  induction node using Node.isTarget.induct with
  | case1 => rfl
  | case2 line base dim ih => simpa [Node.isTarget] using ih
  | case3 node hvariable hindex =>
    obtain ⟨line, form⟩ := node
    cases form with
    | «variable» name => exact absurd rfl (hvariable line name)
    | index base dim => exact absurd rfl (hindex line base dim)
    | _ => rfl

/-- A target that can be written down can be assigned to. -/
theorem Node.IsExpression.isTarget {place : Place} {target : Node} (h : target.IsExpression place)
    (hplace : place = .target) : target.isTarget := by
  induction h with
  | «variable» => rfl
  | index _ _ _ ihbase => exact ihbase hplace
  | append _ ihbase => exact ihbase rfl
  | _ => exact absurd hplace (by decide)

/-- An element without an index stands only where it is assigned to. -/
theorem Node.IsExpression.form_ne_append {expr : Node} (h : expr.IsExpression .value)
    (base : Node) : expr.form ≠ .index base none := by
  cases h <;> exact nofun

/-- Whether a node is an element without an index does not depend on lines. -/
theorem exists_append_of_eraseLines {node other base : Node}
    (h : node.eraseLines = other.eraseLines) (hform : node.form = .index base none) :
    ∃ otherBase, other.form = .index otherBase none := by
  obtain ⟨line, form⟩ := node
  obtain ⟨otherLine, otherForm⟩ := other
  obtain rfl : form = .index base none := hform
  have herase := congrArg Node.form h
  simp only [Node.eraseLines, Form.eraseLines, eraseLinesOption] at herase
  cases otherForm with
  | index otherBase dim =>
    cases dim with
    | none => exact ⟨otherBase, rfl⟩
    | some dim => simp [eraseLinesOption] at herase
  | _ => simp at herase

/-- Nothing is wrong with a target that can be written down. -/
theorem targetFault_eq_none {compound : Bool} {operand : Operand} {target : Node}
    (hnode : operand.node.eraseLines = target.eraseLines) (hroot : target.isTarget)
    (hread : compound = true → target.IsExpression .value) :
    targetFault compound operand = none := by
  have htarget : operand.node.isTarget = true := by
    rw [← Node.isTarget_eraseLines, hnode, Node.isTarget_eraseLines, hroot]
  unfold targetFault
  rw [if_neg (by simp [htarget])]
  split
  · rename_i base hform
    obtain ⟨otherBase, hother⟩ := exists_append_of_eraseLines hnode hform
    exact absurd hother ((hread rfl).form_ne_append otherBase)
  · rfl

/-- An operator that assigns: it takes its target from what has just been read. -/
theorem readable_assigning {lexeme : Lexeme} {target value expr : Node}
    (htarget : target.Readable) (hvalue : value.Readable) (pending : Operand → Pending)
    (hoperator : ∀ (state : ExprState) (current : Operand),
      state.operatorStep current lexeme = state.betweenStep current assignmentBinding pending)
    (hright : ∀ operand, (pending operand).right = assignmentStrength)
    (hresult : ∀ operand, (pending operand).result = assignmentStrength)
    (hcomplete : ∀ operand right : Operand, operand.node.eraseLines = target.eraseLines →
      right.node.eraseLines = value.eraseLines → ∃ whole,
        (pending operand).complete right = (whole, none) ∧
          whole.node.eraseLines = expr.eraseLines) :
    ReadableAt assignmentLevel
      (target.lexemes postfixLevel ++ lexeme :: value.lexemes assignmentLevel) expr := by
  intro before outer closable hbefore
  refine (htarget postfixLevel (Nat.le_refl _) before outer closable fun waiting hwaiting =>
    Nat.le_trans (hbefore waiting hwaiting) (by decide)).append fun state hstate token htoken => ?_
  -- A target binds as tightly as anything can, so that no operator waits inside it.
  obtain ⟨operand, hnode, rfl⟩ := hstate.exists_operand
  have hmake : makeLeft assignmentBinding operand tightest before none =
      some (operand, before, none) :=
    (show Completes [] operand operand from rfl).makeLeft_eq nofun hbefore (Nat.le_refl _)
  refine ⟨⟨pending operand :: before, outer, .operand false, none⟩, ?_, ?_⟩
  · exact step?_between (fun state => htoken ▸ hoperator state operand) hmake
  · have hread := hvalue assignmentLevel (by decide) (pending operand :: before) outer false
      (by rintro waiting ⟨⟩; exact Nat.le_of_eq (hright operand))
    exact hread.mono fun state hstate => hstate.complete (hresult operand)
      (Pending.closes_assignmentLevel (hright operand)) (fun other hother => hother)
      fun right hvalue => hcomplete operand right hnode hvalue

theorem readable_assign (line : Option Int) {target value : Node} (hroot : target.isTarget)
    (htarget : target.Readable) (hvalue : value.Readable) :
    (Node.mk line (.assign target value)).Readable := by
  intro required hrequired
  refine ReadableAt.atLevel ?_ hrequired
  refine readable_assigning htarget hvalue .assign (fun _ _ => rfl) (fun _ => rfl) (fun _ => rfl) ?_
  intro operand right hoperand hright
  have hfault : targetFault false operand = none :=
    targetFault_eq_none hoperand hroot nofun
  refine ⟨_, by rw [Pending.complete, hfault], ?_⟩
  simp only [Operand.plain, Node.eraseLines, Form.eraseLines, hoperand, hright]

theorem readable_compoundAssign (line : Option Int) (op : BinaryOperator) {target value : Node}
    (hroot : target.isTarget) (hread : target.IsExpression .value) (htarget : target.Readable)
    (hvalue : value.Readable) : (Node.mk line (.compoundAssign op target value)).Readable := by
  intro required hrequired
  refine ReadableAt.atLevel ?_ hrequired
  refine readable_assigning htarget hvalue (.compound op) (fun _ _ => rfl) (fun _ => rfl)
    (fun _ => rfl) ?_
  intro operand right hoperand hright
  have hfault : targetFault true operand = none :=
    targetFault_eq_none hoperand hroot fun _ => hread
  refine ⟨_, by rw [Pending.complete, hfault], ?_⟩
  simp only [Operand.plain, Node.eraseLines, Form.eraseLines, hoperand, hright]

/-! ## Elements -/

/-- A bracket that may be empty is closed where an operand could be. -/
theorem step?_closeEmpty {bracket : Bracket} {before : List Pending}
    {outer : List (Bracket × List Pending)} {operand : Operand} {token : Token}
    (hclose : token.lexeme ∈ [.closeParen, .closeBracket])
    (hbracket : bracket.closeEmpty? token.lexeme = some operand) :
    (ExprState.mk [] ((bracket, before) :: outer) (.operand true) none).step? token =
      some ⟨before, outer, .operator operand, none⟩ := by
  apply ExprState.step?_eq_some
  simp only [List.mem_cons, List.not_mem_nil, or_false] at hclose
  rcases hclose with hlexeme | hlexeme <;> rw [hlexeme] at hbracket <;>
    simp only [ExprState.step, ExprState.operandStep, hlexeme, hbracket]

theorem step?_openIndex (before : List Pending) (outer : List (Bracket × List Pending))
    (operand : Operand) {token : Token} (htoken : token.lexeme = .openBracket) :
    (ExprState.mk before outer (.operator operand) none).step? token =
      some ⟨[], (.index operand, before) :: outer, .operand true, none⟩ := by
  apply ExprState.step?_eq_some
  simp only [ExprState.step, htoken, ExprState.operatorStep, ExprState.openBracket]

/-- An element is read if the expression before the bracket and the index are. -/
theorem readable_index (line : Option Int) {base dim : Node} (hbase : base.Readable)
    (hdim : dim.Readable) : (Node.mk line (.index base (some dim))).Readable := by
  intro required hrequired
  refine ReadableAt.of_le (fun before outer closable hbefore => ?_) hrequired
  refine (hbase postfixLevel (Nat.le_refl _) before outer closable hbefore).append ?_
  intro state hstate token htoken
  obtain ⟨operand, hoperand, rfl⟩ := hstate.exists_operand
  refine ⟨_, step?_openIndex before outer operand htoken, ?_⟩
  refine (hdim 1 (by decide) [] _ true nofun).append fun state hstate close hclose => ?_
  obtain ⟨whole, hwhole, hstep⟩ := hstate.step_end
  refine ⟨_, ExprState.step?_eq_some (hstep .closeBracket (by decide) close hclose),
    readAt_operand (Nat.le_refl _) ?_⟩
  simp only [Operand.plain, Node.eraseLines, Form.eraseLines, eraseLinesOption, hoperand, hwhole]

/-- An element without an index is read if what stands before it is. -/
theorem readable_append (line : Option Int) {base : Node} (hbase : base.Readable) :
    (Node.mk line (.index base none)).Readable := by
  intro required hrequired
  refine ReadableAt.of_le (fun before outer closable hbefore => ?_) hrequired
  refine (hbase postfixLevel (Nat.le_refl _) before outer closable hbefore).append ?_
  intro state hstate token htoken
  obtain ⟨operand, hoperand, rfl⟩ := hstate.exists_operand
  refine ⟨_, step?_openIndex before outer operand htoken, fun close hclose => ?_⟩
  refine ⟨_, step?_closeEmpty (by rw [hclose]; decide) (by rw [hclose]; rfl),
    readAt_operand (Nat.le_refl _) ?_⟩
  simp only [Operand.plain, Node.eraseLines, Form.eraseLines, eraseLinesOption, hoperand]

/-! ## Calls -/

section Call

variable {name : String} {line : Nat} {before : List Pending}
  {outer : List (Bracket × List Pending)}

/-- Some arguments of a call have been read, and another one may follow. -/
def ArgsReady (name : String) (line : Nat) (before : List Pending)
    (outer : List (Bracket × List Pending)) (seen : List Node) (state : ExprState) : Prop :=
  ∃ done, done.reverse.map Node.eraseLines = seen.map Node.eraseLines ∧
    state = ⟨[], (.args name line done, before) :: outer, .operand true, none⟩

/-- The last of some arguments of a call has just been read. -/
def ArgsGot (name : String) (line : Nat) (before : List Pending)
    (outer : List (Bracket × List Pending)) (seen : List Node) (state : ExprState) : Prop :=
  ∃ done value, ReadAt 1 value [] ((.args name line done, before) :: outer) state ∧
    (done.reverse ++ [Node.mk none (.arg value)]).map Node.eraseLines = seen.map Node.eraseLines

/-- A token that ends an argument completes it and adds it to those before. -/
theorem ArgsGot.step_end {seen : List Node} {state : ExprState}
    (h : ArgsGot name line before outer seen state) :
    ∃ done whole, (argument whole :: done).reverse.map Node.eraseLines = seen.map Node.eraseLines ∧
      ∀ lexeme ∈ endLexemes, ∀ token : Token, token.lexeme = lexeme → state.step token =
        (ExprState.mk [] ((.args name line done, before) :: outer) (.operator whole) none).endStep
          whole lexeme := by
  obtain ⟨done, value, hread, hseen⟩ := h
  obtain ⟨whole, hwhole, hstep⟩ := hread.step_end
  refine ⟨done, whole, ?_, hstep⟩
  rw [← hseen, List.reverse_cons, List.map_append, List.map_append]
  simp only [argument, List.map_cons, List.map_nil, Node.eraseLines, Form.eraseLines, hwhole]

/-- The arguments of a call are read one after another, up to the closing parenthesis. -/
theorem reads_args {args : List Node}
    (hargs : ∀ arg ∈ args, ∃ line value, arg = ⟨line, .arg value⟩ ∧ value.Readable) :
    Reads ExprState.step?
      (fun state => ∃ nodes, nodes.map Node.eraseLines = args.map Node.eraseLines ∧
        state = ⟨before, outer, .operator (.plain ⟨some line, .call name nodes⟩ line), none⟩)
      (commaSeparated (argLexemes args) ++ [.closeParen])
      ⟨[], (.args name line [], before) :: outer, .operand true, none⟩ := by
  by_cases hne : args = []
  · subst hne
    intro token htoken
    refine ⟨_, step?_closeEmpty (by rw [htoken]; decide) (by rw [htoken]; rfl), ?_⟩
    exact ⟨[], rfl, rfl⟩
  rw [argLexemes_eq_map]
  have hread : Reads ExprState.step? (ArgsGot name line before outer ([] ++ args))
      (commaSeparated (args.map (Node.lexemes 1)))
      ⟨[], (.args name line [], before) :: outer, .operand true, none⟩ := by
    refine reads_commaSeparated (ArgsReady name line before outer) _ ?_ ?_ hne ⟨[], rfl, rfl⟩
    · rintro seen arg harg state ⟨done, hdone, rfl⟩
      obtain ⟨argLine, value, rfl, hvalue⟩ := hargs arg harg
      refine (hvalue 1 (by decide) [] _ true nofun).mono fun state hstate =>
        ⟨done, value, hstate, ?_⟩
      rw [List.map_append, List.map_append, hdone]
      rfl
    · intro seen state hgot token htoken
      obtain ⟨done, whole, hseen, hstep⟩ := hgot.step_end
      exact ⟨_, ExprState.step?_eq_some (hstep .comma (by decide) token htoken), _, hseen, rfl⟩
  refine hread.append fun state hgot token htoken => ?_
  obtain ⟨done, whole, hseen, hstep⟩ := hgot.step_end
  exact ⟨_, ExprState.step?_eq_some (hstep .closeParen (by decide) token htoken), _, hseen, rfl⟩

end Call

/-- A call is read if its arguments are. -/
theorem readable_call (line : Option Int) {name : String} {args : List Node}
    (hcase : lowerCase name = name)
    (hargs : ∀ arg ∈ args, ∃ line value, arg = ⟨line, .arg value⟩ ∧ value.Readable) :
    (Node.mk line (.call name args)).Readable := by
  intro required hrequired
  refine ReadableAt.of_le (fun before outer closable hbefore token htoken => ?_) hrequired
  -- Up to the parenthesis the name is a constant.
  refine ⟨⟨before, outer,
    .operator ⟨⟨some token.line, .constant name⟩, token.line, some name⟩, none⟩, ?_, ?_⟩
  · apply ExprState.step?_eq_some
    simp only [ExprState.step, ExprState.operandStep, htoken, ExprState.gotOperand]
  intro paren hparen
  refine ⟨⟨[], (.args name token.line [], before) :: outer, .operand true, none⟩, ?_, ?_⟩
  · apply ExprState.step?_eq_some
    simp only [ExprState.step, hparen, ExprState.operatorStep, ExprState.openBracket, hcase]
  · refine (reads_args hargs).mono ?_
    rintro state ⟨nodes, hnodes, rfl⟩
    refine readAt_operand (Nat.le_refl _) ?_
    simp only [Operand.plain, Node.eraseLines, Form.eraseLines, eraseLinesList_eq_map, hnodes]

/-! ## Arrays -/

section ArrayLiteral

variable {line : Nat} {before : List Pending} {outer : List (Bracket × List Pending)}

/-- Some elements of an array have been read, and another one may follow. -/
def ItemsReady (line : Nat) (before : List Pending) (outer : List (Bracket × List Pending))
    (seen : List (ArrayItem Node)) (state : ExprState) : Prop :=
  ∃ done, done.reverse.map ArrayItem.eraseLines = seen.map ArrayItem.eraseLines ∧
    state = ⟨[], (.items false line done none, before) :: outer, .operand true, none⟩

/-- The last of some elements of an array has just been read. -/
def ItemsGot (line : Nat) (before : List Pending) (outer : List (Bracket × List Pending))
    (seen : List (ArrayItem Node)) (state : ExprState) : Prop :=
  ∃ done key value, ReadAt 1 value [] ((.items false line done key, before) :: outer) state ∧
    (done.reverse ++ [ArrayItem.mk none value (key.map Operand.node)]).map ArrayItem.eraseLines =
      seen.map ArrayItem.eraseLines

/-- A token that ends an array element completes it and adds it to those before. -/
theorem ItemsGot.step_end {seen : List (ArrayItem Node)} {state : ExprState}
    (h : ItemsGot line before outer seen state) :
    ∃ done key whole, (arrayItem key whole :: done).reverse.map ArrayItem.eraseLines =
        seen.map ArrayItem.eraseLines ∧
      ∀ lexeme ∈ endLexemes, ∀ token : Token, token.lexeme = lexeme → state.step token =
        (ExprState.mk [] ((.items false line done key, before) :: outer) (.operator whole)
          none).endStep whole lexeme := by
  obtain ⟨done, key, value, hread, hseen⟩ := h
  obtain ⟨whole, hwhole, hstep⟩ := hread.step_end
  refine ⟨done, key, whole, ?_, hstep⟩
  rw [← hseen, List.reverse_cons, List.map_append, List.map_append]
  cases key <;> simp only [arrayItem, ArrayItem.eraseLines, List.map_cons, List.map_nil, hwhole,
    Option.map_none, Option.map_some]

/-- An element is read with its key, if it has one, and then its value. -/
theorem reads_item {item : ArrayItem Node} {seen : List (ArrayItem Node)} {state : ExprState}
    (hvalue : item.value.Readable) (hkey : ∀ key ∈ item.key, key.Readable)
    (hready : ItemsReady line before outer seen state) :
    Reads ExprState.step? (ItemsGot line before outer (seen ++ [item])) item.lexemes state := by
  obtain ⟨itemLine, value, itemKey⟩ := item
  obtain ⟨done, hdone, rfl⟩ := hready
  cases itemKey with
  | none =>
    refine (hvalue 1 (by decide) [] _ true nofun).mono fun state hstate =>
      ⟨done, none, value, hstate, ?_⟩
    rw [List.map_append, List.map_append, hdone]
    rfl
  | some key =>
    refine (hkey key rfl 1 (by decide) [] _ true nofun).append fun state hstate arrow harrow => ?_
    obtain ⟨whole, hwhole, hstep⟩ := hstate.step_end
    refine ⟨_, ExprState.step?_eq_some (hstep .arrow (by decide) arrow harrow), ?_⟩
    refine (hvalue 1 (by decide) [] _ false nofun).mono fun state hstate =>
      ⟨done, some whole, value, hstate, ?_⟩
    rw [List.map_append, List.map_append, hdone]
    simp only [List.map_cons, List.map_nil, ArrayItem.eraseLines, Option.map_some, hwhole]

/-- The elements of an array are read one after another, up to the closing bracket. -/
theorem reads_items {items : List (ArrayItem Node)}
    (hvalues : ∀ item ∈ items, item.value.Readable)
    (hkeys : ∀ item ∈ items, ∀ key ∈ item.key, key.Readable) :
    Reads ExprState.step?
      (fun state => ∃ nodes, nodes.map ArrayItem.eraseLines = items.map ArrayItem.eraseLines ∧
        state = ⟨before, outer, .operator (.plain ⟨some line, .arrayLiteral nodes⟩ line), none⟩)
      (commaSeparated (itemLexemes items) ++ [.closeBracket])
      ⟨[], (.items false line [] none, before) :: outer, .operand true, none⟩ := by
  by_cases hne : items = []
  · subst hne
    intro token htoken
    refine ⟨_, step?_closeEmpty (by rw [htoken]; decide) (by rw [htoken]; rfl), ?_⟩
    exact ⟨[], rfl, rfl⟩
  rw [itemLexemes_eq_map]
  have hread : Reads ExprState.step? (ItemsGot line before outer ([] ++ items))
      (commaSeparated (items.map ArrayItem.lexemes))
      ⟨[], (.items false line [] none, before) :: outer, .operand true, none⟩ := by
    refine reads_commaSeparated (ItemsReady line before outer) _ ?_ ?_ hne ⟨[], rfl, rfl⟩
    · exact fun seen item hitem state => reads_item (hvalues item hitem) (hkeys item hitem)
    · intro seen state hgot token htoken
      obtain ⟨done, key, whole, hseen, hstep⟩ := hgot.step_end
      exact ⟨_, ExprState.step?_eq_some (hstep .comma (by decide) token htoken), _, hseen, rfl⟩
  refine hread.append fun state hgot token htoken => ?_
  obtain ⟨done, key, whole, hseen, hstep⟩ := hgot.step_end
  exact ⟨_, ExprState.step?_eq_some (hstep .closeBracket (by decide) token htoken), _, hseen, rfl⟩

end ArrayLiteral

/-- An array literal is read if its keys and values are. -/
theorem readable_arrayLiteral (line : Option Int) {items : List (ArrayItem Node)}
    (hvalues : ∀ item ∈ items, item.value.Readable)
    (hkeys : ∀ item ∈ items, ∀ key ∈ item.key, key.Readable) :
    (Node.mk line (.arrayLiteral items)).Readable := by
  intro required hrequired
  refine ReadableAt.of_le (fun before outer closable hbefore token htoken => ?_) hrequired
  refine ⟨⟨[], (.items false token.line [] none, before) :: outer, .operand true, none⟩, ?_, ?_⟩
  · apply ExprState.step?_eq_some
    simp only [ExprState.step, ExprState.operandStep, htoken, ExprState.openBracket]
  · refine (reads_items hvalues hkeys).mono ?_
    rintro state ⟨nodes, hnodes, rfl⟩
    refine readAt_operand (Nat.le_refl _) ?_
    simp only [Operand.plain, Node.eraseLines, Form.eraseLines, eraseLinesItems_eq_map, hnodes]

/-! ## All expressions -/

/-- What can be read of a node at its place: of an argument, its value. -/
def Node.ReadableIn (place : Place) (node : Node) : Prop :=
  match place with
  | .argument => ∃ line value, node = ⟨line, .arg value⟩ ∧ value.Readable
  | .value | .target => node.Readable

/-- Only an argument is read otherwise than as an expression. -/
theorem Node.readableIn_iff {node : Node} {place : Place} (hplace : place ≠ .argument) :
    node.ReadableIn place ↔ node.Readable := by
  cases place with
  | argument => exact absurd rfl hplace
  | value => exact Iff.rfl
  | target => exact Iff.rfl

/-- Every expression that can be written down is read, in every place, one kind after another. -/
theorem Node.IsExpression.readableIn {place : Place} {node : Node} (h : node.IsExpression place) :
    node.ReadableIn place := by
  induction h with
  | «variable» hplace hname => exact (Node.readableIn_iff hplace).mpr (readable_variable _ _)
  | constant hname => exact readable_constant _ _
  | int hmin hmax => exact readable_int _ hmin hmax
  | str text => exact readable_str _ text
  | arrayLiteral hvalues hkeys ihvalues ihkeys => exact readable_arrayLiteral _ ihvalues ihkeys
  | binary op hleft hright ihleft ihright => exact readable_binary _ op ihleft ihright
  | unary op hoperand ihoperand => exact readable_unary _ op ihoperand
  | index hplace hbase hdim ihbase ihdim =>
    have hread := (Node.readableIn_iff hplace).mp ihbase
    exact (Node.readableIn_iff hplace).mpr (readable_index _ hread ihdim)
  | append hbase ihbase => exact readable_append _ ihbase
  | assign htarget hexpr ihtarget ihexpr =>
    exact readable_assign _ (htarget.isTarget rfl) ihtarget ihexpr
  | compoundAssign hop hroot htarget hexpr ihtarget ihexpr =>
    exact readable_compoundAssign _ _ hroot htarget ihtarget ihexpr
  | require once fatal hpath ihpath => exact readable_require _ once fatal ihpath
  | call hname hcase hargs ihargs => exact readable_call _ hcase ihargs
  | arg hvalue ihvalue => exact ⟨_, _, rfl, ihvalue⟩

/-- A printed expression is read back, wherever it stands. -/
theorem Node.IsExpression.readable {node : Node} (h : node.IsExpression .value) : node.Readable :=
  h.readableIn

end WebScript
