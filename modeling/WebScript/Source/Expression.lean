import WebScript.Source.Literal
import WebScript.Source.Token

/-!
# Reading expressions

Expressions are read one token at a time. Operators that still wait for their right operand are
`Pending`; an opening bracket puts them aside until it closes. Each operator says how tightly its
operands must bind and how tightly its result does, and these numbers alone decide when a pending
operator is complete.

A literal without a value, or an assignment to something else than a variable or its elements, is
only noted: it counts when the whole text has been read.
-/

namespace WebScript

/-! ## Binding strengths

From loose to tight: `or` 1, `xor` 2, `and` 3, assignments and file inclusion 4, `??` 5, `||` 6,
`&&` 7, `|` 8, `^` 9, `&` 10, equality 11, order 12, `.` 13, shifts 14, `+` and `-` 15, `*`, `/` and
`%` 16, unary operators 17, `**` 18, elements and calls 19.
-/

/-- The strengths that an operator asks of its left operand, has itself, and asks of its right
    operand. -/
structure Binding where
  left : Nat
  result : Nat
  right : Nat
  deriving DecidableEq, Repr

/-- The strength of elements, calls and everything in brackets. -/
def tightest : Nat := 19

/-- The strength of assignments. -/
def assignmentStrength : Nat := 4

/-- The strength of unary operators. -/
def unaryStrength : Nat := 17

/-- Assignments take an element or a variable on the left, and another assignment on the right. -/
def assignmentBinding : Binding := ⟨tightest, assignmentStrength, assignmentStrength⟩

/-- The strengths of a binary operator. Comparison operators do not chain; `??` and `**` group to
    the right, and all others to the left. -/
def BinaryOperator.binding : BinaryOperator → Binding
  | .logicalOr => ⟨1, 1, 2⟩
  | .logicalXor => ⟨2, 2, 3⟩
  | .logicalAnd => ⟨3, 3, 4⟩
  | .coalesce => ⟨6, 5, 5⟩
  | .booleanOr => ⟨6, 6, 7⟩
  | .booleanAnd => ⟨7, 7, 8⟩
  | .bitwiseOr => ⟨8, 8, 9⟩
  | .bitwiseXor => ⟨9, 9, 10⟩
  | .bitwiseAnd => ⟨10, 10, 11⟩
  | .equal | .notEqual | .identical | .notIdentical | .spaceship => ⟨12, 11, 12⟩
  | .smaller | .smallerOrEqual | .greater | .greaterOrEqual => ⟨13, 12, 13⟩
  | .concat => ⟨13, 13, 14⟩
  | .shiftLeft | .shiftRight => ⟨14, 14, 15⟩
  | .plus | .minus => ⟨15, 15, 16⟩
  | .mul | .div | .mod => ⟨16, 16, 17⟩
  | .pow => ⟨tightest, 18, unaryStrength⟩

/-! ## Operands and pending operators -/

/-- An expression that has been read, and the line where it starts. Parentheses move the start but
    not the line of the node inside them. -/
structure Operand where
  node : Node
  start : Nat
  /-- The name, if the expression is just a name, which an opening parenthesis makes a call. -/
  callee : Option String

/-- An operand that is not a bare name. -/
def Operand.plain (node : Node) (start : Nat) : Operand := ⟨node, start, none⟩

/-- Whether a node can be assigned to: a variable, or an element of one at any depth. -/
def Node.isTarget : Node → Bool
  | ⟨_, .variable _⟩ => true
  | ⟨_, .index base _⟩ => base.isTarget
  | _ => false

/-- Operators that wait for their right operand. -/
inductive Pending where
  | binary (op : BinaryOperator) (left : Operand)
  | assign (target : Operand)
  | compound (op : BinaryOperator) (target : Operand)
  | unary (op : UnaryOperator) (line : Nat)
  | require (once fatal : Bool) (line : Nat)

/-- The strength that a pending operator asks of its right operand. -/
def Pending.right : Pending → Nat
  | .binary op _ => op.binding.right
  | .assign _ | .compound _ _ | .require .. => assignmentStrength
  | .unary .. => unaryStrength

/-- The strength of a pending operator once it is complete. -/
def Pending.result : Pending → Nat
  | .binary op _ => op.binding.result
  | .assign _ | .compound _ _ | .require .. => assignmentStrength
  | .unary .. => unaryStrength

/-- What is wrong with the target of an assignment. A compound assignment also reads its target. -/
def targetFault (compound : Bool) (target : Operand) : Option SourceError :=
  if !target.node.isTarget then some (.parse ⟨.badTarget, some target.start, none⟩)
  else
    match compound, target.node.form with
    | true, .index _ none => some (.parse ⟨.appendRead, some target.start, none⟩)
    | _, _ => none

/-- The expression that a pending operator and its right operand form, and what is wrong with it. -/
def Pending.complete (pending : Pending) (right : Operand) : Operand × Option SourceError :=
  match pending with
  | .binary op left =>
    (.plain ⟨some left.start, .binary op left.node right.node⟩ left.start, none)
  | .assign target =>
    (.plain ⟨some target.start, .assign target.node right.node⟩ target.start,
      targetFault false target)
  | .compound op target =>
    (.plain ⟨some target.start, .compoundAssign op target.node right.node⟩ target.start,
      targetFault true target)
  | .unary op line => (.plain ⟨some line, .unary op right.node⟩ line, none)
  | .require once fatal line => (.plain ⟨some line, .require right.node once fatal⟩ line, none)

/-! ## Brackets -/

/-- Constructs in brackets that are being read. -/
inductive Bracket where
  | paren (line : Nat)
  | index (base : Operand)
  /-- Arguments of a call, the latest first. -/
  | args (name : String) (line : Nat) (done : List Node)
  /-- Elements of an array, the latest first, and the key of the next one; `round` arrays close with
      a parenthesis. -/
  | items (round : Bool) (line : Nat) (done : List (ArrayItem Node)) (key : Option Operand)

/-- What a token after an expression in brackets does: it closes the bracket, or asks for another
    expression, which may be left out if `closable`. -/
inductive BracketStep where
  | closed (operand : Operand)
  | reopened (bracket : Bracket) (closable : Bool)

/-- The element of an array whose value has been read. -/
def arrayItem (key : Option Operand) (value : Operand) : ArrayItem Node :=
  match key with
  | some key => ⟨some key.start, value.node, some key.node⟩
  | none => ⟨some value.start, value.node, none⟩

/-- The argument of a call. -/
def argument (value : Operand) : Node := ⟨value.node.line, .arg value.node⟩

/-- The closing token of an array. -/
def arrayCloser (round : Bool) : Lexeme := if round then .closeParen else .closeBracket

/-- What a token does after an expression inside a bracket. -/
def Bracket.next? (bracket : Bracket) (inner : Operand) (lexeme : Lexeme) : Option BracketStep :=
  match bracket with
  | .paren line => if lexeme = .closeParen then some (.closed (.plain inner.node line)) else none
  | .index base =>
    if lexeme = .closeBracket then
      some (.closed (.plain ⟨some base.start, .index base.node (some inner.node)⟩ base.start))
    else none
  | .args name line done =>
    if lexeme = .comma then some (.reopened (.args name line (argument inner :: done)) true)
    else if lexeme = .closeParen then
      some (.closed (.plain ⟨some line, .call name (argument inner :: done).reverse⟩ line))
    else none
  | .items round line done key =>
    let item := arrayItem key inner
    if lexeme = .arrow && key.isNone then
      some (.reopened (.items round line done (some inner)) false)
    else if lexeme = .comma then some (.reopened (.items round line (item :: done) none) true)
    else if lexeme = arrayCloser round then
      some (.closed (.plain ⟨some line, .arrayLiteral (item :: done).reverse⟩ line))
    else none

/-- The construct that a token makes of a bracket in which no further expression stands. -/
def Bracket.closeEmpty? (bracket : Bracket) (lexeme : Lexeme) : Option Operand :=
  match bracket with
  | .paren _ => none
  | .index base =>
    if lexeme = .closeBracket then
      some (.plain ⟨some base.start, .index base.node none⟩ base.start)
    else none
  | .args name line done =>
    if lexeme = .closeParen then some (.plain ⟨some line, .call name done.reverse⟩ line) else none
  | .items round line done _ =>
    if lexeme = arrayCloser round then
      some (.plain ⟨some line, .arrayLiteral done.reverse⟩ line)
    else none

/-! ## Reading -/

/-- What is expected next. -/
inductive ExprMode where
  /-- An operand, or the end of the innermost bracket if `closable`. -/
  | operand (closable : Bool)
  /-- The opening parenthesis after the word `array`. -/
  | arrayOpen (line : Nat)
  /-- An operator or the end of the expression. -/
  | operator (current : Operand)

/-- An expression that is being read. -/
structure ExprState where
  /-- Operators waiting inside the innermost bracket, the latest first. -/
  pending : List Pending
  /-- Open brackets, the innermost first, each with the operators that wait outside it. -/
  outer : List (Bracket × List Pending)
  mode : ExprMode
  /-- The first thing found wrong with what has been read. -/
  fault : Option SourceError

/-- What a token does to an expression. -/
inductive ExprStep where
  | more (state : ExprState)
  /-- The expression ended before the token. -/
  | done (operand : Operand) (fault : Option SourceError)
  /-- No expression goes on like this. -/
  | reject

/-- The start of an expression. -/
def ExprState.start (fault : Option SourceError) : ExprState := ⟨[], [], .operand false, fault⟩

/-- Completes all pending operators. -/
def completeAll : List Pending → Operand → Option SourceError → Operand × Option SourceError
  | [], current, fault => (current, fault)
  | pending :: rest, current, fault =>
    let (operand, found) := pending.complete current
    completeAll rest operand (fault.or found)

/-- Completes the pending operators that bind more tightly than a new operator, whose left operand
    then is what has been read. `strength` is that of `current`. There is no answer if an operand
    does not bind tightly enough. -/
def makeLeft (binding : Binding) (current : Operand) (strength : Nat) :
    List Pending → Option SourceError → Option (Operand × List Pending × Option SourceError)
  | pending :: rest, fault =>
    if pending.right ≤ binding.result then
      if binding.left ≤ strength then some (current, pending :: rest, fault) else none
    else
      let (operand, found) := pending.complete current
      makeLeft binding operand pending.result rest (fault.or found)
  | [], fault => if binding.left ≤ strength then some (current, [], fault) else none

/-- Reads an operator between two operands. -/
def ExprState.betweenStep (state : ExprState) (current : Operand) (binding : Binding)
    (operator : Operand → Pending) : ExprStep :=
  match makeLeft binding current tightest state.pending state.fault with
  | some (left, pending, fault) =>
    .more ⟨operator left :: pending, state.outer, .operand false, fault⟩
  | none => .reject

/-- Opens a bracket. -/
def ExprState.openBracket (state : ExprState) (bracket : Bracket) (closable : Bool) : ExprStep :=
  .more ⟨[], (bracket, state.pending) :: state.outer, .operand closable, state.fault⟩

/-- Goes on after an operand. -/
def ExprState.gotOperand (state : ExprState) (operand : Operand) : ExprStep :=
  .more { state with mode := .operator operand }

/-- Goes on after a literal, which may have no value. -/
def ExprState.gotLiteral (state : ExprState) (line : Nat)
    (literal : Except SourceError Node) : ExprStep :=
  match literal with
  | .ok node => state.gotOperand (.plain node line)
  | .error found =>
    .more { state with
      mode := .operator (.plain ⟨some line, .nop⟩ line), fault := state.fault.or (some found) }

/-- Whether a construct that binds as loosely as an assignment may stand here. -/
def ExprState.admitsAssignment (state : ExprState) : Bool :=
  match state.pending with
  | pending :: _ => pending.right ≤ assignmentStrength
  | [] => true

/-- Reads the start of an operand. -/
def ExprState.operandStep (state : ExprState) (token : Token) (closable : Bool) : ExprStep :=
  let line := token.line
  match token.lexeme with
  | .variable name => state.gotOperand (.plain ⟨some line, .variable name⟩ line)
  | .identifier name => state.gotOperand ⟨⟨some line, .constant name⟩, line, some name⟩
  | .int text =>
    state.gotLiteral line <|
      match intLiteral text with
      | .ok form => .ok ⟨some line, form⟩
      | .error .badNumber => .error (.parse ⟨.badNumber, some line, none⟩)
      | .error (.limit limit) => .error (.limit limit)
  | .float text => state.gotOperand (.plain ⟨some line, floatLiteral text⟩ line)
  | .single raw =>
    state.gotOperand (.plain ⟨some line, .str (String.ofList (unescapeSingle raw))⟩ line)
  | .double raw => state.gotLiteral line ((doubleLiteral raw (some line)).mapError .limit)
  | .openBracket => state.openBracket (.items false line [] none) true
  | .keyword .array => .more { state with mode := .arrayOpen line }
  | .openParen => state.openBracket (.paren line) false
  | .unary op =>
    .more { state with pending := .unary op line :: state.pending, mode := .operand false }
  | .sign minus =>
    .more { state with
      pending := .unary (if minus then .minus else .plus) line :: state.pending
      mode := .operand false }
  | .require once fatal =>
    if state.admitsAssignment then
      .more { state with
        pending := .require once fatal line :: state.pending, mode := .operand false }
    else .reject
  | lexeme =>
    match closable, state.outer with
    | true, (bracket, pending) :: outer =>
      match bracket.closeEmpty? lexeme with
      | some operand => .more ⟨pending, outer, .operator operand, state.fault⟩
      | none => .reject
    | _, _ => .reject

/-- Reads what follows an operand and is no operator: it ends the innermost bracket or its part, or
    the whole expression. -/
def ExprState.endStep (state : ExprState) (current : Operand) (lexeme : Lexeme) : ExprStep :=
  let (inner, fault) := completeAll state.pending current state.fault
  match state.outer with
  | [] => .done inner fault
  | (bracket, pending) :: outer =>
    match bracket.next? inner lexeme with
    | some (.closed operand) => .more ⟨pending, outer, .operator operand, fault⟩
    | some (.reopened bracket closable) =>
      .more ⟨[], (bracket, pending) :: outer, .operand closable, fault⟩
    | none => .reject

/-- Reads what follows an operand. -/
def ExprState.operatorStep (state : ExprState) (current : Operand) (lexeme : Lexeme) : ExprStep :=
  match lexeme with
  | .openBracket => state.openBracket (.index current) true
  | .openParen =>
    match current.callee with
    | some name => state.openBracket (.args (lowerCase name) current.start []) true
    | none => .reject
  | .binary op => state.betweenStep current op.binding (.binary op)
  | .sign minus =>
    let op : BinaryOperator := if minus then .minus else .plus
    state.betweenStep current op.binding (.binary op)
  | .equals => state.betweenStep current assignmentBinding .assign
  | .compound op => state.betweenStep current assignmentBinding (.compound op)
  | lexeme => state.endStep current lexeme

/-- Reads one token of an expression. -/
def ExprState.step (state : ExprState) (token : Token) : ExprStep :=
  match state.mode with
  | .operand closable => state.operandStep token closable
  | .arrayOpen line =>
    if token.lexeme = .openParen then state.openBracket (.items true line [] none) true else .reject
  | .operator current => state.operatorStep current token.lexeme

end WebScript
