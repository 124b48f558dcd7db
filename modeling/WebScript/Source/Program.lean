import WebScript.Source.Expression
import WebScript.Source.Tags

/-!
# Reading programs

Statements are read one token at a time, with a stack of the statements that are still open. An
`else` belongs to the nearest `if` that can take it. A block is no node of its own: its statements
join those around it.

`parse` reads a whole source. The first token that cannot continue any program is the place of a
syntax error; what is wrong with literals and assignment targets counts only after that; reading an
element that `[]` would append counts last.
-/

namespace WebScript

/-! ## Open statements -/

/-- An `if` whose first statements have been read, and its further conditions, the latest first. -/
structure IfHead where
  line : Nat
  cond : Node
  body : List Node
  elseIfs : List (ElseIf Node)

/-- The complete `if`. -/
def IfHead.finish (head : IfHead) (otherwise : Option (Else Node)) : Node :=
  ⟨some head.line, .conditional head.cond head.body head.elseIfs.reverse otherwise⟩

/-- The `if` with one more condition. -/
def IfHead.addElseIf (head : IfHead) (line : Nat) (cond : Node) (body : List Node) : IfHead :=
  { head with elseIfs := ⟨some line, cond, body⟩ :: head.elseIfs }

/-- The head of a function: its parameters, the latest first. -/
structure FunctionHead where
  line : Nat
  name : String
  params : List (Param Node)

/-- The head with one more parameter. -/
def FunctionHead.addParam (head : FunctionHead) (line : Nat) (name : String)
    (default : Option Node) : FunctionHead :=
  { head with params := ⟨some line, name, default⟩ :: head.params }

/-- Where a list of statements stands. -/
inductive ListKind where
  | program
  | block
  | function (head : FunctionHead)

/-- The head of a loop: what it runs over and the variables that it binds. -/
structure ForeachHead where
  line : Nat
  expr : Node
  keyVar : Option String
  valueVar : String

/-- Statements that are still open. -/
inductive StatementFrame where
  /-- A list of statements, the latest first. -/
  | list (kind : ListKind) (done : List Node)
  | ifBody (line : Nat) (cond : Node)
  | elseIfBody (head : IfHead) (line : Nat) (cond : Node)
  | elseBody (head : IfHead) (line : Nat)
  | foreachBody (head : ForeachHead)

/-- What an expression is read for. -/
inductive ExprContext where
  | statement
  | echo (line : Nat) (done : List Node)
  | ret (line : Nat)
  | ifCond (line : Nat)
  | elseIfCond (head : IfHead) (line : Nat)
  | foreachSource (line : Nat)
  /-- The default of a parameter. -/
  | default (head : FunctionHead) (line : Nat) (name : String)

/-- What is expected next. -/
inductive Mode where
  /-- A statement, or the end of the innermost list. -/
  | statement
  /-- A further part of an `if`, or whatever follows it. -/
  | clauses (head : IfHead)
  /-- The parenthesis before an expression. -/
  | parenthesis (context : ExprContext)
  | expression (context : ExprContext) (state : ExprState)
  /-- What follows the word `return`. -/
  | returned (line : Nat)
  | functionName (line : Nat)
  | functionOpen (line : Nat) (name : String)
  /-- A parameter, or the end of the parameters. -/
  | parameter (head : FunctionHead)
  /-- What follows the name of a parameter. -/
  | parameterEnd (head : FunctionHead) (line : Nat) (name : String)
  | functionBrace (head : FunctionHead)
  | foreachFirst (line : Nat) (expr : Node)
  | foreachSecond (line : Nat) (expr : Node) (first : String)
  | foreachValue (line : Nat) (expr : Node) (keyVar : String)
  | foreachClose (head : ForeachHead)

/-- A program that is being read. -/
structure ParserState where
  mode : Mode
  /-- Open statements, the innermost first. -/
  stack : List StatementFrame
  /-- The first thing found wrong with what has been read. -/
  fault : Option SourceError

/-- The start of a program. -/
def ParserState.start : ParserState := ⟨.statement, [.list .program []], none⟩

/-! ## Complete statements -/

/-- The loop with its statements. -/
def ForeachHead.finish (head : ForeachHead) (body : List Node) : Node :=
  ⟨some head.line, .foreach head.expr head.valueVar body head.keyVar⟩

/-- Hands a complete statement to the statement around it. -/
def deliver (nodes : List Node) : List StatementFrame → Mode × List StatementFrame
  | [] => (.statement, [.list .program nodes.reverse])
  | .list kind done :: rest => (.statement, .list kind (nodes.reverse ++ done) :: rest)
  | .ifBody line cond :: rest => (.clauses ⟨line, cond, nodes, []⟩, rest)
  | .elseIfBody head line cond :: rest => (.clauses (head.addElseIf line cond nodes), rest)
  | .elseBody head line :: rest => deliver [head.finish (some ⟨some line, nodes⟩)] rest
  | .foreachBody head :: rest => deliver [head.finish nodes] rest

/-- Hands a complete statement on when no further part of an `if` follows: the statements around it
    are complete, too, up to the innermost list. -/
def deliverAll (nodes : List Node) : List StatementFrame → List StatementFrame
  | [] => [.list .program nodes.reverse]
  | .list kind done :: rest => .list kind (nodes.reverse ++ done) :: rest
  | .ifBody line cond :: rest =>
    deliverAll [IfHead.finish ⟨line, cond, nodes, []⟩ none] rest
  | .elseIfBody head line cond :: rest =>
    deliverAll [(head.addElseIf line cond nodes).finish none] rest
  | .elseBody head line :: rest => deliverAll [head.finish (some ⟨some line, nodes⟩)] rest
  | .foreachBody head :: rest => deliverAll [head.finish nodes] rest

/-! ## Reading -/

/-- What a token after a complete expression does. -/
def ExprContext.finish? (context : ExprContext) (operand : Operand) (fault : Option SourceError)
    (lexeme : Lexeme) (stack : List StatementFrame) : Option ParserState :=
  let deliverNode (node : Node) : ParserState :=
    let (mode, stack) := deliver [node] stack
    ⟨mode, stack, fault⟩
  match context, lexeme with
  | .statement, .semicolon => some (deliverNode operand.node)
  | .echo line done, .comma =>
    some ⟨.expression (.echo line (operand.node :: done)) (.start fault), stack, fault⟩
  | .echo line done, .semicolon =>
    some (deliverNode ⟨some line, .echo (operand.node :: done).reverse⟩)
  | .ret line, .semicolon => some (deliverNode ⟨some line, .ret (some operand.node)⟩)
  | .ifCond line, .closeParen => some ⟨.statement, .ifBody line operand.node :: stack, fault⟩
  | .elseIfCond head line, .closeParen =>
    some ⟨.statement, .elseIfBody head line operand.node :: stack, fault⟩
  | .foreachSource line, .keyword .as => some ⟨.foreachFirst line operand.node, stack, fault⟩
  | .default head line name, .comma =>
    some ⟨.parameter (head.addParam line name (some operand.node)), stack, fault⟩
  | .default head line name, .closeParen =>
    some ⟨.functionBrace (head.addParam line name (some operand.node)), stack, fault⟩
  | _, _ => none

/-- Reads one token of an expression. -/
def expressionStep (context : ExprContext) (state : ExprState) (stack : List StatementFrame)
    (token : Token) : Option ParserState :=
  match state.step token with
  | .more next => some ⟨.expression context next, stack, next.fault⟩
  | .done operand fault => context.finish? operand fault token.lexeme stack
  | .reject => none

/-- Ends the innermost list of statements. -/
def closeList? (stack : List StatementFrame) (fault : Option SourceError) : Option ParserState :=
  let resume (nodes : List Node) (rest : List StatementFrame) : ParserState :=
    let (mode, stack) := deliver nodes rest
    ⟨mode, stack, fault⟩
  match stack with
  | .list .block done :: rest => some (resume done.reverse rest)
  | .list (.function head) done :: rest =>
    some (resume [⟨some head.line, .functionDecl head.name head.params.reverse done.reverse⟩] rest)
  | _ => none

/-- Reads the start of a statement. -/
def statementStep (stack : List StatementFrame) (fault : Option SourceError) (token : Token) :
    Option ParserState :=
  let line := token.line
  match token.lexeme with
  | .keyword .echo => some ⟨.expression (.echo line []) (.start fault), stack, fault⟩
  | .keyword .conditional => some ⟨.parenthesis (.ifCond line), stack, fault⟩
  | .keyword .foreach => some ⟨.parenthesis (.foreachSource line), stack, fault⟩
  | .keyword .function => some ⟨.functionName line, stack, fault⟩
  | .keyword .ret => some ⟨.returned line, stack, fault⟩
  | .openBrace => some ⟨.statement, .list .block [] :: stack, fault⟩
  | .closeBrace => closeList? stack fault
  | .semicolon =>
    let (mode, stack) := deliver [⟨some line, .nop⟩] stack
    some ⟨mode, stack, fault⟩
  | _ => expressionStep .statement (.start fault) stack token

/-- Reads one token. There is no answer if no program goes on like this. -/
def ParserState.step (state : ParserState) (token : Token) : Option ParserState :=
  let stack := state.stack
  let fault := state.fault
  match state.mode, token.lexeme with
  | .statement, _ => statementStep stack fault token
  | .clauses head, .keyword .elseIf =>
    some ⟨.parenthesis (.elseIfCond head token.line), stack, fault⟩
  | .clauses head, .keyword .otherwise =>
    some ⟨.statement, .elseBody head token.line :: stack, fault⟩
  | .clauses head, _ => statementStep (deliverAll [head.finish none] stack) fault token
  | .parenthesis context, .openParen => some ⟨.expression context (.start fault), stack, fault⟩
  | .expression context inner, _ => expressionStep context inner stack token
  | .returned line, .semicolon =>
    let (mode, stack) := deliver [⟨some line, .ret none⟩] stack
    some ⟨mode, stack, fault⟩
  | .returned line, _ => expressionStep (.ret line) (.start fault) stack token
  | .functionName line, .identifier name => some ⟨.functionOpen line (lowerCase name), stack, fault⟩
  | .functionOpen line name, .openParen => some ⟨.parameter ⟨line, name, []⟩, stack, fault⟩
  | .parameter head, .variable name => some ⟨.parameterEnd head token.line name, stack, fault⟩
  | .parameter head, .closeParen => some ⟨.functionBrace head, stack, fault⟩
  | .parameterEnd head line name, .equals =>
    some ⟨.expression (.default head line name) (.start fault), stack, fault⟩
  | .parameterEnd head line name, .comma =>
    some ⟨.parameter (head.addParam line name none), stack, fault⟩
  | .parameterEnd head line name, .closeParen =>
    some ⟨.functionBrace (head.addParam line name none), stack, fault⟩
  | .functionBrace head, .openBrace => some ⟨.statement, .list (.function head) [] :: stack, fault⟩
  | .foreachFirst line expr, .variable first => some ⟨.foreachSecond line expr first, stack, fault⟩
  | .foreachSecond line expr first, .arrow => some ⟨.foreachValue line expr first, stack, fault⟩
  | .foreachSecond line expr first, .closeParen =>
    some ⟨.statement, .foreachBody ⟨line, expr, none, first⟩ :: stack, fault⟩
  | .foreachValue line expr keyVar, .variable valueVar =>
    some ⟨.foreachClose ⟨line, expr, some keyVar, valueVar⟩, stack, fault⟩
  | .foreachClose head, .closeParen => some ⟨.statement, .foreachBody head :: stack, fault⟩
  | _, _ => none

/-- The statements of a program that ends here. -/
def ParserState.finish? (state : ParserState) : Option (List Node) :=
  let stack :=
    match state.mode with
    | .clauses head => deliverAll [head.finish none] state.stack
    | .statement => state.stack
    | _ => []
  match stack with
  | [.list .program done] => some done.reverse
  | _ => none

/-- The error that a token causes. -/
def Token.unexpected (token : Token) : ParseError :=
  let cause :=
    match token.lexeme with
    | .stray c => ParseCause.unexpectedCharacter c
    | _ => .unexpectedToken token.text
  ⟨cause, some token.line, some token.column⟩

/-- Reads tokens to the end of a text. The end of a text is reported at the start of its last
    token. -/
def readTokens (state : ParserState) (last : Option Token) :
    List Token → Except SourceError (List Node)
  | [] =>
    match state.finish? with
    | some nodes =>
      match state.fault with
      | some fault => .error fault
      | none => .ok nodes
    | none =>
      .error (.parse ⟨.unexpectedEnd, last.map (fun token => token.line), last.map Token.column⟩)
  | token :: rest =>
    match state.step token with
    | some next => readTokens next (some token) rest
    | none => .error (.parse token.unexpected)

/-! ## Appended elements -/

mutual

/-- The line of the first element written `[]` that is read; the target of an assignment is not. -/
def Node.appendRead? (asTarget : Bool) : Node → Option (Option Int)
  | ⟨_, .echo exprs⟩ => appendReadList? exprs
  | ⟨_, .nop⟩ => none
  | ⟨_, .ret expr⟩ => appendReadOption? expr
  | ⟨_, .elseIf cond body⟩ => (cond.appendRead? false).or (appendReadList? body)
  | ⟨_, .otherwise body⟩ => appendReadList? body
  | ⟨_, .conditional cond body elseIfs otherwise⟩ =>
    (cond.appendRead? false).or <| (appendReadList? body).or <| (appendReadElseIfs? elseIfs).or <|
      match otherwise with
      | some ⟨_, body⟩ => appendReadList? body
      | none => none
  | ⟨_, .foreach expr _ body _⟩ => (expr.appendRead? false).or (appendReadList? body)
  | ⟨_, .param _ default⟩ => appendReadOption? default
  | ⟨_, .functionDecl _ params body⟩ => (appendReadParams? params).or (appendReadList? body)
  | ⟨_, .require path _ _⟩ => path.appendRead? false
  | ⟨_, .arrayItem value key⟩ => (value.appendRead? false).or (appendReadOption? key)
  | ⟨_, .arrayLiteral items⟩ => appendReadItems? items
  | ⟨_, .binary _ left right⟩ => (left.appendRead? false).or (right.appendRead? false)
  | ⟨_, .unary _ operand⟩ => operand.appendRead? false
  | ⟨line, .index base none⟩ => if asTarget then base.appendRead? true else some line
  | ⟨_, .index base (some dim)⟩ => (base.appendRead? asTarget).or (dim.appendRead? false)
  | ⟨_, .assign target expr⟩ => (target.appendRead? true).or (expr.appendRead? false)
  | ⟨_, .compoundAssign _ target expr⟩ => (target.appendRead? false).or (expr.appendRead? false)
  | ⟨_, .arg value⟩ => value.appendRead? false
  | ⟨_, .call _ args⟩ => appendReadList? args
  | ⟨_, .str _⟩ | ⟨_, .int _⟩ | ⟨_, .float _⟩ | ⟨_, .variable _⟩ | ⟨_, .constant _⟩ | ⟨_, .bare⟩ =>
    none

/-- The same for a row of nodes. -/
def appendReadList? : List Node → Option (Option Int)
  | [] => none
  | node :: rest => (node.appendRead? false).or (appendReadList? rest)

/-- The same for a node that may be missing. -/
def appendReadOption? : Option Node → Option (Option Int)
  | none => none
  | some node => node.appendRead? false

/-- The same for the further conditions of an `if`. -/
def appendReadElseIfs? : List (ElseIf Node) → Option (Option Int)
  | [] => none
  | ⟨_, cond, body⟩ :: rest =>
    (cond.appendRead? false).or <| (appendReadList? body).or (appendReadElseIfs? rest)

/-- The same for parameters. -/
def appendReadParams? : List (Param Node) → Option (Option Int)
  | [] => none
  | ⟨_, _, default⟩ :: rest => (appendReadOption? default).or (appendReadParams? rest)

/-- The same for array elements. -/
def appendReadItems? : List (ArrayItem Node) → Option (Option Int)
  | [] => none
  | ⟨_, value, key⟩ :: rest =>
    (value.appendRead? false).or <| (appendReadOption? key).or (appendReadItems? rest)

end

/-- Refuses statements that read an element written `[]`. -/
def rejectAppendReads (nodes : List Node) : Except SourceError (List Node) :=
  match appendReadList? nodes with
  | some line => .error (.parse ⟨.appendRead, line, none⟩)
  | none => .ok nodes

/-- The statements of a source text. -/
def parse (source : String) : Except SourceError (List Node) :=
  readTokens .start none (tokens (expandTags source.toList)) >>= rejectAppendReads

end WebScript
