import WebScript.Source.Program

/-!
# Printing programs

The reader of this library has an inverse. `Node.lexemes` prints an expression with parentheses
exactly where its level is below the one that its place asks for; `statementsLexemes` prints
statements with their bodies in braces; and a text lays such tokens out (`LaidOut`) if it spells
them one after another with blanks between them.

`Node.IsExpression` and `Node.IsStatement` describe the trees that can be written down without
float literals, and `Node.eraseLines` forgets where the nodes of a tree stand.
-/

namespace WebScript

/-! ## Levels -/

/-- How operators of one level group. -/
inductive Grouping where
  | left
  | right
  | never
  deriving DecidableEq, Repr

/-- The level of assignments and of file inclusion. -/
def assignmentLevel : Nat := 4

/-- The level of operators before an operand. -/
def unaryLevel : Nat := 17

/-- The level of elements and calls, and of everything that no operator holds together. -/
def postfixLevel : Nat := 19

/-- The level of a binary operator: the higher, the tighter. -/
def BinaryOperator.level : BinaryOperator → Nat
  | .logicalOr => 1
  | .logicalXor => 2
  | .logicalAnd => 3
  | .coalesce => 5
  | .booleanOr => 6
  | .booleanAnd => 7
  | .bitwiseOr => 8
  | .bitwiseXor => 9
  | .bitwiseAnd => 10
  | .equal | .notEqual | .identical | .notIdentical | .spaceship => 11
  | .smaller | .smallerOrEqual | .greater | .greaterOrEqual => 12
  | .concat => 13
  | .shiftLeft | .shiftRight => 14
  | .plus | .minus => 15
  | .mul | .div | .mod => 16
  | .pow => 18

/-- How a binary operator groups. -/
def BinaryOperator.grouping : BinaryOperator → Grouping
  | .coalesce | .pow => .right
  | .equal | .notEqual | .identical | .notIdentical | .spaceship => .never
  | .smaller | .smallerOrEqual | .greater | .greaterOrEqual => .never
  | _ => .left

/-- The level that a binary operator asks of its left operand. -/
def BinaryOperator.leftLevel (op : BinaryOperator) : Nat :=
  if op.grouping = .left then op.level else op.level + 1

/-- The level that a binary operator asks of its right operand. A power takes a unary operator
    there, although that binds less tightly. -/
def BinaryOperator.rightLevel (op : BinaryOperator) : Nat :=
  if op = .pow then unaryLevel
  else if op.grouping = .right then op.level
  else op.level + 1

/-! ## Tokens of expressions -/

/-- The operators that assignments can be joined with. -/
def compoundOperators : List BinaryOperator :=
  [.pow, .coalesce, .shiftLeft, .shiftRight, .minus, .plus, .mul, .div, .concat, .mod, .bitwiseAnd,
   .bitwiseOr, .bitwiseXor]

/-- The token of a binary operator. -/
def BinaryOperator.lexeme : BinaryOperator → Lexeme
  | .plus => .sign false
  | .minus => .sign true
  | op => .binary op

/-- The token of a unary operator. -/
def UnaryOperator.lexeme : UnaryOperator → Lexeme
  | .plus => .sign false
  | .minus => .sign true
  | op => .unary op

/-- Tokens in parentheses. -/
def inParens (lexemes : List Lexeme) : List Lexeme := .openParen :: (lexemes ++ [.closeParen])

/-- Tokens in braces. -/
def inBraces (lexemes : List Lexeme) : List Lexeme := .openBrace :: (lexemes ++ [.closeBrace])

/-- Tokens of a construct of some level, at a place that asks for another: in parentheses if the
    construct binds too loosely. -/
def atLevel (required level : Nat) (lexemes : List Lexeme) : List Lexeme :=
  if level < required then inParens lexemes else lexemes

/-- Rows of tokens with commas between them. -/
def commaSeparated (rows : List (List Lexeme)) : List Lexeme := [Lexeme.comma].intercalate rows

theorem commaSeparated_cons_cons (first second : List Lexeme) (rest : List (List Lexeme)) :
    commaSeparated (first :: second :: rest) =
      first ++ .comma :: commaSeparated (second :: rest) := by
  simp [commaSeparated, List.intercalate]

mutual

/-- The tokens of an expression at a place that asks for a level. -/
def Node.lexemes (required : Nat) : Node → List Lexeme
  | ⟨_, .variable name⟩ => [.variable name]
  | ⟨_, .constant name⟩ => [.identifier name]
  | ⟨_, .int n⟩ => [.int (Nat.toDigits 10 n.toNat)]
  | ⟨_, .str text⟩ => [.single (text.toList.flatMap escapeSingle)]
  | ⟨_, .arrayLiteral items⟩ =>
    .openBracket :: (commaSeparated (itemLexemes items) ++ [.closeBracket])
  | ⟨_, .index base none⟩ => base.lexemes postfixLevel ++ [.openBracket, .closeBracket]
  | ⟨_, .index base (some dim)⟩ =>
    base.lexemes postfixLevel ++ .openBracket :: (dim.lexemes 1 ++ [.closeBracket])
  | ⟨_, .call name args⟩ => .identifier name :: inParens (commaSeparated (argLexemes args))
  | ⟨_, .arg value⟩ => value.lexemes 1
  | ⟨_, .binary op left right⟩ =>
    atLevel required op.level
      (left.lexemes op.leftLevel ++ op.lexeme :: right.lexemes op.rightLevel)
  | ⟨_, .unary op operand⟩ =>
    atLevel required unaryLevel (op.lexeme :: operand.lexemes unaryLevel)
  | ⟨_, .assign target expr⟩ =>
    atLevel required assignmentLevel
      (target.lexemes postfixLevel ++ .equals :: expr.lexemes assignmentLevel)
  | ⟨_, .compoundAssign op target expr⟩ =>
    atLevel required assignmentLevel
      (target.lexemes postfixLevel ++ .compound op :: expr.lexemes assignmentLevel)
  | ⟨_, .require path once fatal⟩ =>
    atLevel required assignmentLevel (.require once fatal :: path.lexemes assignmentLevel)
  | _ => []

/-- The tokens of each argument of a call. -/
def argLexemes : List Node → List (List Lexeme)
  | [] => []
  | arg :: rest => arg.lexemes 1 :: argLexemes rest

/-- The tokens of each element of an array. -/
def itemLexemes : List (ArrayItem Node) → List (List Lexeme)
  | [] => []
  | ⟨_, value, none⟩ :: rest => value.lexemes 1 :: itemLexemes rest
  | ⟨_, value, some key⟩ :: rest =>
    (key.lexemes 1 ++ .arrow :: value.lexemes 1) :: itemLexemes rest

end

/-- The tokens of an element of an array. -/
def ArrayItem.lexemes (item : ArrayItem Node) : List Lexeme :=
  match item.key with
  | none => item.value.lexemes 1
  | some key => key.lexemes 1 ++ .arrow :: item.value.lexemes 1

theorem itemLexemes_eq_map (items : List (ArrayItem Node)) :
    itemLexemes items = items.map ArrayItem.lexemes := by
  induction items with
  | nil => rfl
  | cons item rest ih =>
    obtain ⟨line, value, key⟩ := item
    cases key <;> rw [itemLexemes, ih, List.map_cons] <;> rfl

theorem argLexemes_eq_map (args : List Node) : argLexemes args = args.map (Node.lexemes 1) := by
  induction args with
  | nil => rfl
  | cons arg rest ih => rw [argLexemes, ih, List.map_cons]

/-! ## Tokens of statements -/

/-- The tokens of a parameter. -/
def Param.lexemes (param : Param Node) : List Lexeme :=
  match param.default with
  | none => [.variable param.name]
  | some default => .variable param.name :: .equals :: default.lexemes 1

/-- The tokens of the variables that a loop binds. -/
def loopVariables (valueVar : String) : Option String → List Lexeme
  | none => [.variable valueVar]
  | some keyVar => [.variable keyVar, .arrow, .variable valueVar]

mutual

/-- The tokens of a statement. -/
def Node.statementLexemes : Node → List Lexeme
  | ⟨_, .echo exprs⟩ =>
    .keyword .echo :: (commaSeparated (exprs.map (Node.lexemes 1)) ++ [.semicolon])
  | ⟨_, .nop⟩ => [.semicolon]
  | ⟨_, .ret none⟩ => [.keyword .ret, .semicolon]
  | ⟨_, .ret (some expr)⟩ => .keyword .ret :: (expr.lexemes 1 ++ [.semicolon])
  | ⟨_, .conditional cond body elseIfs otherwise⟩ =>
    .keyword .conditional :: (inParens (cond.lexemes 1) ++ inBraces (statementsLexemes body) ++
      elseIfsLexemes elseIfs ++ elseLexemes otherwise)
  | ⟨_, .foreach expr valueVar body keyVar⟩ =>
    .keyword .foreach ::
      (inParens (expr.lexemes 1 ++ .keyword .as :: loopVariables valueVar keyVar) ++
        inBraces (statementsLexemes body))
  | ⟨_, .functionDecl name params body⟩ =>
    .keyword .function :: .identifier name ::
      (inParens (commaSeparated (params.map Param.lexemes)) ++ inBraces (statementsLexemes body))
  | expr => expr.lexemes 1 ++ [.semicolon]

/-- The tokens of statements. -/
def statementsLexemes : List Node → List Lexeme
  | [] => []
  | node :: rest => node.statementLexemes ++ statementsLexemes rest

/-- The tokens of the further conditions of an `if`. -/
def elseIfsLexemes : List (ElseIf Node) → List Lexeme
  | [] => []
  | ⟨_, cond, body⟩ :: rest =>
    .keyword .elseIf :: (inParens (cond.lexemes 1) ++ inBraces (statementsLexemes body) ++
      elseIfsLexemes rest)

/-- The tokens of the last part of an `if`. -/
def elseLexemes : Option (Else Node) → List Lexeme
  | none => []
  | some ⟨_, body⟩ => .keyword .otherwise :: inBraces (statementsLexemes body)

end

/-! ## Spelling -/

/-- How the words that introduce a construct are written. -/
def Keyword.spelling : Keyword → String
  | .echo => "echo"
  | .conditional => "if"
  | .elseIf => "elseif"
  | .otherwise => "else"
  | .foreach => "foreach"
  | .as => "as"
  | .function => "function"
  | .ret => "return"
  | .array => "array"

/-- How a token is written. -/
def Lexeme.spelling : Lexeme → List Char
  | .variable name => '$' :: name.toList
  | .identifier name => name.toList
  | .int text | .float text => text
  | .single raw => '\'' :: (raw ++ ['\''])
  | .double raw => '"' :: (raw ++ ['"'])
  | .keyword word => word.spelling.toList
  | .require once fatal => (requireKeyword once fatal).toList
  | .binary op => op.symbol.toList
  | .unary op => op.symbol.toList
  | .sign minus => if minus then ['-'] else ['+']
  | .compound op => op.symbol.toList ++ ['=']
  | .equals => ['=']
  | .arrow => ['=', '>']
  | .comma => [',']
  | .semicolon => [';']
  | .openParen => ['(']
  | .closeParen => [')']
  | .openBracket => ['[']
  | .closeBracket => [']']
  | .openBrace => ['{']
  | .closeBrace => ['}']
  | .stray c => [c]

/-- Texts that consist of the tokens given, in their order, with blanks between them. -/
inductive LaidOut : List Lexeme → List Char → Prop where
  | nil : LaidOut [] []
  | last (lexeme : Lexeme) : LaidOut [lexeme] lexeme.spelling
  | cons (lexeme : Lexeme) {rest : List Lexeme} {gap text : List Char} (hgap : gap ≠ [])
      (hblank : ∀ c ∈ gap, isTokenBlank c) (hrest : LaidOut rest text) :
      LaidOut (lexeme :: rest) (lexeme.spelling ++ (gap ++ text))

/-- The text with one space between tokens. -/
def spaced : List Lexeme → List Char
  | [] => []
  | [lexeme] => lexeme.spelling
  | lexeme :: next :: rest => lexeme.spelling ++ ([' '] ++ spaced (next :: rest))

theorem laidOut_spaced (lexemes : List Lexeme) : LaidOut lexemes (spaced lexemes) := by
  induction lexemes with
  | nil => exact .nil
  | cons lexeme rest ih =>
    cases rest with
    | nil => exact .last lexeme
    | cons next more =>
      exact .cons lexeme (List.cons_ne_nil ' ' []) (List.forall_mem_singleton.mpr rfl) ih

/-! ## Trees that can be written down -/

/-- Texts that are a name: a letter or an underscore, and then letters, digits and underscores. -/
def IsName (name : String) : Prop :=
  ∃ first rest, name.toList = first :: rest ∧ isNameStart first ∧ ∀ c ∈ rest, isNamePart c

/-- The words that are no names of constants and functions. -/
def keywords : List String :=
  ["echo", "if", "elseif", "else", "foreach", "as", "function", "return", "array", "require",
   "require_once", "include", "include_once", "and", "or", "xor"]

/-- Names that constants and functions can have. -/
def IsIdentifier (name : String) : Prop := IsName name ∧ lowerCase name ∉ keywords

/-- What an expression stands for. -/
inductive Place where
  | value
  /-- What an assignment assigns to. -/
  | target
  /-- What a call passes on. -/
  | argument
  deriving DecidableEq, Repr

/-- Expressions without float literals. Assignments assign to variables and their elements, and only
    there an element may be written without an index. -/
inductive Node.IsExpression : Place → Node → Prop where
  | variable {place : Place} {line : Option Int} {name : String} (hplace : place ≠ .argument)
      (hname : IsName name) : IsExpression place ⟨line, .variable name⟩
  | constant {line : Option Int} {name : String} (hname : IsIdentifier name) :
      IsExpression .value ⟨line, .constant name⟩
  | int {line : Option Int} {n : Int} (hmin : 0 ≤ n) (hmax : n ≤ intMax) :
      IsExpression .value ⟨line, .int n⟩
  | str {line : Option Int} (text : String) : IsExpression .value ⟨line, .str text⟩
  | arrayLiteral {line : Option Int} {items : List (ArrayItem Node)}
      (hvalues : ∀ item ∈ items, IsExpression .value item.value)
      (hkeys : ∀ item ∈ items, ∀ key ∈ item.key, IsExpression .value key) :
      IsExpression .value ⟨line, .arrayLiteral items⟩
  | binary {line : Option Int} (op : BinaryOperator) {left right : Node}
      (hleft : IsExpression .value left) (hright : IsExpression .value right) :
      IsExpression .value ⟨line, .binary op left right⟩
  | unary {line : Option Int} (op : UnaryOperator) {operand : Node}
      (hoperand : IsExpression .value operand) : IsExpression .value ⟨line, .unary op operand⟩
  | index {place : Place} {line : Option Int} {base dim : Node} (hplace : place ≠ .argument)
      (hbase : IsExpression place base) (hdim : IsExpression .value dim) :
      IsExpression place ⟨line, .index base (some dim)⟩
  | append {line : Option Int} {base : Node} (hbase : IsExpression .target base) :
      IsExpression .target ⟨line, .index base none⟩
  | assign {line : Option Int} {target expr : Node} (htarget : IsExpression .target target)
      (hexpr : IsExpression .value expr) : IsExpression .value ⟨line, .assign target expr⟩
  | compoundAssign {line : Option Int} {op : BinaryOperator} {target expr : Node}
      (hop : op ∈ compoundOperators) (hroot : target.isTarget)
      (htarget : IsExpression .value target) (hexpr : IsExpression .value expr) :
      IsExpression .value ⟨line, .compoundAssign op target expr⟩
  | require {line : Option Int} {path : Node} (once fatal : Bool)
      (hpath : IsExpression .value path) : IsExpression .value ⟨line, .require path once fatal⟩
  | call {line : Option Int} {name : String} {args : List Node} (hname : IsIdentifier name)
      (hcase : lowerCase name = name) (hargs : ∀ arg ∈ args, IsExpression .argument arg) :
      IsExpression .value ⟨line, .call name args⟩
  | arg {line : Option Int} {value : Node} (hvalue : IsExpression .value value) :
      IsExpression .argument ⟨line, .arg value⟩

/-- Statements without float literals. -/
inductive Node.IsStatement : Node → Prop where
  | expression {node : Node} (hnode : node.IsExpression .value) : IsStatement node
  | echo {line : Option Int} {exprs : List Node} (hne : exprs ≠ [])
      (hexprs : ∀ expr ∈ exprs, expr.IsExpression .value) : IsStatement ⟨line, .echo exprs⟩
  | nop {line : Option Int} : IsStatement ⟨line, .nop⟩
  | ret {line : Option Int} {expr : Option Node}
      (hexpr : ∀ node ∈ expr, node.IsExpression .value) : IsStatement ⟨line, .ret expr⟩
  | conditional {line : Option Int} {cond : Node} {body : List Node}
      {elseIfs : List (ElseIf Node)} {otherwise : Option (Else Node)}
      (hcond : cond.IsExpression .value) (hbody : ∀ node ∈ body, IsStatement node)
      (hconds : ∀ clause ∈ elseIfs, clause.cond.IsExpression .value)
      (hbodies : ∀ clause ∈ elseIfs, ∀ node ∈ clause.body, IsStatement node)
      (hlast : ∀ clause ∈ otherwise, ∀ node ∈ clause.body, IsStatement node) :
      IsStatement ⟨line, .conditional cond body elseIfs otherwise⟩
  | foreach {line : Option Int} {expr : Node} {valueVar : String} {body : List Node}
      {keyVar : Option String} (hexpr : expr.IsExpression .value) (hvalue : IsName valueVar)
      (hkey : ∀ name ∈ keyVar, IsName name) (hbody : ∀ node ∈ body, IsStatement node) :
      IsStatement ⟨line, .foreach expr valueVar body keyVar⟩
  | functionDecl {line : Option Int} {name : String} {params : List (Param Node)}
      {body : List Node} (hname : IsIdentifier name) (hcase : lowerCase name = name)
      (hparams : ∀ param ∈ params, IsName param.name)
      (hdefaults : ∀ param ∈ params, ∀ node ∈ param.default, node.IsExpression .value)
      (hbody : ∀ node ∈ body, IsStatement node) :
      IsStatement ⟨line, .functionDecl name params body⟩

/-! ## Lines -/

mutual

/-- A tree without its lines. -/
def Node.eraseLines : Node → Node
  | ⟨_, form⟩ => ⟨none, form.eraseLines⟩

/-- The parts of a node without their lines. -/
def Form.eraseLines : Form Node → Form Node
  | .echo exprs => .echo (eraseLinesList exprs)
  | .nop => .nop
  | .ret expr => .ret (eraseLinesOption expr)
  | .elseIf cond body => .elseIf cond.eraseLines (eraseLinesList body)
  | .otherwise body => .otherwise (eraseLinesList body)
  | .conditional cond body elseIfs otherwise =>
    .conditional cond.eraseLines (eraseLinesList body) (eraseLinesElseIfs elseIfs)
      (eraseLinesElse otherwise)
  | .foreach expr valueVar body keyVar =>
    .foreach expr.eraseLines valueVar (eraseLinesList body) keyVar
  | .param name default => .param name (eraseLinesOption default)
  | .functionDecl name params body =>
    .functionDecl name (eraseLinesParams params) (eraseLinesList body)
  | .require path once fatal => .require path.eraseLines once fatal
  | .str value => .str value
  | .int value => .int value
  | .float value => .float value
  | .arrayItem value key => .arrayItem value.eraseLines (eraseLinesOption key)
  | .arrayLiteral items => .arrayLiteral (eraseLinesItems items)
  | .binary op left right => .binary op left.eraseLines right.eraseLines
  | .unary op operand => .unary op operand.eraseLines
  | .variable name => .variable name
  | .constant name => .constant name
  | .index base dim => .index base.eraseLines (eraseLinesOption dim)
  | .assign target expr => .assign target.eraseLines expr.eraseLines
  | .compoundAssign op target expr => .compoundAssign op target.eraseLines expr.eraseLines
  | .arg value => .arg value.eraseLines
  | .call name args => .call name (eraseLinesList args)
  | .bare => .bare

/-- Nodes without their lines. -/
def eraseLinesList : List Node → List Node
  | [] => []
  | node :: rest => node.eraseLines :: eraseLinesList rest

/-- A node that may be missing, without its lines. -/
def eraseLinesOption : Option Node → Option Node
  | none => none
  | some node => some node.eraseLines

/-- The further conditions of an `if` without their lines. -/
def eraseLinesElseIfs : List (ElseIf Node) → List (ElseIf Node)
  | [] => []
  | ⟨_, cond, body⟩ :: rest =>
    ⟨none, cond.eraseLines, eraseLinesList body⟩ :: eraseLinesElseIfs rest

/-- The last part of an `if` without its lines. -/
def eraseLinesElse : Option (Else Node) → Option (Else Node)
  | none => none
  | some ⟨_, body⟩ => some ⟨none, eraseLinesList body⟩

/-- Parameters without their lines. -/
def eraseLinesParams : List (Param Node) → List (Param Node)
  | [] => []
  | ⟨_, name, default⟩ :: rest => ⟨none, name, eraseLinesOption default⟩ :: eraseLinesParams rest

/-- Array elements without their lines. -/
def eraseLinesItems : List (ArrayItem Node) → List (ArrayItem Node)
  | [] => []
  | ⟨_, value, key⟩ :: rest =>
    ⟨none, value.eraseLines, eraseLinesOption key⟩ :: eraseLinesItems rest

end

attribute [simp] Node.eraseLines Form.eraseLines

theorem eraseLinesList_eq_map (nodes : List Node) :
    eraseLinesList nodes = nodes.map Node.eraseLines := by
  induction nodes with
  | nil => rfl
  | cons node rest ih => rw [eraseLinesList, ih, List.map_cons]

theorem eraseLinesOption_eq_map (node : Option Node) :
    eraseLinesOption node = node.map Node.eraseLines := by
  cases node <;> rfl

/-- An array element without its lines. -/
def ArrayItem.eraseLines (item : ArrayItem Node) : ArrayItem Node :=
  ⟨none, item.value.eraseLines, item.key.map Node.eraseLines⟩

theorem eraseLinesItems_eq_map (items : List (ArrayItem Node)) :
    eraseLinesItems items = items.map ArrayItem.eraseLines := by
  induction items with
  | nil => rfl
  | cons item rest ih =>
    rw [eraseLinesItems, ih, List.map_cons, ArrayItem.eraseLines, eraseLinesOption_eq_map]

/-- A further condition of an `if` without its lines. -/
def ElseIf.eraseLines (clause : ElseIf Node) : ElseIf Node :=
  ⟨none, clause.cond.eraseLines, clause.body.map Node.eraseLines⟩

theorem eraseLinesElseIfs_eq_map (elseIfs : List (ElseIf Node)) :
    eraseLinesElseIfs elseIfs = elseIfs.map ElseIf.eraseLines := by
  induction elseIfs with
  | nil => rfl
  | cons clause rest ih =>
    rw [eraseLinesElseIfs, ih, List.map_cons, ElseIf.eraseLines, eraseLinesList_eq_map]

/-- A parameter without its lines. -/
def Param.eraseLines (param : Param Node) : Param Node :=
  ⟨none, param.name, param.default.map Node.eraseLines⟩

theorem eraseLinesParams_eq_map (params : List (Param Node)) :
    eraseLinesParams params = params.map Param.eraseLines := by
  induction params with
  | nil => rfl
  | cons param rest ih =>
    rw [eraseLinesParams, ih, List.map_cons, Param.eraseLines, eraseLinesOption_eq_map]

end WebScript
