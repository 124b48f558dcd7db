import WebScript.Proofs.ParsedShape
import WebScript.Proofs.ReadingPrograms

/-!
# Parsing undoes printing

`parse_layout` is the main result: however the tokens of a program are laid out after an open tag,
parsing gives the program back, up to the lines of its nodes. It joins three facts. The text scans
as the printed tokens, which is where the tokens have to be printable; the tokens read back as the
statements; and no element without an index is read.
-/

namespace WebScript

/-! ## Printed tokens are printable -/

/-- All tokens of a row are printable. -/
def AllPrintable (lexemes : List Lexeme) : Prop := ∀ lexeme ∈ lexemes, lexeme.Printable

@[simp] theorem allPrintable_nil : AllPrintable [] := nofun

@[simp] theorem allPrintable_cons {lexeme : Lexeme} {rest : List Lexeme} :
    AllPrintable (lexeme :: rest) ↔ lexeme.Printable ∧ AllPrintable rest :=
  List.forall_mem_cons

@[simp] theorem allPrintable_append {first second : List Lexeme} :
    AllPrintable (first ++ second) ↔ AllPrintable first ∧ AllPrintable second :=
  List.forall_mem_append

theorem AllPrintable.inParens {lexemes : List Lexeme} (h : AllPrintable lexemes) :
    AllPrintable (inParens lexemes) := by
  simpa [WebScript.inParens, Lexeme.Printable] using h

theorem AllPrintable.inBraces {lexemes : List Lexeme} (h : AllPrintable lexemes) :
    AllPrintable (inBraces lexemes) := by
  simpa [WebScript.inBraces, Lexeme.Printable] using h

/-- Parentheses around a row of printable tokens are printable. -/
theorem AllPrintable.atLevel {required level : Nat} {lexemes : List Lexeme}
    (h : AllPrintable lexemes) : AllPrintable (atLevel required level lexemes) := by
  unfold WebScript.atLevel
  split
  · exact h.inParens
  · exact h

/-- Rows of printable tokens with commas between them are printable. -/
theorem allPrintable_commaSeparated {α : Type} {row : α → List Lexeme} {items : List α}
    (h : ∀ item ∈ items, AllPrintable (row item)) :
    AllPrintable (commaSeparated (items.map row)) := by
  induction items with
  | nil => exact nofun
  | cons item rest ih =>
    have hitem := h item List.mem_cons_self
    have hrest := ih fun other hother => h other (List.mem_cons_of_mem item hother)
    cases rest with
    | nil => simpa [commaSeparated] using hitem
    | cons other more =>
      rw [List.map_cons, List.map_cons, commaSeparated_cons_cons]
      simpa [Lexeme.Printable] using ⟨hitem, hrest⟩

theorem BinaryOperator.printable_lexeme (op : BinaryOperator) : op.lexeme.Printable := by
  cases op <;> simp [BinaryOperator.lexeme, Lexeme.Printable]

theorem UnaryOperator.printable_lexeme (op : UnaryOperator) : op.lexeme.Printable := by
  cases op <;> simp [UnaryOperator.lexeme, Lexeme.Printable]

/-- All tokens of an expression that can be written down are printable, at any level. -/
theorem Node.IsExpression.allPrintable {place : Place} {node : Node} (h : node.IsExpression place)
    (required : Nat) : AllPrintable (node.lexemes required) := by
  induction h generalizing required with
  | «variable» hplace hname => simpa [Node.lexemes, Lexeme.Printable] using hname
  | constant hname => simpa [Node.lexemes, Lexeme.Printable] using hname
  | @int line n hmin hmax =>
    have hdigits : ∀ c ∈ Nat.toDigits 10 n.toNat, c.isDigit := fun c hc =>
      Nat.isDigit_of_mem_toDigits (by decide) (by decide) hc
    simpa [Node.lexemes, Lexeme.Printable] using hdigits
  | str text => exact allPrintable_cons.mpr ⟨⟨text.toList, rfl⟩, allPrintable_nil⟩
  | @arrayLiteral line items hvalues hkeys ihvalues ihkeys =>
    have hitems : AllPrintable (commaSeparated (items.map ArrayItem.lexemes)) := by
      refine allPrintable_commaSeparated fun item hitem => ?_
      obtain ⟨line, value, key⟩ := item
      cases key with
      | none => exact ihvalues _ hitem 1
      | some key =>
        simpa [ArrayItem.lexemes, Lexeme.Printable] using
          ⟨ihkeys _ hitem key rfl 1, ihvalues _ hitem 1⟩
    simpa [Node.lexemes, itemLexemes_eq_map, Lexeme.Printable] using hitems
  | binary op hleft hright ihleft ihright =>
    refine AllPrintable.atLevel ?_
    simpa using ⟨ihleft op.leftLevel, op.printable_lexeme, ihright op.rightLevel⟩
  | unary op hoperand ihoperand =>
    refine AllPrintable.atLevel ?_
    simpa using ⟨op.printable_lexeme, ihoperand unaryLevel⟩
  | index hplace hbase hdim ihbase ihdim =>
    simpa [Node.lexemes, Lexeme.Printable] using ⟨ihbase postfixLevel, ihdim 1⟩
  | append hbase ihbase => simpa [Node.lexemes, Lexeme.Printable] using ihbase postfixLevel
  | assign htarget hexpr ihtarget ihexpr =>
    refine AllPrintable.atLevel ?_
    simpa [Lexeme.Printable] using ⟨ihtarget postfixLevel, ihexpr assignmentLevel⟩
  | compoundAssign hop hroot htarget hexpr ihtarget ihexpr =>
    refine AllPrintable.atLevel ?_
    simpa [Lexeme.Printable] using ⟨ihtarget postfixLevel, hop, ihexpr assignmentLevel⟩
  | require once fatal hpath ihpath =>
    refine AllPrintable.atLevel ?_
    simpa [Lexeme.Printable] using ihpath assignmentLevel
  | call hname hcase hargs ihargs =>
    have hrows := allPrintable_commaSeparated fun arg harg => ihargs arg harg 1
    simpa [Node.lexemes, argLexemes_eq_map, Lexeme.Printable] using ⟨hname, hrows.inParens⟩
  | arg hvalue ihvalue => exact ihvalue 1

/-- All tokens of a parameter with a proper name and default are printable. -/
theorem Param.allPrintable {param : Param Node} (hname : IsName param.name)
    (hdefault : ∀ node ∈ param.default, node.IsExpression .value) :
    AllPrintable param.lexemes := by
  obtain ⟨line, name, default⟩ := param
  cases default with
  | none => simpa [Param.lexemes, Lexeme.Printable] using hname
  | some node =>
    simpa [Param.lexemes, Lexeme.Printable] using ⟨hname, (hdefault node rfl).allPrintable 1⟩

theorem allPrintable_statements {nodes : List Node}
    (h : ∀ node ∈ nodes, AllPrintable node.statementLexemes) :
    AllPrintable (statementsLexemes nodes) := by
  induction nodes with
  | nil => exact nofun
  | cons node rest ih =>
    rw [statementsLexemes, allPrintable_append]
    exact ⟨h node List.mem_cons_self,
      ih fun other hother => h other (List.mem_cons_of_mem node hother)⟩

theorem allPrintable_elseIfs {elseIfs : List (ElseIf Node)}
    (hconds : ∀ clause ∈ elseIfs, clause.cond.IsExpression .value)
    (hbodies : ∀ clause ∈ elseIfs, ∀ node ∈ clause.body, AllPrintable node.statementLexemes) :
    AllPrintable (elseIfsLexemes elseIfs) := by
  induction elseIfs with
  | nil => exact nofun
  | cons clause rest ih =>
    have hcond := ((hconds clause List.mem_cons_self).allPrintable 1).inParens
    have hbody := (allPrintable_statements (hbodies clause List.mem_cons_self)).inBraces
    have hrest := ih (fun other hother => hconds other (List.mem_cons_of_mem clause hother))
      fun other hother => hbodies other (List.mem_cons_of_mem clause hother)
    simpa [elseIfsLexemes, Lexeme.Printable] using ⟨hcond, hbody, hrest⟩

/-- All tokens of a statement that can be written down are printable. -/
theorem Node.IsStatement.allPrintable {node : Node} (h : node.IsStatement) :
    AllPrintable node.statementLexemes := by
  induction h with
  | expression hnode =>
    rw [hnode.statementLexemes_eq]
    simpa [Lexeme.Printable] using hnode.allPrintable 1
  | echo hne hexprs =>
    have hrows := allPrintable_commaSeparated fun expr hexpr => (hexprs expr hexpr).allPrintable 1
    simpa [Node.statementLexemes, Lexeme.Printable] using hrows
  | nop => simp [Node.statementLexemes, Lexeme.Printable]
  | @ret line expr hexpr =>
    cases expr with
    | none => simp [Node.statementLexemes, Lexeme.Printable]
    | some node =>
      simpa [Node.statementLexemes, Lexeme.Printable] using (hexpr node rfl).allPrintable 1
  | @conditional line cond body elseIfs otherwise hcond hbody hconds hbodies hlast ihbody ihbodies
      ihlast =>
    have hif := (hcond.allPrintable 1).inParens
    have hthen := (allPrintable_statements ihbody).inBraces
    have helseIfs := allPrintable_elseIfs hconds ihbodies
    have helse : AllPrintable (elseLexemes otherwise) := by
      cases otherwise with
      | none => exact nofun
      | some clause =>
        have hbody := (allPrintable_statements (ihlast clause rfl)).inBraces
        simpa [elseLexemes, Lexeme.Printable] using hbody
    simpa [Node.statementLexemes, Lexeme.Printable] using ⟨hif, hthen, helseIfs, helse⟩
  | @foreach line expr valueVar body keyVar hexpr hvalue hkey hbody ihbody =>
    have hvariables : AllPrintable (loopVariables valueVar keyVar) := by
      cases keyVar with
      | none => simpa [loopVariables, Lexeme.Printable] using hvalue
      | some name => simpa [loopVariables, Lexeme.Printable] using ⟨hkey name rfl, hvalue⟩
    have hhead :
        AllPrintable (expr.lexemes 1 ++ .keyword .as :: loopVariables valueVar keyVar) := by
      simpa [Lexeme.Printable] using ⟨hexpr.allPrintable 1, hvariables⟩
    simpa [Node.statementLexemes, Lexeme.Printable] using
      ⟨hhead.inParens, (allPrintable_statements ihbody).inBraces⟩
  | functionDecl hname hcase hparams hdefaults hbody ihbody =>
    have hrows := allPrintable_commaSeparated fun param hparam =>
      Param.allPrintable (hparams param hparam) (hdefaults param hparam)
    simpa [Node.statementLexemes, Lexeme.Printable] using
      ⟨hname, hrows.inParens, (allPrintable_statements ihbody).inBraces⟩

/-! ## Elements without an index -/

theorem appendReadOption?_eq_none {found : Option Node}
    (h : ∀ node ∈ found, node.appendRead? false = none) : appendReadOption? found = none :=
  appendReadOption?_eq_none_iff.mpr fun node hnode => h node (Option.mem_toList.mp hnode)

theorem appendReadItems?_eq_none {items : List (ArrayItem Node)}
    (hvalues : ∀ item ∈ items, item.value.appendRead? false = none)
    (hkeys : ∀ item ∈ items, ∀ key ∈ item.key, key.appendRead? false = none) :
    appendReadItems? items = none := by
  refine appendReadItems?_eq_none_iff.mpr fun node hnode => ?_
  obtain ⟨item, hitem, hnode⟩ := List.mem_flatMap.mp hnode
  rcases List.mem_cons.mp hnode with rfl | hkey
  · exact hvalues item hitem
  · exact hkeys item hitem node (Option.mem_toList.mp hkey)

theorem appendReadElseIfs?_eq_none {elseIfs : List (ElseIf Node)}
    (hconds : ∀ clause ∈ elseIfs, clause.cond.appendRead? false = none)
    (hbodies : ∀ clause ∈ elseIfs, ∀ node ∈ clause.body, node.appendRead? false = none) :
    appendReadElseIfs? elseIfs = none := by
  refine appendReadElseIfs?_eq_none_iff.mpr fun node hnode => ?_
  obtain ⟨clause, hclause, hnode⟩ := List.mem_flatMap.mp hnode
  rcases List.mem_cons.mp hnode with rfl | hbody
  · exact hconds clause hclause
  · exact hbodies clause hclause node hbody

theorem appendReadParams?_eq_none {params : List (Param Node)}
    (h : ∀ param ∈ params, ∀ node ∈ param.default, node.appendRead? false = none) :
    appendReadParams? params = none := by
  refine appendReadParams?_eq_none_iff.mpr fun node hnode => ?_
  obtain ⟨param, hparam, hnode⟩ := List.mem_flatMap.mp hnode
  exact h param hparam node (Option.mem_toList.mp hnode)

/-- An expression that can be written down reads no element without an index: its grammar admits
    them as targets only. -/
theorem Node.IsExpression.appendRead?_eq_none {place : Place} {node : Node}
    (h : node.IsExpression place) : node.appendRead? (place = .target) = none := by
  induction h with
  | «variable» | constant | int | str => simp [Node.appendRead?]
  | arrayLiteral hvalues hkeys ihvalues ihkeys =>
    exact appendReadItems?_eq_none ihvalues ihkeys
  | binary op hleft hright ihleft ihright =>
    rw [Node.appendRead?]
    exact (congrArg (Option.or · _) ihleft).trans ihright
  | unary op hoperand ihoperand => exact ihoperand
  | index hplace hbase hdim ihbase ihdim =>
    rw [Node.appendRead?, ihbase]
    exact ihdim
  | append hbase ihbase => exact ihbase
  | assign htarget hexpr ihtarget ihexpr =>
    rw [Node.appendRead?]
    exact (congrArg (Option.or · _) ihtarget).trans ihexpr
  | compoundAssign hop hroot htarget hexpr ihtarget ihexpr =>
    rw [Node.appendRead?]
    exact (congrArg (Option.or · _) ihtarget).trans ihexpr
  | require once fatal hpath ihpath => exact ihpath
  | call hname hcase hargs ihargs => exact appendReadList?_eq_none_iff.mpr ihargs
  | arg hvalue ihvalue => exact ihvalue

/-- A statement that can be written down reads no element without an index. -/
theorem Node.IsStatement.appendRead?_eq_none {node : Node} (h : node.IsStatement) :
    node.appendRead? false = none := by
  induction h with
  | expression hnode => exact hnode.appendRead?_eq_none
  | echo hne hexprs =>
    exact appendReadList?_eq_none_iff.mpr fun expr hexpr => (hexprs expr hexpr).appendRead?_eq_none
  | nop => simp [Node.appendRead?]
  | ret hexpr =>
    exact appendReadOption?_eq_none fun node hnode => (hexpr node hnode).appendRead?_eq_none
  | @conditional line cond body elseIfs otherwise hcond hbody hconds hbodies hlast ihbody ihbodies
      ihlast =>
    have hif : cond.appendRead? false = none := hcond.appendRead?_eq_none
    have helseIfs := appendReadElseIfs?_eq_none
      (fun clause hclause => (hconds clause hclause).appendRead?_eq_none) ihbodies
    cases otherwise with
    | none => simp [Node.appendRead?, hif, appendReadList?_eq_none_iff.mpr ihbody, helseIfs]
    | some clause =>
      simp [Node.appendRead?, hif, appendReadList?_eq_none_iff.mpr ihbody, helseIfs,
        appendReadList?_eq_none_iff.mpr (ihlast clause rfl)]
  | @foreach line expr valueVar body keyVar hexpr hvalue hkey hbody ihbody =>
    have hsource : expr.appendRead? false = none := hexpr.appendRead?_eq_none
    rw [Node.appendRead?, hsource, appendReadList?_eq_none_iff.mpr ihbody]
    rfl
  | functionDecl hname hcase hparams hdefaults hbody ihbody =>
    rw [Node.appendRead?, appendReadList?_eq_none_iff.mpr ihbody,
      appendReadParams?_eq_none fun param hparam node hnode =>
        (hdefaults param hparam node hnode).appendRead?_eq_none]
    rfl

mutual

/-- The search for an element without an index goes by the shape of a tree, so that it finds one in
    a tree without lines if and only if there is one in the tree. -/
theorem Node.isSome_appendRead?_eraseLines (asTarget : Bool) : ∀ node : Node,
    (node.eraseLines.appendRead? asTarget).isSome = (node.appendRead? asTarget).isSome
  | ⟨_, .echo exprs⟩ => isSome_appendReadList?_eraseLines exprs
  | ⟨_, .ret expr⟩ => isSome_appendReadOption?_eraseLines expr
  | ⟨_, .elseIf cond body⟩ => by
    simp only [Node.eraseLines, Form.eraseLines, Node.appendRead?, Option.isSome_or,
      cond.isSome_appendRead?_eraseLines, isSome_appendReadList?_eraseLines body]
  | ⟨_, .otherwise body⟩ => isSome_appendReadList?_eraseLines body
  | ⟨_, .conditional cond body elseIfs none⟩ => by
    simp only [Node.eraseLines, Form.eraseLines, eraseLinesElse, Node.appendRead?, Option.isSome_or,
      cond.isSome_appendRead?_eraseLines, isSome_appendReadList?_eraseLines body,
      isSome_appendReadElseIfs?_eraseLines elseIfs]
  | ⟨_, .conditional cond body elseIfs (some ⟨_, last⟩)⟩ => by
    simp only [Node.eraseLines, Form.eraseLines, eraseLinesElse, Node.appendRead?, Option.isSome_or,
      cond.isSome_appendRead?_eraseLines, isSome_appendReadList?_eraseLines body,
      isSome_appendReadElseIfs?_eraseLines elseIfs, isSome_appendReadList?_eraseLines last]
  | ⟨_, .foreach expr _ body _⟩ => by
    simp only [Node.eraseLines, Form.eraseLines, Node.appendRead?, Option.isSome_or,
      expr.isSome_appendRead?_eraseLines, isSome_appendReadList?_eraseLines body]
  | ⟨_, .param _ default⟩ => isSome_appendReadOption?_eraseLines default
  | ⟨_, .functionDecl _ params body⟩ => by
    simp only [Node.eraseLines, Form.eraseLines, Node.appendRead?, Option.isSome_or,
      isSome_appendReadParams?_eraseLines params, isSome_appendReadList?_eraseLines body]
  | ⟨_, .require path _ _⟩ => path.isSome_appendRead?_eraseLines false
  | ⟨_, .arrayItem value key⟩ => by
    simp only [Node.eraseLines, Form.eraseLines, Node.appendRead?, Option.isSome_or,
      value.isSome_appendRead?_eraseLines, isSome_appendReadOption?_eraseLines key]
  | ⟨_, .arrayLiteral items⟩ => isSome_appendReadItems?_eraseLines items
  | ⟨_, .binary _ left right⟩ => by
    simp only [Node.eraseLines, Form.eraseLines, Node.appendRead?, Option.isSome_or,
      left.isSome_appendRead?_eraseLines, right.isSome_appendRead?_eraseLines]
  | ⟨_, .unary _ operand⟩ => operand.isSome_appendRead?_eraseLines false
  | ⟨_, .index base none⟩ => by
    cases asTarget with
    | false => rfl
    | true => exact base.isSome_appendRead?_eraseLines true
  | ⟨_, .index base (some dim)⟩ => by
    simp only [Node.eraseLines, Form.eraseLines, eraseLinesOption, Node.appendRead?,
      Option.isSome_or, base.isSome_appendRead?_eraseLines, dim.isSome_appendRead?_eraseLines]
  | ⟨_, .assign target expr⟩ => by
    simp only [Node.eraseLines, Form.eraseLines, Node.appendRead?, Option.isSome_or,
      target.isSome_appendRead?_eraseLines, expr.isSome_appendRead?_eraseLines]
  | ⟨_, .compoundAssign _ target expr⟩ => by
    simp only [Node.eraseLines, Form.eraseLines, Node.appendRead?, Option.isSome_or,
      target.isSome_appendRead?_eraseLines, expr.isSome_appendRead?_eraseLines]
  | ⟨_, .arg value⟩ => value.isSome_appendRead?_eraseLines false
  | ⟨_, .call _ args⟩ => isSome_appendReadList?_eraseLines args
  | ⟨_, .nop⟩ | ⟨_, .str _⟩ | ⟨_, .int _⟩ | ⟨_, .float _⟩ | ⟨_, .variable _⟩ | ⟨_, .constant _⟩
  | ⟨_, .bare⟩ => rfl

theorem isSome_appendReadList?_eraseLines : ∀ nodes : List Node,
    (appendReadList? (eraseLinesList nodes)).isSome = (appendReadList? nodes).isSome
  | [] => rfl
  | node :: rest => by
    simp only [eraseLinesList, appendReadList?, Option.isSome_or,
      node.isSome_appendRead?_eraseLines, isSome_appendReadList?_eraseLines rest]

theorem isSome_appendReadOption?_eraseLines : ∀ found : Option Node,
    (appendReadOption? (eraseLinesOption found)).isSome = (appendReadOption? found).isSome
  | none => rfl
  | some node => node.isSome_appendRead?_eraseLines false

theorem isSome_appendReadElseIfs?_eraseLines : ∀ elseIfs : List (ElseIf Node),
    (appendReadElseIfs? (eraseLinesElseIfs elseIfs)).isSome = (appendReadElseIfs? elseIfs).isSome
  | [] => rfl
  | ⟨_, cond, body⟩ :: rest => by
    simp only [eraseLinesElseIfs, appendReadElseIfs?, Option.isSome_or,
      cond.isSome_appendRead?_eraseLines, isSome_appendReadList?_eraseLines body,
      isSome_appendReadElseIfs?_eraseLines rest]

theorem isSome_appendReadParams?_eraseLines : ∀ params : List (Param Node),
    (appendReadParams? (eraseLinesParams params)).isSome = (appendReadParams? params).isSome
  | [] => rfl
  | ⟨_, _, default⟩ :: rest => by
    simp only [eraseLinesParams, appendReadParams?, Option.isSome_or,
      isSome_appendReadOption?_eraseLines default, isSome_appendReadParams?_eraseLines rest]

theorem isSome_appendReadItems?_eraseLines : ∀ items : List (ArrayItem Node),
    (appendReadItems? (eraseLinesItems items)).isSome = (appendReadItems? items).isSome
  | [] => rfl
  | ⟨_, value, key⟩ :: rest => by
    simp only [eraseLinesItems, appendReadItems?, Option.isSome_or,
      value.isSome_appendRead?_eraseLines, isSome_appendReadOption?_eraseLines key,
      isSome_appendReadItems?_eraseLines rest]

end

/-- Whether an element without an index is read does not depend on lines. -/
theorem appendReadList?_of_eraseLines {nodes others : List Node}
    (h : nodes.map Node.eraseLines = others.map Node.eraseLines)
    (hothers : appendReadList? others = none) : appendReadList? nodes = none := by
  rw [← Option.not_isSome_iff_eq_none, ← isSome_appendReadList?_eraseLines,
    eraseLinesList_eq_map, h, ← eraseLinesList_eq_map, isSome_appendReadList?_eraseLines, hothers]
  decide

/-! ## Whole texts -/

/-- Tokens that lead to a goal are all read before the text ends there. -/
theorem readTokens_of_reads {goal : ParserState → Prop} {tokens : List Token} {state : ParserState}
    (h : Reads ParserState.step goal (tokens.map Token.lexeme) state) (last : Option Token) :
    ∃ (final : ParserState) (token : Option Token),
      goal final ∧ readTokens state last tokens = readTokens final token [] := by
  obtain ⟨final, hfinal, hgoal⟩ := h.foldlM
  obtain ⟨token, hread⟩ := readTokens_of_foldlM hfinal last
  exact ⟨final, token, hgoal, hread⟩

/-- At the end of a text all statements have been read; an `if` that further conditions could follow
    is over. -/
theorem Settled.readTokens_eq {done : List Node} {state : ParserState}
    (h : Settled .program done [] state) (last : Option Token) :
    readTokens state last [] = .ok done.reverse := by
  rcases h with rfl | ⟨head, before, rfl, rfl⟩
  · rfl
  · rfl

/-- Statements that can be written down, printed and laid out in any way after an open tag, are what
    parsing the text gives, up to the lines of their nodes. -/
theorem parse_layout {program : List Node} {text : String}
    (hprogram : ∀ node ∈ program, node.IsStatement)
    (htext : LaidOut (statementsLexemes program) text.toList) :
    ∃ nodes, parse ("<?php " ++ text) = .ok nodes ∧
      nodes.map Node.eraseLines = program.map Node.eraseLines := by
  have hprint : AllPrintable (statementsLexemes program) :=
    allPrintable_statements fun node hnode => (hprogram node hnode).allPrintable
  have hchars : ("<?php " ++ text).toList = ['<', '?', 'p', 'h', 'p', ' '] ++ text.toList := by
    rw [String.toList_append]
    rfl
  have htokens := htext.lexemes_tokens hprint
  rw [← hchars] at htokens
  have hreads := reads_statements (fun node hnode => (hprogram node hnode).readable)
    (show Settled .program [] [] ParserState.start from .inl rfl)
  rw [← htokens] at hreads
  obtain ⟨final, token, ⟨nodes, hnodes, hsettled⟩, hread⟩ := readTokens_of_reads hreads none
  rw [List.append_nil] at hsettled
  refine ⟨nodes, ?_, hnodes⟩
  have hstatements : readTokens .start none (tokens (expandTags ("<?php " ++ text).toList)) =
      .ok nodes := by
    rw [hread, hsettled.readTokens_eq, List.reverse_reverse]
  have hreject : rejectAppendReads nodes = .ok nodes := by
    have hnone := appendReadList?_of_eraseLines hnodes
      (appendReadList?_eq_none_iff.mpr fun node hnode => (hprogram node hnode).appendRead?_eq_none)
    rw [rejectAppendReads, hnone]
  rw [parse, hstatements]
  exact hreject

/-- Parentheses around a sum and a sign before a power keep their places. -/
theorem parse_layout_levels :
    ∃ nodes, parse ("<?php " ++ "echo ( 1 + 2 ) * 3 ; $a [ ] = - $b ** 2 ;") = .ok nodes ∧
      nodes.map Node.eraseLines =
        [Node.mk none (.echo [⟨none, .binary .mul
          ⟨none, .binary .plus ⟨none, .int 1⟩ ⟨none, .int 2⟩⟩ ⟨none, .int 3⟩⟩]),
        Node.mk none (.assign ⟨none, .index ⟨none, .variable "a"⟩ none⟩
          ⟨none, .unary .minus
            ⟨none, .binary .pow ⟨none, .variable "b"⟩ ⟨none, .int 2⟩⟩⟩)].map Node.eraseLines := by
  have ha : IsName "a" := ⟨'a', [], rfl, rfl, nofun⟩
  have hb : IsName "b" := ⟨'b', [], rfl, rfl, nofun⟩
  have hint : ∀ n ∈ [1, 2, 3], (Node.mk none (.int n)).IsExpression .value := by
    intro n hn
    simp only [List.mem_cons, List.not_mem_nil, or_false] at hn
    rcases hn with rfl | rfl | rfl <;> exact .int (by decide) (by decide)
  refine parse_layout
    (List.forall_mem_cons.mpr ⟨.echo nofun (List.forall_mem_singleton.mpr ?_),
      List.forall_mem_singleton.mpr (.expression (.assign (.append (.variable nofun ha)) ?_))⟩) ?_
  · exact .binary .mul (.binary .plus (hint 1 (by decide)) (hint 2 (by decide)))
      (hint 3 (by decide))
  · exact .unary .minus (.binary .pow (.variable nofun hb) (hint 2 (by decide)))
  · exact laidOut_spaced _

end WebScript
