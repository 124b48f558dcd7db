import WebScript.Proofs.Shape

/-!
# The shape of parsed programs

Everything that parsing gives is a shaped statement, all integers in it fit in 64 bits, and all its
nodes have lines. The invariant of the parser says of each thing that has been put aside which roles
its nodes can play. It holds only as long as nothing has been found wrong: a literal without a value
is read as an empty statement, and the target of an assignment is not looked at before the
assignment is complete.
-/

namespace WebScript

/-- The node fits a role, and so do the nodes inside it; all integers are small enough, and all
    nodes have lines. -/
structure Node.ParsedAs (role : Role) (node : Node) : Prop extends node.ShapedAs role where
  literals : node.LiteralsFit
  lined : node.Lined

theorem Node.parsedAs_mk {role : Role} {line : Option Int} {form : Form Node} :
    Node.ParsedAs role ⟨line, form⟩ ↔
      (Node.fits ⟨line, form⟩ role && form.literalFits && Node.hasLines ⟨line, form⟩) = true ∧
        ∀ entry ∈ form.placed, entry.2.ParsedAs entry.1 := by
  rw [Bool.and_eq_true, Bool.and_eq_true]
  constructor
  · rintro ⟨hshape, hliterals, hlined⟩
    obtain ⟨hform, hliterals⟩ := Node.literalsFit_mk.mp hliterals
    obtain ⟨hlines, hlined⟩ := Node.lined_mk.mp hlined
    exact ⟨⟨⟨hshape.fits, hform⟩, hlines⟩, fun entry hentry =>
      ⟨Node.shaped_mk.mp hshape.shaped entry hentry, hliterals entry hentry, hlined entry hentry⟩⟩
  · rintro ⟨⟨⟨hfits, hform⟩, hlines⟩, hplaced⟩
    exact ⟨Node.shapedAs_mk.mpr ⟨hfits, fun entry hentry => (hplaced entry hentry).toShapedAs⟩,
      Node.literalsFit_mk.mpr ⟨hform, fun entry hentry => (hplaced entry hentry).literals⟩,
      Node.lined_mk.mpr ⟨hlines, fun entry hentry => (hplaced entry hentry).lined⟩⟩

/-! ## Expressions -/

/-- The operand is an expression. -/
def Operand.Shaped (operand : Operand) : Prop := operand.node.ParsedAs .operand

/-- The left operand of a pending operator is an expression. -/
def Pending.Shaped : Pending → Prop
  | .binary _ left => left.Shaped
  | .assign target | .compound _ target => target.Shaped
  | .unary .. | .require .. => True

/-- The array element has a line, and its nodes are expressions. -/
structure ArrayItem.Parsed (item : ArrayItem Node) : Prop where
  line : item.line.isSome = true
  nodes : ∀ node ∈ item.value :: item.key.toList, node.ParsedAs .operand

/-- What has been read of a construct in brackets fits its role. -/
def Bracket.Shaped : Bracket → Prop
  | .paren _ => True
  | .index base => base.Shaped
  | .args _ _ done => ∀ node ∈ done, node.ParsedAs .argument
  | .items _ _ done key => (∀ item ∈ done, item.Parsed) ∧ ∀ operand ∈ key, operand.Shaped

/-- The operand that has just been read is an expression. -/
def ExprMode.Shaped : ExprMode → Prop
  | .operator current => current.Shaped
  | .operand _ | .arrayOpen _ => True

/-- Everything that has been read of an expression fits its role. -/
structure ExprState.Shaped (state : ExprState) : Prop where
  pending : ∀ pending ∈ state.pending, pending.Shaped
  outer : ∀ entry ∈ state.outer, entry.1.Shaped ∧ ∀ pending ∈ entry.2, pending.Shaped
  mode : state.mode.Shaped

/-- What a token does to an expression keeps everything in its role, unless something is found
    wrong. -/
def ExprStep.Keeps (state : ExprState) : ExprStep → Prop
  | .more next => next.fault = none → state.fault = none ∧ (state.Shaped → next.Shaped)
  | .done operand fault => fault = none → state.fault = none ∧ (state.Shaped → operand.Shaped)
  | .reject => True

/-! ## Numbers in texts -/

/-- An integer token holds no minus sign. -/
def Lexeme.isUnsigned : Lexeme → Bool
  | .int text => !text.contains '-'
  | _ => true

theorem digitTail_cons (isDigit : Char → Bool) (c : Char) (rest : List Char) :
    digitTail isDigit (c :: rest) =
      if isDigit c then 1 + digitTail isDigit rest
      else if c = '_' then
        match rest with
        | d :: after => if isDigit d then 2 + digitTail isDigit after else 0
        | [] => 0
      else 0 :=
  digitTail.eq_def isDigit (c :: rest)

/-- A row of digits consists of digits and underscores. -/
theorem mem_take_digitTail {isDigit : Char → Bool} {text : List Char} {c : Char}
    (h : c ∈ text.take (digitTail isDigit text)) : isDigit c = true ∨ c = '_' := by
  induction text using digitTail.induct isDigit with
  | case1 => cases h
  | case2 d rest hd ih =>
    rw [digitTail_cons, if_pos hd, Nat.add_comm, List.take_succ_cons, List.mem_cons] at h
    rcases h with rfl | h
    · exact .inl hd
    · exact ih h
  | case3 d after hd hmark ih =>
    simp only [digitTail_cons, hmark, hd, Bool.false_eq_true, if_false, if_true, Nat.add_comm 2,
      List.take_succ_cons, List.mem_cons] at h
    rcases h with rfl | rfl | h
    · exact .inr rfl
    · exact .inl hd
    · exact ih h
  | case4 d after hd hmark => simp [digitTail_cons, hmark, hd] at h
  | case5 hmark => simp [digitTail_cons, hmark] at h
  | case6 d rest hd hmark => simp [digitTail_cons, hd, hmark] at h

theorem mem_take_digitRun {isDigit : Char → Bool} {text : List Char} {c : Char}
    (h : c ∈ text.take (digitRun isDigit text)) : isDigit c = true ∨ c = '_' := by
  cases text with
  | nil => simp at h
  | cons d rest =>
    cases hd : isDigit d with
    | false => simp [digitRun, hd] at h
    | true =>
      rw [digitRun, if_pos hd, Nat.add_comm, List.take_succ_cons, List.mem_cons] at h
      rcases h with rfl | h
      · exact .inl hd
      · exact mem_take_digitTail h

theorem isNamePart_of_hexValue? {c : Char} (h : (hexValue? c).isSome = true) :
    isNamePart c = true := by
  have hranges : ('0' ≤ c ∧ c ≤ '9') ∨ ('a' ≤ c ∧ c ≤ 'f') ∨ 'A' ≤ c ∧ c ≤ 'F' := by
    unfold hexValue? at h
    split at h
    · rename_i hc
      exact .inl (by simpa using hc)
    · split at h
      · rename_i hc
        exact .inr (.inl (by simpa using hc))
      · split at h
        · rename_i hc
          exact .inr (.inr (by simpa using hc))
        · cases h
  simp only [Char.le_def, UInt32.le_iff_toNat_le] at hranges
  simp only [isNamePart, Char.isAlphanum, Char.isAlpha, Char.isUpper, Char.isLower, Char.isDigit,
    Bool.or_eq_true, Bool.and_eq_true, decide_eq_true_eq, ge_iff_le, UInt32.le_iff_toNat_le]
  simp only [Char.reduceVal, UInt32.reduceToNat, Char.toNat_val] at hranges ⊢
  omega

/-- A letter that announces a base, and the digits of that base, could stand in a name. -/
theorem isNamePart_of_announcedDigits {letter : Char} {isDigit : Char → Bool}
    (h : announcedDigits letter = some isDigit) :
    isNamePart letter = true ∧ ∀ c, isDigit c = true → isNamePart c = true := by
  unfold announcedDigits at h
  split at h
  · rename_i hletter
    cases h
    have hletter : letter = 'x' ∨ letter = 'X' := by simpa using hletter
    exact ⟨by rcases hletter with rfl | rfl <;> rfl, fun c => isNamePart_of_hexValue?⟩
  · split at h
    · rename_i hletter
      cases h
      have hletter : letter = 'b' ∨ letter = 'B' := by simpa using hletter
      refine ⟨by rcases hletter with rfl | rfl <;> rfl, fun c hc => ?_⟩
      have hc : c = '0' ∨ c = '1' := by simpa using hc
      rcases hc with rfl | rfl <;> rfl
    · split at h
      · rename_i hletter
        cases h
        have hletter : letter = 'o' ∨ letter = 'O' := by simpa using hletter
        refine ⟨by rcases hletter with rfl | rfl <;> rfl, fun c hc => isNamePart_of_hexValue? ?_⟩
        have hc : '0' ≤ c ∧ c ≤ '7' := by simpa using hc
        have hnine : c ≤ '9' := Char.le_trans hc.2 (by decide)
        simp [hexValue?, hc.1, hnine]
      · cases h

/-- An integer consists of decimal digits and of characters that could stand in a name, so that it
    has no sign. -/
theorem mem_take_intLength {text : List Char} {c : Char} (h : c ∈ text.take (intLength text)) :
    isDecimalDigit c = true ∨ isNamePart c = true := by
  have hunderscore : c = '_' → isNamePart c = true := by
    rintro rfl
    rfl
  have hdecimal : c ∈ text.take (digitRun isDecimalDigit text) →
      isDecimalDigit c = true ∨ isNamePart c = true := fun h =>
    (mem_take_digitRun h).imp id hunderscore
  unfold intLength at h
  split at h
  · rename_i letter digits
    cases hletter : announcedDigits letter with
    | none => exact hdecimal (by simpa [hletter] using h)
    | some isDigit =>
      obtain ⟨hname, hdigit⟩ := isNamePart_of_announcedDigits hletter
      simp only [hletter] at h
      split at h
      · rw [Nat.add_comm, List.take_succ_cons, List.take_succ_cons, List.mem_cons,
          List.mem_cons] at h
        rcases h with rfl | rfl | h
        · exact .inr rfl
        · exact .inr hname
        · exact .inr ((mem_take_digitRun h).elim (hdigit c) hunderscore)
      · exact hdecimal h
  · exact hdecimal h

/-- The lexer takes no sign into an integer. -/
theorem isUnsigned_scan {c : Char} {rest : List Char} {lexeme : Lexeme}
    (h : (scan c rest).1 = some lexeme) : lexeme.isUnsigned = true := by
  have hword : ∀ word, (wordLexeme word).isUnsigned = true := by
    intro word
    unfold wordLexeme
    split
    · rename_i entry hentry
      have hall : ∀ entry ∈ reservedWords, entry.2.isUnsigned = true := by decide
      exact hall entry (List.mem_of_find?_eq_some hentry)
    · rfl
  have hsymbol : ∀ {text found}, symbol? text = some found → found.1.isUnsigned = true := by
    intro text found hfound
    obtain ⟨entry, hentry, rfl⟩ := Option.map_eq_some_iff.mp hfound
    have hall : ∀ entry ∈ symbols, entry.2.isUnsigned = true := by decide
    exact hall entry (List.mem_of_find?_eq_some hentry)
  unfold scan at h
  dsimp only at h
  split at h
  · cases h
    rfl
  · split at h
    · cases h
      have hminus : '-' ∉ (c :: rest).take (intLength (c :: rest)) := fun hmem =>
        (mem_take_intLength hmem).elim (by decide) (by decide)
      simpa [Lexeme.isUnsigned] using hminus
    · split at h
      · cases h
        rfl
      · split at h
        · cases h
          exact hword _
        · split at h
          · cases h
            split <;> rfl
          · split at h
            · cases h
            · split at h
              · cases h
              · split at h
                · cases h
                · split at h
                  · rename_i hfound
                    cases h
                    exact hsymbol hfound
                  · cases h
                    rfl

theorem isUnsigned_of_mem_tokensFrom {text : List Char} {skip : Nat} {position : Position}
    {token : Token} (h : token ∈ tokensFrom skip position text) :
    token.lexeme.isUnsigned = true := by
  induction text generalizing skip position with
  | nil => cases h
  | cons c rest ih =>
    cases skip with
    | succ skip => exact ih h
    | zero =>
      rw [tokensFrom_cons] at h
      split at h
      · exact ih h
      · rename_i lexeme more hscan
        rcases List.mem_cons.mp h with rfl | h
        · exact isUnsigned_scan (congrArg Prod.fst hscan)
        · exact ih h

section

attribute [local simp] Node.parsedAs_mk Form.placed Node.fits Form.literalFits Form.isExpression
  Form.isStatement Form.isArgument Node.hasLines Form.partLines Operand.Shaped Operand.plain

/-! ### Literals -/

theorem intLiteral_eq_ok {text : List Char} {form : Form Node} (h : intLiteral text = .ok form) :
    (∃ n, form = .int n) ∨ ∃ f, form = .float f := by
  unfold intLiteral at h
  cases hvalue : intLiteralValue text with
  | error error =>
    rw [hvalue] at h
    cases h
  | ok n =>
    rw [hvalue] at h
    simp only [bind, Except.bind] at h
    split at h
    · cases h
      exact .inl ⟨n, rfl⟩
    · split at h
      · cases h
        exact .inr ⟨_, rfl⟩
      · cases h

/-- Digits without a sign denote no negative number. -/
theorem nonneg_of_readInteger {base : Base} {text : List Char} {n : Int} (hminus : '-' ∉ text)
    (h : readInteger base text = .ok n) : 0 ≤ n := by
  have hplus : ∀ digits : List Char, (readDigits base digits).map (withSign false) = .ok n →
      0 ≤ n := by
    intro digits hdigits
    cases hvalue : readDigits base digits with
    | error limit =>
      rw [hvalue] at hdigits
      cases hdigits
    | ok value =>
      rw [hvalue] at hdigits
      cases hdigits
      exact Int.natCast_nonneg value
  unfold readInteger at h
  split at h
  · rename_i digits htrim
    have hmem : '-' ∈ trimWhile isIntegerBlank text := htrim ▸ List.mem_cons_self
    have hreverse := (List.dropWhile_sublist _).subset (List.mem_reverse.mp hmem)
    exact absurd ((List.dropWhile_sublist _).subset (List.mem_reverse.mp hreverse)) hminus
  · exact hplus _ h
  · exact hplus _ h

/-- A literal that is an integer fits, for one that does not is a float. -/
theorem intLiteral_eq_int {text : List Char} {n : Int} (hminus : '-' ∉ text)
    (h : intLiteral text = .ok (.int n)) : FitsInt n := by
  have hread : ∀ {base : Base} {digits : List Char}, '-' ∉ digits →
      (readInteger base digits).mapError LiteralError.limit = .ok n → 0 ≤ n := by
    intro base digits hdigits hvalue
    cases hinteger : readInteger base digits with
    | error limit =>
      rw [hinteger] at hvalue
      cases hvalue
    | ok value =>
      rw [hinteger] at hvalue
      cases hvalue
      exact nonneg_of_readInteger hdigits hinteger
  have hnonneg : ∀ {value : Int}, intLiteralValue text = .ok value → value = n → 0 ≤ n := by
    rintro value hvalue rfl
    have hfilter : '-' ∉ text.filter (· ≠ '_') := fun h => hminus (List.mem_filter.mp h).1
    unfold intLiteralValue at hvalue
    split at hvalue
    · rename_i letter digits htext
      rw [htext] at hfilter
      have hdigits : '-' ∉ digits := fun h =>
        hfilter (List.mem_cons_of_mem _ (List.mem_cons_of_mem _ h))
      split at hvalue
      · exact hread hdigits hvalue
      · split at hvalue
        · exact hread hdigits hvalue
        · split at hvalue
          · exact hread hdigits hvalue
          · split at hvalue
            · cases hvalue
            · exact hread hfilter hvalue
    · exact hread hfilter hvalue
  unfold intLiteral at h
  cases hvalue : intLiteralValue text with
  | error error =>
    rw [hvalue] at h
    cases h
  | ok value =>
    rw [hvalue] at h
    simp only [bind, Except.bind] at h
    split at h
    · rename_i hmax
      cases h
      exact ⟨Int.le_trans (by decide) (hnonneg hvalue rfl), hmax⟩
    · split at h <;> cases h

/-- An integer literal is an operand as it should be. -/
theorem parsedAs_intLiteral {text : List Char} {form : Form Node} (hminus : '-' ∉ text)
    (h : intLiteral text = .ok form) (line : Int) :
    Node.ParsedAs .operand ⟨some line, form⟩ := by
  obtain ⟨n, rfl⟩ | ⟨f, rfl⟩ := intLiteral_eq_ok h
  · simpa using intLiteral_eq_int hminus h
  · simp

theorem parsedAs_floatLiteral (text : List Char) (line : Int) :
    Node.ParsedAs .operand ⟨some line, floatLiteral text⟩ := by
  unfold floatLiteral
  split <;> simp

theorem parsedAs_concatAll {line : Int} {first : Node} {rest : List Node}
    (hfirst : first.ParsedAs .operand) (hrest : ∀ node ∈ rest, node.ParsedAs .operand) :
    (concatAll (some line) first rest).ParsedAs .operand := by
  unfold concatAll
  induction rest generalizing first with
  | nil => exact hfirst
  | cons node rest ih =>
    obtain ⟨hnode, hrest⟩ := List.forall_mem_cons.mp hrest
    refine ih ?_ hrest
    simp [hfirst, hnode]

/-- A double-quoted string is an operand as it should be: its parts are joined. -/
theorem parsedAs_doubleLiteral {raw : List Char} {line : Int} {node : Node}
    (h : doubleLiteral raw (some line) = .ok node) : node.ParsedAs .operand := by
  have hparts : ∀ parts : List StringPart, ∀ node ∈ parts.map (StringPart.toNode (some line)),
      node.ParsedAs .operand := by
    intro parts node hnode
    obtain ⟨part, -, rfl⟩ := List.mem_map.mp hnode
    cases part <;> simp [StringPart.toNode]
  unfold doubleLiteral at h
  cases hpieces : piecesFrom 0 raw with
  | error limit =>
    rw [hpieces] at h
    cases h
  | ok pieces =>
    rw [hpieces] at h
    simp only [bind, Except.bind] at h
    split at h
    · cases h
      exact parsedAs_concatAll (by simp) (hparts _)
    · cases h
      exact parsedAs_concatAll (by simp) (hparts _)

/-! ### Operators -/

/-- What passes the check of targets can be assigned to. -/
theorem isTarget_of_targetFault {compound : Bool} {target : Operand}
    (h : targetFault compound target = none) : target.node.isTarget = true := by
  cases htarget : target.node.isTarget with
  | true => rfl
  | false => simp [targetFault, htarget] at h

/-- An operand that passes the check of targets is a target as it should be. -/
theorem Operand.Shaped.asTarget {target : Operand} (h : target.Shaped) {compound : Bool}
    (hfault : targetFault compound target = none) : target.node.ParsedAs .target :=
  ⟨⟨isTarget_of_targetFault hfault, h.shaped⟩, h.literals, h.lined⟩

/-- An operator that gets its right operand is as it should be, unless it meets a fault. -/
theorem Pending.Shaped.complete {pending : Pending} {right : Operand} (h : pending.Shaped)
    (hright : right.Shaped) (hfault : (pending.complete right).2 = none) :
    (pending.complete right).1.Shaped := by
  cases pending with
  | binary op left =>
    have hleft : left.node.ParsedAs .operand := h
    have hnode : right.node.ParsedAs .operand := hright
    simp [Pending.complete, hleft, hnode]
  | assign target | compound op target =>
    simp only [Pending.complete] at hfault
    have htarget := Operand.Shaped.asTarget h hfault
    have hnode : right.node.ParsedAs .operand := hright
    simp [Pending.complete, htarget, hnode]
  | unary op line | require once fatal line =>
    have hnode : right.node.ParsedAs .operand := hright
    simp [Pending.complete, hnode]

/-- If completing all operators that wait meets no fault, there was none before, and the operand is
    as it should be. -/
theorem completeAll_shaped {pending : List Pending} {current : Operand}
    {fault : Option SourceError} (hfault : (completeAll pending current fault).2 = none) :
    fault = none ∧ ((∀ waiting ∈ pending, waiting.Shaped) → current.Shaped →
      (completeAll pending current fault).1.Shaped) := by
  induction pending generalizing current fault with
  | nil => exact ⟨hfault, fun _ hcurrent => hcurrent⟩
  | cons waiting rest ih =>
    rw [completeAll] at hfault ⊢
    obtain ⟨hfaults, hrest⟩ := ih hfault
    obtain ⟨hfault, hfound⟩ := Option.or_eq_none_iff.mp hfaults
    refine ⟨hfault, fun hpending hcurrent => ?_⟩
    obtain ⟨hwaiting, hpending⟩ := List.forall_mem_cons.mp hpending
    exact hrest hpending (hwaiting.complete hcurrent hfound)

/-- The left operand of an operator is as it should be, and so is what waits further out. -/
theorem makeLeft_shaped {binding : Binding} {current left : Operand} {strength : Nat}
    {pending rest : List Pending} {fault : Option SourceError}
    (h : makeLeft binding current strength pending fault = some (left, rest, none)) :
    fault = none ∧ ((∀ waiting ∈ pending, waiting.Shaped) → current.Shaped →
      left.Shaped ∧ ∀ waiting ∈ rest, waiting.Shaped) := by
  induction pending generalizing current strength fault with
  | nil =>
    rw [makeLeft] at h
    split at h
    · cases h
      exact ⟨rfl, fun hpending hcurrent => ⟨hcurrent, hpending⟩⟩
    · cases h
  | cons waiting others ih =>
    rw [makeLeft] at h
    split at h
    · split at h
      · cases h
        exact ⟨rfl, fun hpending hcurrent => ⟨hcurrent, hpending⟩⟩
      · cases h
    · obtain ⟨hfaults, hothers⟩ := ih h
      obtain ⟨hfault, hfound⟩ := Option.or_eq_none_iff.mp hfaults
      refine ⟨hfault, fun hpending hcurrent => ?_⟩
      obtain ⟨hwaiting, hpending⟩ := List.forall_mem_cons.mp hpending
      exact hothers hpending (hwaiting.complete hcurrent hfound)

/-! ### Brackets -/

/-- What a token makes of a bracket fits its role. -/
def BracketStep.Shaped : BracketStep → Prop
  | .closed operand => operand.Shaped
  | .reopened bracket _ => bracket.Shaped

/-- An argument has the line of its value. -/
theorem parsedAs_argument {value : Operand} (h : value.Shaped) :
    (argument value).ParsedAs .argument := by
  have hnode : value.node.ParsedAs .operand := h
  simp [argument, hnode, hnode.lined.line]

theorem parsed_arrayItem {key : Option Operand} {value : Operand}
    (hkey : ∀ operand ∈ key, operand.Shaped) (hvalue : value.Shaped) :
    (arrayItem key value).Parsed := by
  cases key with
  | none => exact ⟨rfl, List.forall_mem_singleton.mpr hvalue⟩
  | some key =>
    exact ⟨rfl, List.forall_mem_cons.mpr ⟨hvalue, List.forall_mem_singleton.mpr (hkey key rfl)⟩⟩

theorem parsedAs_arrayLiteral {line : Int} {items : List (ArrayItem Node)}
    (h : ∀ item ∈ items, item.Parsed) :
    Node.ParsedAs .operand ⟨some line, .arrayLiteral items.reverse⟩ := by
  have hlines : ∀ item ∈ items, item.line.isSome = true := fun item hitem => (h item hitem).line
  refine Node.parsedAs_mk.mpr ⟨by simpa using hlines, List.forall_mem_map.mpr fun node hnode => ?_⟩
  obtain ⟨item, hitem, hnode⟩ := List.mem_flatMap.mp hnode
  exact (h item (List.mem_reverse.mp hitem)).nodes node hnode

theorem parsedAs_call {line : Int} {name : String} {args : List Node}
    (h : ∀ arg ∈ args, arg.ParsedAs .argument) :
    Node.ParsedAs .operand ⟨some line, .call name args.reverse⟩ := by
  simpa using h

/-- What a token does to a bracket leaves it as it should be. -/
theorem Bracket.Shaped.next {bracket : Bracket} {inner : Operand} {lexeme : Lexeme}
    {found : BracketStep} (h : bracket.Shaped) (hinner : inner.Shaped)
    (hnext : bracket.next? inner lexeme = some found) : found.Shaped := by
  have hnode : inner.node.ParsedAs .operand := hinner
  cases bracket with
  | paren line =>
    simp only [Bracket.next?] at hnext
    split at hnext <;> cases hnext
    exact hinner
  | index base =>
    have hbase : base.node.ParsedAs .operand := h
    simp only [Bracket.next?] at hnext
    split at hnext <;> cases hnext
    simp [BracketStep.Shaped, hbase, hnode]
  | args name line done =>
    have hargs := List.forall_mem_cons.mpr ⟨parsedAs_argument hinner, h⟩
    simp only [Bracket.next?] at hnext
    split at hnext
    · cases hnext
      exact hargs
    · split at hnext <;> cases hnext
      exact parsedAs_call hargs
  | items round line done key =>
    obtain ⟨hdone, hkey⟩ := h
    have hitems := List.forall_mem_cons.mpr ⟨parsed_arrayItem hkey hinner, hdone⟩
    simp only [Bracket.next?] at hnext
    split at hnext
    · cases hnext
      exact ⟨hdone, fun operand hoperand => Option.mem_some_iff.mp hoperand ▸ hinner⟩
    · split at hnext
      · cases hnext
        exact ⟨hitems, nofun⟩
      · split at hnext <;> cases hnext
        exact parsedAs_arrayLiteral hitems

theorem Bracket.Shaped.closeEmpty {bracket : Bracket} {lexeme : Lexeme} {operand : Operand}
    (h : bracket.Shaped) (hclose : bracket.closeEmpty? lexeme = some operand) :
    operand.Shaped := by
  cases bracket with
  | paren line => cases hclose
  | index base =>
    have hbase : base.node.ParsedAs .operand := h
    simp only [Bracket.closeEmpty?] at hclose
    split at hclose <;> cases hclose
    simp [hbase]
  | args name line done =>
    simp only [Bracket.closeEmpty?] at hclose
    split at hclose <;> cases hclose
    exact parsedAs_call h
  | items round line done key =>
    simp only [Bracket.closeEmpty?] at hclose
    split at hclose <;> cases hclose
    exact parsedAs_arrayLiteral h.1

/-! ### Tokens of an expression -/

theorem ExprState.keeps_openBracket (state : ExprState) (bracket : Bracket) (closable : Bool)
    (h : state.Shaped → bracket.Shaped) :
    (state.openBracket bracket closable).Keeps state := by
  refine fun hfault => ⟨hfault, fun hstate => ⟨nofun, ?_, trivial⟩⟩
  exact List.forall_mem_cons.mpr ⟨⟨h hstate, hstate.pending⟩, hstate.outer⟩

theorem ExprState.keeps_gotOperand (state : ExprState) {operand : Operand}
    (h : operand.Shaped) : (state.gotOperand operand).Keeps state :=
  fun hfault => ⟨hfault, fun hstate => ⟨hstate.pending, hstate.outer, h⟩⟩

theorem ExprState.keeps_gotLiteral (state : ExprState) (line : Nat)
    {literal : Except SourceError Node}
    (h : ∀ node, literal = .ok node → node.ParsedAs .operand) :
    (state.gotLiteral line literal).Keeps state := by
  cases literal with
  | ok node => exact state.keeps_gotOperand (h node rfl)
  | error found =>
    intro hfault
    obtain ⟨-, hfound⟩ := Option.or_eq_none_iff.mp hfault
    cases hfound

/-- An operator that waits for its right operand keeps everything in its role. -/
theorem ExprState.keeps_waiting (state : ExprState) {pending : Pending} (h : pending.Shaped) :
    (ExprStep.more { state with
      pending := pending :: state.pending, mode := .operand false }).Keeps state := by
  refine fun hfault => ⟨hfault, fun hstate => ⟨?_, hstate.outer, trivial⟩⟩
  exact List.forall_mem_cons.mpr ⟨h, hstate.pending⟩

/-- An operator between operands leaves an expression as it should be. -/
theorem ExprState.keeps_betweenStep (state : ExprState) {current : Operand} (binding : Binding)
    {operator : Operand → Pending} (hcurrent : state.Shaped → current.Shaped)
    (hoperator : ∀ left : Operand, left.Shaped → (operator left).Shaped) :
    (state.betweenStep current binding operator).Keeps state := by
  unfold ExprState.betweenStep
  split
  · rename_i left pending fault hleft
    intro hfault
    cases hfault
    obtain ⟨hfault, hshaped⟩ := makeLeft_shaped hleft
    refine ⟨hfault, fun hstate => ?_⟩
    obtain ⟨hleft, hpending⟩ := hshaped hstate.pending (hcurrent hstate)
    exact ⟨List.forall_mem_cons.mpr ⟨hoperator left hleft, hpending⟩, hstate.outer, trivial⟩
  · trivial

/-- A token where an operand is expected leaves an expression as it should be. -/
theorem ExprState.keeps_operandStep (state : ExprState) {token : Token}
    (htoken : token.lexeme.isUnsigned = true) (closable : Bool) :
    (state.operandStep token closable).Keeps state := by
  unfold ExprState.operandStep
  split
  · exact state.keeps_gotOperand (by simp)
  · exact state.keeps_gotOperand (by simp)
  · refine state.keeps_gotLiteral _ fun node hnode => ?_
    split at hnode
    · rename_i text hlexeme _ form hform
      cases hnode
      rw [hlexeme] at htoken
      exact parsedAs_intLiteral (by simpa [Lexeme.isUnsigned] using htoken) hform _
    · cases hnode
    · cases hnode
  · exact state.keeps_gotOperand (parsedAs_floatLiteral _ _)
  · exact state.keeps_gotOperand (by simp)
  · rename_i raw _
    refine state.keeps_gotLiteral _ fun node hnode => ?_
    cases hliteral : doubleLiteral raw (some ↑token.line) with
    | error limit =>
      rw [hliteral] at hnode
      cases hnode
    | ok found =>
      rw [hliteral] at hnode
      cases hnode
      exact parsedAs_doubleLiteral hliteral
  · exact state.keeps_openBracket (.items _ _ [] none) true fun _ => ⟨nofun, nofun⟩
  · exact fun hfault => ⟨hfault, fun hstate => ⟨hstate.pending, hstate.outer, trivial⟩⟩
  · exact state.keeps_openBracket (.paren _) false fun _ => trivial
  · exact state.keeps_waiting trivial
  · exact state.keeps_waiting trivial
  · split
    · exact state.keeps_waiting trivial
    · trivial
  · split
    · rename_i bracket pending outer houter
      split
      · rename_i operand hclose
        refine fun hfault => ⟨hfault, fun hstate => ?_⟩
        have hentries := hstate.outer
        rw [houter] at hentries
        obtain ⟨⟨hbracket, hpending⟩, hrest⟩ := List.forall_mem_cons.mp hentries
        exact ⟨hpending, hrest, hbracket.closeEmpty hclose⟩
      · trivial
    · trivial

/-- A token after an operand leaves an expression, or the operand that it ends, as it should be. -/
theorem ExprState.keeps_endStep (state : ExprState) {current : Operand} (lexeme : Lexeme)
    (hcurrent : state.Shaped → current.Shaped) :
    (state.endStep current lexeme).Keeps state := by
  have hcomplete := @completeAll_shaped state.pending current state.fault
  unfold ExprState.endStep
  generalize completeAll state.pending current state.fault = found at hcomplete
  obtain ⟨inner, fault⟩ := found
  simp only
  split
  · intro hfault
    obtain ⟨hbefore, hinner⟩ := hcomplete hfault
    exact ⟨hbefore, fun hstate => hinner hstate.pending (hcurrent hstate)⟩
  · rename_i bracket pending outer houter
    have hinside : fault = none → state.Shaped → inner.Shaped ∧ bracket.Shaped ∧
        (∀ waiting ∈ pending, waiting.Shaped) ∧
          ∀ entry ∈ outer, entry.1.Shaped ∧ ∀ waiting ∈ entry.2, waiting.Shaped := by
      intro hfault hstate
      have hentries := hstate.outer
      rw [houter] at hentries
      obtain ⟨⟨hbracket, hpending⟩, hrest⟩ := List.forall_mem_cons.mp hentries
      exact ⟨(hcomplete hfault).2 hstate.pending (hcurrent hstate), hbracket, hpending, hrest⟩
    split
    · rename_i operand hnext
      refine fun hfault => ⟨(hcomplete hfault).1, fun hstate => ?_⟩
      obtain ⟨hinner, hbracket, hpending, hrest⟩ := hinside hfault hstate
      exact ⟨hpending, hrest, hbracket.next hinner hnext⟩
    · rename_i reopened closable hnext
      refine fun hfault => ⟨(hcomplete hfault).1, fun hstate => ?_⟩
      obtain ⟨hinner, hbracket, hpending, hrest⟩ := hinside hfault hstate
      have hreopened : reopened.Shaped := hbracket.next hinner hnext
      exact ⟨nofun, List.forall_mem_cons.mpr ⟨⟨hreopened, hpending⟩, hrest⟩, trivial⟩
    · trivial

/-- A token keeps everything in its role, unless something is found wrong. -/
theorem ExprState.keeps_step (state : ExprState) {token : Token}
    (htoken : token.lexeme.isUnsigned = true) : (state.step token).Keeps state := by
  unfold ExprState.step
  split
  · exact state.keeps_operandStep htoken _
  · split
    · exact state.keeps_openBracket (.items _ _ [] none) true fun _ => ⟨nofun, nofun⟩
    · trivial
  · rename_i current hmode
    have hcurrent : state.Shaped → current.Shaped := by
      intro hstate
      have hshaped := hstate.mode
      rw [hmode] at hshaped
      exact hshaped
    unfold ExprState.operatorStep
    split
    · exact state.keeps_openBracket (.index current) true hcurrent
    · split
      · exact state.keeps_openBracket (.args _ _ []) true fun _ => nofun
      · trivial
    · exact state.keeps_betweenStep _ hcurrent fun _ hleft => hleft
    · exact state.keeps_betweenStep _ hcurrent fun _ hleft => hleft
    · exact state.keeps_betweenStep _ hcurrent fun _ hleft => hleft
    · exact state.keeps_betweenStep _ hcurrent fun _ hleft => hleft
    · exact state.keeps_endStep _ hcurrent

/-! ## Statements -/

/-- All nodes of a list are statements, and their integers are small enough. -/
def AllParsed (nodes : List Node) : Prop := ∀ node ∈ nodes, node.ParsedAs .statement

/-- The condition has a line, and its nodes fit their roles. -/
structure ElseIf.Parsed (clause : ElseIf Node) : Prop where
  line : clause.line.isSome = true
  cond : clause.cond.ParsedAs .operand
  body : AllParsed clause.body

/-- The last part of an `if` has a line, and its nodes are statements. -/
structure Else.Parsed (last : Else Node) : Prop where
  line : last.line.isSome = true
  body : AllParsed last.body

/-- The parameter has a line, and its default is an expression. -/
structure Param.Parsed (param : Param Node) : Prop where
  line : param.line.isSome = true
  default : ∀ node ∈ param.default.toList, node.ParsedAs .operand

/-- The parts of an `if` that have been read fit their roles. -/
structure IfHead.Shaped (head : IfHead) : Prop where
  cond : head.cond.ParsedAs .operand
  body : AllParsed head.body
  elseIfs : ∀ clause ∈ head.elseIfs, clause.Parsed

/-- The parameters that have been read fit their roles. -/
def FunctionHead.Shaped (head : FunctionHead) : Prop := ∀ param ∈ head.params, param.Parsed

/-- What is known before a list of statements fits its role. -/
def ListKind.Shaped : ListKind → Prop
  | .program | .block => True
  | .function head => head.Shaped

/-- What has been read of an open statement fits its role. -/
def StatementFrame.Shaped : StatementFrame → Prop
  | .list kind done => kind.Shaped ∧ AllParsed done
  | .ifBody _ cond => cond.ParsedAs .operand
  | .elseIfBody head _ cond => head.Shaped ∧ cond.ParsedAs .operand
  | .elseBody head _ => head.Shaped
  | .foreachBody head => head.expr.ParsedAs .operand

/-- What has been read before an expression fits its role. -/
def ExprContext.Shaped : ExprContext → Prop
  | .statement | .ret _ | .ifCond _ | .foreachSource _ => True
  | .echo _ done => ∀ node ∈ done, node.ParsedAs .operand
  | .elseIfCond head _ => head.Shaped
  | .default head _ _ => head.Shaped

/-- What has been read of the current statement fits its role. -/
def Mode.Shaped : Mode → Prop
  | .statement | .returned _ | .functionName _ | .functionOpen .. => True
  | .clauses head => head.Shaped
  | .parenthesis context => context.Shaped
  | .expression context inner => context.Shaped ∧ inner.Shaped
  | .parameter head | .parameterEnd head _ _ | .functionBrace head => head.Shaped
  | .foreachFirst _ expr | .foreachSecond _ expr _ | .foreachValue _ expr _ =>
    expr.ParsedAs .operand
  | .foreachClose head => head.expr.ParsedAs .operand

/-- What is wrong with the current expression is what is wrong with the program so far. -/
def Mode.Agrees (fault : Option SourceError) : Mode → Prop
  | .expression _ inner => inner.fault = fault
  | _ => True

/-- Everything that has been read fits its role, unless something has been found wrong. -/
structure ParserState.Sound (state : ParserState) : Prop where
  agrees : state.mode.Agrees state.fault
  shaped : state.fault = none → state.mode.Shaped ∧ ∀ frame ∈ state.stack, frame.Shaped

/-! ### Complete statements -/

theorem ParsedAs.asStatement {node : Node} (h : node.ParsedAs .operand) :
    node.ParsedAs .statement :=
  ⟨⟨Form.isStatement_of_isExpression h.fits, h.shaped⟩, h.literals, h.lined⟩

theorem AllParsed.singleton {node : Node} (h : node.ParsedAs .statement) :
    AllParsed [node] :=
  List.forall_mem_singleton.mpr h

theorem AllParsed.reverse {nodes : List Node} (h : AllParsed nodes) :
    AllParsed nodes.reverse :=
  fun node hnode => h node (List.mem_reverse.mp hnode)

theorem IfHead.Shaped.addElseIf {head : IfHead} {line : Nat} {cond : Node} {body : List Node}
    (h : head.Shaped) (hcond : cond.ParsedAs .operand) (hbody : AllParsed body) :
    (head.addElseIf line cond body).Shaped :=
  ⟨h.cond, h.body, List.forall_mem_cons.mpr ⟨⟨rfl, hcond, hbody⟩, h.elseIfs⟩⟩

theorem IfHead.Shaped.finish {head : IfHead} {last : Option (Else Node)} (h : head.Shaped)
    (hlast : ∀ clause ∈ last, clause.Parsed) : (head.finish last).ParsedAs .statement := by
  have hlines : (∀ clause ∈ head.elseIfs, clause.line.isSome = true) ∧
      ∀ clause ∈ last, clause.line.isSome = true :=
    ⟨fun clause hclause => (h.elseIfs clause hclause).line,
      fun clause hclause => (hlast clause hclause).line⟩
  have helseIfs : ∀ entry ∈ Form.placedElseIfs head.elseIfs.reverse,
      entry.2.ParsedAs entry.1 := by
    intro entry hentry
    obtain ⟨clause, hclause, hentry⟩ := List.mem_flatMap.mp hentry
    have hparsed := h.elseIfs clause (List.mem_reverse.mp hclause)
    rcases List.mem_cons.mp hentry with rfl | hentry
    · exact hparsed.cond
    · obtain ⟨node, hnode, rfl⟩ := List.mem_map.mp hentry
      exact hparsed.body node hnode
  have hotherwise : AllParsed (Form.otherwiseNodes last) := by
    cases last with
    | none => exact nofun
    | some clause => exact (hlast clause rfl).body
  refine Node.parsedAs_mk.mpr ⟨by simpa using hlines, ?_⟩
  refine List.forall_mem_append.mpr ⟨List.forall_mem_append.mpr ⟨?_, helseIfs⟩, ?_⟩
  · exact List.forall_mem_cons.mpr ⟨h.cond, List.forall_mem_map.mpr h.body⟩
  · exact List.forall_mem_map.mpr hotherwise

/-- The complete `if` with a last part. -/
theorem IfHead.Shaped.finishElse {head : IfHead} {line : Nat} {body : List Node} (h : head.Shaped)
    (hbody : AllParsed body) : (head.finish (some ⟨some line, body⟩)).ParsedAs .statement := by
  refine h.finish fun clause hclause => ?_
  cases hclause
  exact ⟨rfl, hbody⟩

theorem parsedAs_foreach {head : ForeachHead} {body : List Node}
    (h : head.expr.ParsedAs .operand) (hbody : AllParsed body) :
    (head.finish body).ParsedAs .statement :=
  Node.parsedAs_mk.mpr
    ⟨rfl, List.forall_mem_cons.mpr ⟨h, List.forall_mem_map.mpr hbody⟩⟩

theorem FunctionHead.Shaped.addParam {head : FunctionHead} {line : Nat} {name : String}
    {default : Option Node} (h : head.Shaped)
    (hdefault : ∀ node ∈ default.toList, node.ParsedAs .operand) :
    (head.addParam line name default).Shaped :=
  List.forall_mem_cons.mpr ⟨⟨rfl, hdefault⟩, h⟩

theorem FunctionHead.Shaped.finish {head : FunctionHead} {line : Int} {body : List Node}
    (h : head.Shaped) (hbody : AllParsed body) :
    Node.ParsedAs .statement ⟨some line, .functionDecl head.name head.params.reverse body⟩ := by
  have hlines : ∀ param ∈ head.params, param.line.isSome = true :=
    fun param hparam => (h param hparam).line
  refine Node.parsedAs_mk.mpr ⟨by simpa using hlines, List.forall_mem_append.mpr
    ⟨List.forall_mem_map.mpr fun node hnode => ?_, List.forall_mem_map.mpr hbody⟩⟩
  obtain ⟨param, hparam, hnode⟩ := List.mem_flatMap.mp hnode
  exact (h param (List.mem_reverse.mp hparam)).default node hnode

/-- Handing on a complete statement keeps everything in its role. -/
theorem deliver_shaped {nodes : List Node} {stack : List StatementFrame}
    (hnodes : AllParsed nodes) (hstack : ∀ frame ∈ stack, frame.Shaped) :
    (deliver nodes stack).1.Shaped ∧ ∀ frame ∈ (deliver nodes stack).2, frame.Shaped := by
  induction stack generalizing nodes with
  | nil => exact ⟨trivial, List.forall_mem_singleton.mpr ⟨trivial, hnodes.reverse⟩⟩
  | cons frame rest ih =>
    obtain ⟨hframe, hrest⟩ := List.forall_mem_cons.mp hstack
    cases frame with
    | list kind done =>
      have hdone := List.forall_mem_append.mpr ⟨hnodes.reverse, hframe.2⟩
      exact ⟨trivial, List.forall_mem_cons.mpr ⟨⟨hframe.1, hdone⟩, hrest⟩⟩
    | ifBody line cond => exact ⟨⟨hframe, hnodes, nofun⟩, hrest⟩
    | elseIfBody head line cond => exact ⟨hframe.1.addElseIf hframe.2 hnodes, hrest⟩
    | elseBody head line => exact ih (.singleton (IfHead.Shaped.finishElse hframe hnodes)) hrest
    | foreachBody head => exact ih (.singleton (parsedAs_foreach hframe hnodes)) hrest

theorem deliver_agrees (nodes : List Node) (stack : List StatementFrame)
    (fault : Option SourceError) : (deliver nodes stack).1.Agrees fault := by
  fun_induction deliver nodes stack with
  | case5 nodes head line rest ih | case6 nodes head rest ih => exact ih
  | _ => trivial

theorem deliverAll_shaped {nodes : List Node} {stack : List StatementFrame}
    (hnodes : AllParsed nodes) (hstack : ∀ frame ∈ stack, frame.Shaped) :
    ∀ frame ∈ deliverAll nodes stack, frame.Shaped := by
  induction stack generalizing nodes with
  | nil => exact List.forall_mem_singleton.mpr ⟨trivial, hnodes.reverse⟩
  | cons frame rest ih =>
    obtain ⟨hframe, hrest⟩ := List.forall_mem_cons.mp hstack
    cases frame with
    | list kind done =>
      have hdone := List.forall_mem_append.mpr ⟨hnodes.reverse, hframe.2⟩
      exact List.forall_mem_cons.mpr ⟨⟨hframe.1, hdone⟩, hrest⟩
    | ifBody line cond =>
      have hhead : IfHead.Shaped ⟨line, cond, nodes, []⟩ := ⟨hframe, hnodes, nofun⟩
      exact ih (.singleton (hhead.finish nofun)) hrest
    | elseIfBody head line cond =>
      exact ih (.singleton ((hframe.1.addElseIf hframe.2 hnodes).finish nofun)) hrest
    | elseBody head line => exact ih (.singleton (IfHead.Shaped.finishElse hframe hnodes)) hrest
    | foreachBody head => exact ih (.singleton (parsedAs_foreach hframe hnodes)) hrest

/-- The state after a complete statement is sound. -/
theorem sound_deliver {nodes : List Node} {stack : List StatementFrame}
    {fault : Option SourceError}
    (h : fault = none → AllParsed nodes ∧ ∀ frame ∈ stack, frame.Shaped) :
    ParserState.Sound ⟨(deliver nodes stack).1, (deliver nodes stack).2, fault⟩ :=
  ⟨deliver_agrees nodes stack fault, fun hfault => deliver_shaped (h hfault).1 (h hfault).2⟩

/-! ### Tokens of a program -/

theorem ExprState.shaped_start (fault : Option SourceError) : (ExprState.start fault).Shaped :=
  ⟨nofun, nofun, trivial⟩

/-- The state at the start of an expression is sound. -/
theorem sound_start {context : ExprContext} {stack : List StatementFrame}
    {fault : Option SourceError}
    (h : fault = none → context.Shaped ∧ ∀ frame ∈ stack, frame.Shaped) :
    ParserState.Sound ⟨.expression context (.start fault), stack, fault⟩ :=
  ⟨rfl, fun hfault => ⟨⟨(h hfault).1, ExprState.shaped_start fault⟩, (h hfault).2⟩⟩

/-- An expression that ends is put to its use, and the parser is as it should be. -/
theorem sound_finish {context : ExprContext} {operand : Operand} {fault : Option SourceError}
    {lexeme : Lexeme} {stack : List StatementFrame} {next : ParserState}
    (h : fault = none → context.Shaped ∧ operand.Shaped ∧ ∀ frame ∈ stack, frame.Shaped)
    (hnext : context.finish? operand fault lexeme stack = some next) : next.Sound := by
  unfold ExprContext.finish? at hnext
  split at hnext <;> cases hnext
  · refine sound_deliver fun hfault => ?_
    obtain ⟨-, hoperand, hstack⟩ := h hfault
    exact ⟨.singleton (ParsedAs.asStatement hoperand), hstack⟩
  · refine sound_start fun hfault => ?_
    obtain ⟨hcontext, hoperand, hstack⟩ := h hfault
    exact ⟨List.forall_mem_cons.mpr ⟨hoperand, hcontext⟩, hstack⟩
  · refine sound_deliver fun hfault => ?_
    obtain ⟨hcontext, hoperand, hstack⟩ := h hfault
    have hexprs : ∀ node ∈ operand.node :: _, node.ParsedAs .operand :=
      List.forall_mem_cons.mpr ⟨hoperand, hcontext⟩
    refine ⟨.singleton (Node.parsedAs_mk.mpr ⟨rfl, List.forall_mem_map.mpr ?_⟩), hstack⟩
    exact fun node hnode => hexprs node (List.mem_reverse.mp hnode)
  · refine sound_deliver fun hfault => ?_
    obtain ⟨-, hoperand, hstack⟩ := h hfault
    refine ⟨.singleton (Node.parsedAs_mk.mpr ⟨rfl, ?_⟩), hstack⟩
    exact List.forall_mem_singleton.mpr hoperand
  · refine ⟨trivial, fun hfault => ?_⟩
    obtain ⟨-, hoperand, hstack⟩ := h hfault
    exact ⟨trivial, List.forall_mem_cons.mpr ⟨hoperand, hstack⟩⟩
  · refine ⟨trivial, fun hfault => ?_⟩
    obtain ⟨hcontext, hoperand, hstack⟩ := h hfault
    exact ⟨trivial, List.forall_mem_cons.mpr ⟨⟨hcontext, hoperand⟩, hstack⟩⟩
  · refine ⟨trivial, fun hfault => ?_⟩
    obtain ⟨-, hoperand, hstack⟩ := h hfault
    exact ⟨hoperand, hstack⟩
  all_goals
    refine ⟨trivial, fun hfault => ?_⟩
    obtain ⟨hcontext, hoperand, hstack⟩ := h hfault
    exact ⟨FunctionHead.Shaped.addParam hcontext (List.forall_mem_singleton.mpr hoperand), hstack⟩

/-- A token that continues an expression leaves the parser as it should be. -/
theorem sound_expressionStep {context : ExprContext} {inner : ExprState}
    {stack : List StatementFrame} {token : Token} {next : ParserState}
    (htoken : token.lexeme.isUnsigned = true)
    (h : inner.fault = none → context.Shaped ∧ inner.Shaped ∧ ∀ frame ∈ stack, frame.Shaped)
    (hnext : expressionStep context inner stack token = some next) : next.Sound := by
  have hkeeps := inner.keeps_step htoken
  unfold expressionStep at hnext
  split at hnext
  · rename_i after hstep
    cases hnext
    rw [hstep] at hkeeps
    refine ⟨rfl, fun hfault => ?_⟩
    obtain ⟨hbefore, hafter⟩ := hkeeps hfault
    obtain ⟨hcontext, hinner, hstack⟩ := h hbefore
    exact ⟨⟨hcontext, hafter hinner⟩, hstack⟩
  · rename_i operand fault hstep
    rw [hstep] at hkeeps
    refine sound_finish (fun hfault => ?_) hnext
    obtain ⟨hbefore, hoperand⟩ := hkeeps hfault
    obtain ⟨hcontext, hinner, hstack⟩ := h hbefore
    exact ⟨hcontext, hoperand hinner, hstack⟩
  · cases hnext

/-- A brace that closes a list of statements leaves the parser as it should be. -/
theorem sound_closeList {stack : List StatementFrame} {fault : Option SourceError}
    {next : ParserState} (h : fault = none → ∀ frame ∈ stack, frame.Shaped)
    (hnext : closeList? stack fault = some next) : next.Sound := by
  unfold closeList? at hnext
  split at hnext
  · cases hnext
    refine sound_deliver fun hfault => ?_
    obtain ⟨hlist, hrest⟩ := List.forall_mem_cons.mp (h hfault)
    exact ⟨hlist.2.reverse, hrest⟩
  · cases hnext
    refine sound_deliver fun hfault => ?_
    obtain ⟨hlist, hrest⟩ := List.forall_mem_cons.mp (h hfault)
    exact ⟨.singleton (FunctionHead.Shaped.finish hlist.1 hlist.2.reverse), hrest⟩
  · cases hnext

/-- A token at the start of a statement leaves the parser as it should be. -/
theorem sound_statementStep {stack : List StatementFrame} {fault : Option SourceError}
    {token : Token} {next : ParserState} (htoken : token.lexeme.isUnsigned = true)
    (h : fault = none → ∀ frame ∈ stack, frame.Shaped)
    (hnext : statementStep stack fault token = some next) : next.Sound := by
  unfold statementStep at hnext
  split at hnext
  · cases hnext
    exact sound_start fun hfault => ⟨nofun, h hfault⟩
  · cases hnext
    exact ⟨trivial, fun hfault => ⟨trivial, h hfault⟩⟩
  · cases hnext
    exact ⟨trivial, fun hfault => ⟨trivial, h hfault⟩⟩
  · cases hnext
    exact ⟨trivial, fun hfault => ⟨trivial, h hfault⟩⟩
  · cases hnext
    exact ⟨trivial, fun hfault => ⟨trivial, h hfault⟩⟩
  · cases hnext
    refine ⟨trivial, fun hfault => ⟨trivial, ?_⟩⟩
    exact List.forall_mem_cons.mpr ⟨⟨trivial, nofun⟩, h hfault⟩
  · exact sound_closeList h hnext
  · cases hnext
    exact sound_deliver fun hfault => ⟨.singleton (Node.parsedAs_mk.mpr ⟨rfl, nofun⟩), h hfault⟩
  · refine sound_expressionStep htoken (fun hfault => ?_) hnext
    exact ⟨trivial, ExprState.shaped_start fault, h hfault⟩

/-- A token keeps the state of the parser sound. -/
theorem ParserState.Sound.step {state next : ParserState} {token : Token} (h : state.Sound)
    (htoken : token.lexeme.isUnsigned = true) (hnext : state.step token = some next) :
    next.Sound := by
  obtain ⟨mode, stack, fault⟩ := state
  obtain ⟨hagrees, hshaped⟩ := h
  have hstack : fault = none → ∀ frame ∈ stack, frame.Shaped := fun hfault => (hshaped hfault).2
  unfold ParserState.step at hnext
  simp only at hnext hagrees hshaped
  split at hnext
  · exact sound_statementStep htoken hstack hnext
  · cases hnext
    exact ⟨trivial, hshaped⟩
  · cases hnext
    refine ⟨trivial, fun hfault => ⟨trivial, ?_⟩⟩
    exact List.forall_mem_cons.mpr (hshaped hfault)
  · refine sound_statementStep htoken (fun hfault => ?_) hnext
    obtain ⟨hhead, hstack⟩ := hshaped hfault
    exact deliverAll_shaped (.singleton (IfHead.Shaped.finish hhead nofun)) hstack
  · cases hnext
    exact sound_start hshaped
  · refine sound_expressionStep htoken (fun hfault => ?_) hnext
    obtain ⟨⟨hcontext, hinner⟩, hstack⟩ := hshaped (hagrees ▸ hfault)
    exact ⟨hcontext, hinner, hstack⟩
  · cases hnext
    refine sound_deliver fun hfault => ⟨.singleton ?_, hstack hfault⟩
    exact Node.parsedAs_mk.mpr ⟨rfl, nofun⟩
  · refine sound_expressionStep htoken (fun hfault => ?_) hnext
    exact ⟨trivial, ExprState.shaped_start fault, hstack hfault⟩
  · cases hnext
    exact ⟨trivial, hshaped⟩
  · cases hnext
    exact ⟨trivial, fun hfault => ⟨nofun, hstack hfault⟩⟩
  · cases hnext
    exact ⟨trivial, hshaped⟩
  · cases hnext
    exact ⟨trivial, hshaped⟩
  · cases hnext
    exact sound_start hshaped
  · cases hnext
    refine ⟨trivial, fun hfault => ⟨?_, hstack hfault⟩⟩
    exact FunctionHead.Shaped.addParam (hshaped hfault).1 nofun
  · cases hnext
    refine ⟨trivial, fun hfault => ⟨?_, hstack hfault⟩⟩
    exact FunctionHead.Shaped.addParam (hshaped hfault).1 nofun
  · cases hnext
    refine ⟨trivial, fun hfault => ⟨trivial, ?_⟩⟩
    exact List.forall_mem_cons.mpr ⟨⟨(hshaped hfault).1, nofun⟩, hstack hfault⟩
  · cases hnext
    exact ⟨trivial, hshaped⟩
  · cases hnext
    exact ⟨trivial, hshaped⟩
  · cases hnext
    exact ⟨trivial, fun hfault => ⟨trivial, List.forall_mem_cons.mpr (hshaped hfault)⟩⟩
  · cases hnext
    exact ⟨trivial, hshaped⟩
  · cases hnext
    exact ⟨trivial, fun hfault => ⟨trivial, List.forall_mem_cons.mpr (hshaped hfault)⟩⟩
  · cases hnext

/-! ## Whole texts -/

theorem ParserState.sound_initial : ParserState.start.Sound := by
  refine ⟨trivial, fun _ => ⟨trivial, ?_⟩⟩
  exact List.forall_mem_singleton.mpr ⟨trivial, List.forall_mem_nil _⟩

/-- Between two statements a program may end if it is the only open statement. -/
theorem ParserState.finish?_statement (stack : List StatementFrame) (fault : Option SourceError)
    {nodes : List Node} :
    (⟨.statement, stack, fault⟩ : ParserState).finish? = some nodes ↔
      stack = [.list .program nodes.reverse] := by
  unfold ParserState.finish?
  dsimp only
  split
  · simp [List.reverse_eq_iff]
  · rename_i hother
    simpa using hother nodes.reverse

/-- At the end of a text without a fault, the statements are as they should be. -/
theorem ParserState.Sound.finish {state : ParserState} {nodes : List Node} (h : state.Sound)
    (hfault : state.fault = none) (hnodes : state.finish? = some nodes) : AllParsed nodes := by
  obtain ⟨mode, stack, fault⟩ := state
  obtain ⟨hmode, hstack⟩ := h.shaped hfault
  have hlast : ∀ {stack : List StatementFrame}, (∀ frame ∈ stack, frame.Shaped) →
      (⟨.statement, stack, fault⟩ : ParserState).finish? = some nodes → AllParsed nodes := by
    intro stack hstack hnodes
    rw [(ParserState.finish?_statement _ _).mp hnodes] at hstack
    exact nodes.reverse_reverse ▸ (List.forall_mem_singleton.mp hstack).2.reverse
  cases mode with
  | statement => exact hlast hstack hnodes
  | clauses head =>
    have hif : (head.finish none).ParsedAs .statement :=
      hmode.finish fun inner hinner => absurd hinner (Option.not_mem_none inner)
    exact hlast (deliverAll_shaped (.singleton hif) hstack) hnodes
  | _ => cases hnodes

theorem readTokens_of_foldlM {tokens : List Token} {state final : ParserState}
    (h : tokens.foldlM ParserState.step state = some final) (last : Option Token) :
    ∃ token, readTokens state last tokens = readTokens final token [] := by
  induction tokens generalizing state last with
  | nil =>
    cases h
    exact ⟨last, rfl⟩
  | cons token rest ih =>
    rw [List.foldlM_cons] at h
    obtain ⟨next, hnext, hrest⟩ := Option.bind_eq_some_iff.mp h
    obtain ⟨found, hfound⟩ := ih hrest (some token)
    refine ⟨found, ?_⟩
    rw [← hfound, readTokens, hnext]

/-- Reading tokens from a sound state gives shaped statements. -/
theorem allParsed_of_readTokens {state : ParserState} {last : Option Token}
    {tokens : List Token} {nodes : List Node} (h : state.Sound)
    (htokens : ∀ token ∈ tokens, token.lexeme.isUnsigned = true)
    (hnodes : readTokens state last tokens = .ok nodes) : AllParsed nodes := by
  induction tokens generalizing state last with
  | nil =>
    rw [readTokens] at hnodes
    split at hnodes
    · rename_i found hfinish
      split at hnodes
      · cases hnodes
      · rename_i hfault
        cases hnodes
        exact h.finish hfault hfinish
    · cases hnodes
  | cons token rest ih =>
    rw [readTokens] at hnodes
    split at hnodes
    · rename_i next hnext
      obtain ⟨htoken, hrest⟩ := List.forall_mem_cons.mp htokens
      exact ih (h.step htoken hnext) hrest hnodes
    · cases hnodes

/-- What parsing gives has been read from the tokens of the text, and reads no element that `[]`
    would append. -/
theorem parse_eq_ok {source : String} {nodes : List Node} (h : parse source = .ok nodes) :
    readTokens .start none (tokens (expandTags source.toList)) = .ok nodes ∧
      appendReadList? nodes = none := by
  unfold parse rejectAppendReads at h
  cases hread : readTokens .start none (tokens (expandTags source.toList)) with
  | error error =>
    rw [hread] at h
    cases h
  | ok found =>
    rw [hread] at h
    simp only [bind, Except.bind] at h
    split at h
    · cases h
    · rename_i happend
      cases h
      exact ⟨rfl, happend⟩

/-- The statements of a text that parses are as they should be. -/
theorem allParsed_of_parse {source : String} {nodes : List Node} (h : parse source = .ok nodes) :
    AllParsed nodes :=
  allParsed_of_readTokens ParserState.sound_initial (fun _ => isUnsigned_of_mem_tokensFrom)
    (parse_eq_ok h).1

end

/-- All nodes of a list are statements. -/
def AllStatements (nodes : List Node) : Prop := ∀ node ∈ nodes, node.ShapedAs .statement

/-- Parsing gives shaped statements. -/
theorem allStatements_of_parse {source : String} {nodes : List Node}
    (h : parse source = .ok nodes) : AllStatements nodes :=
  fun node hnode => (allParsed_of_parse h node hnode).toShapedAs

/-- Parsing gives no integer that does not fit in 64 bits. -/
theorem literalsFit_of_parse {source : String} {nodes : List Node}
    (h : parse source = .ok nodes) : ∀ node ∈ nodes, node.LiteralsFit :=
  fun node hnode => (allParsed_of_parse h node hnode).literals

/-- Every node that parsing gives has a line, and so has every part of one. -/
theorem lined_of_parse {source : String} {nodes : List Node} (h : parse source = .ok nodes) :
    ∀ node ∈ nodes, node.Lined :=
  fun node hnode => (allParsed_of_parse h node hnode).lined

end WebScript
