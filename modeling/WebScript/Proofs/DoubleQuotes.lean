import WebScript.Proofs.EffectFree
import WebScript.Proofs.Joining
import WebScript.Proofs.Loops

/-!
# Double-quoted strings

In double quotes a text is spelled with a backslash before backslashes, quotes and dollars, and a
variable in braces stands for its value. A string that is spelled in this way is one token, and it is
read as pieces in which every character stands for itself (`piecesFrom_spelled`). Evaluated, it is
the texts and the values one after another.
-/

namespace WebScript

open Eval (bind_of_ok bind_of_error)

/-! ## Spelling -/

/-- The form of a character inside double quotes. -/
def escapeDouble (c : Char) : List Char :=
  if c = '\\' || c = '"' || c = '$' then ['\\', c] else [c]

/-- A variable in braces. -/
def spelledVariable (name : String) : List Char := '{' :: '$' :: name.toList ++ ['}']

/-- Variables, each with the text that follows it. -/
def spelledRest (rest : List (String × List Char)) : List Char :=
  rest.flatMap fun (name, text) => spelledVariable name ++ text.flatMap escapeDouble

/-- What stands between double quotes for a text and variables with further texts. -/
def spelled (first : List Char) (rest : List (String × List Char)) : List Char :=
  first.flatMap escapeDouble ++ spelledRest rest

theorem spelledRest_cons (name : String) (text : List Char) (rest : List (String × List Char)) :
    spelledRest ((name, text) :: rest) = spelledVariable name ++ spelled text rest := by
  rw [spelled, ← List.append_assoc]
  rfl

/-! ## One token -/

/-- No quote of an escaped text closes it. -/
theorem keepsOpen_escapeDouble (text : List Char) : KeepsOpen '"' (text.flatMap escapeDouble) := by
  refine KeepsOpen.flatMap fun c _ => ?_
  unfold escapeDouble
  split
  · exact .escaped c (by decide)
  · rename_i hc
    simp only [Bool.or_eq_true, decide_eq_true_eq, not_or] at hc
    exact .singleton hc.1.2 hc.1.1

theorem keepsOpen_spelledVariable {name : String} (h : IsName name) :
    KeepsOpen '"' (spelledVariable name) := by
  refine KeepsOpen.plain fun c hc => ?_
  simp only [spelledVariable, List.cons_append, List.mem_cons, List.mem_append, List.not_mem_nil,
    or_false] at hc
  rcases hc with rfl | rfl | hc | rfl
  · decide
  · decide
  · have hpart := h.isNamePart c hc
    refine ⟨?_, ?_⟩ <;>
      · rintro rfl
        exact absurd hpart (by decide)
  · decide

/-- A spelled string is passed over up to the quote that closes it. -/
theorem keepsOpen_spelled (first : List Char) {rest : List (String × List Char)}
    (hnames : ∀ entry ∈ rest, IsName entry.1) : KeepsOpen '"' (spelled first rest) :=
  (keepsOpen_escapeDouble first).append (.flatMap fun entry hentry =>
    (keepsOpen_spelledVariable (hnames entry hentry)).append (keepsOpen_escapeDouble entry.2))

/-- What is passed over between double quotes is one token. -/
theorem scan_double {raw : List Char} (h : KeepsOpen '"' raw) (tail : List Char) :
    scan '"' (raw ++ ['"'] ++ tail) = (some (.double raw), (raw ++ ['"']).length) := by
  have hclosing : stringSize? '"' (raw ++ ['"'] ++ tail) = some ((raw ++ ['"']).length) := by
    show closingQuote? '"' (raw ++ ['"'] ++ tail) = _
    rw [List.append_assoc, List.singleton_append, h.closes, List.length_append]
    rfl
  have hname : isNameStart '"' = false := by decide
  rw [scan_eq, hclosing, floatLength_of_symbol (by decide) (by decide),
    intLength_eq_zero (by decide)]
  simp [hname]

/-! ## Pieces -/

theorem piecesFrom_skip (chars rest : List Char) :
    piecesFrom chars.length (chars ++ rest) = piecesFrom 0 rest := by
  induction chars with
  | nil => rfl
  | cons c more ih =>
    rw [List.length_cons, List.cons_append, piecesFrom]
    exact ih

/-- A piece that takes characters of a text is followed by the pieces of the text behind them. -/
theorem piecesFrom_piece {c : Char} (taken : List Char) {rest : List Char} {first : Piece}
    (h : piece c (taken ++ rest) = .ok (first, taken.length)) :
    piecesFrom 0 (c :: taken ++ rest) = (piecesFrom 0 rest).map (first :: ·) := by
  rw [List.cons_append, piecesFrom, h, ← piecesFrom_skip taken rest]
  show (piecesFrom taken.length (taken ++ rest) >>= fun others => pure (first :: others)) = _
  cases piecesFrom taken.length (taken ++ rest) <;> rfl

/-- No escaped text starts with a variable. -/
theorem head?_escapeDouble_ne_dollar (text : List Char) {rest : List Char}
    (hrest : rest.head? ≠ some '$') :
    (text.flatMap escapeDouble ++ rest).head? ≠ some '$' := by
  cases text with
  | nil => exact hrest
  | cons c more =>
    rw [List.flatMap_cons]
    unfold escapeDouble
    split
    · simp
    · rename_i hc
      simp only [Bool.or_eq_true, decide_eq_true_eq, not_or] at hc
      simpa using hc.2

/-- An escaped text that no dollar follows stands for its characters. -/
theorem piecesFrom_escapeDouble (text : List Char) {rest : List Char}
    (hrest : rest.head? ≠ some '$') :
    piecesFrom 0 (text.flatMap escapeDouble ++ rest) =
      (piecesFrom 0 rest).map (text.map Piece.char ++ ·) := by
  induction text with
  | nil =>
    show piecesFrom 0 rest = (piecesFrom 0 rest).map id
    cases piecesFrom 0 rest <;> rfl
  | cons c more ih =>
    have hnext := head?_escapeDouble_ne_dollar more hrest
    have hmap : (piecesFrom 0 rest).map ((c :: more).map Piece.char ++ ·) =
        ((piecesFrom 0 rest).map (more.map Piece.char ++ ·)).map (Piece.char c :: ·) := by
      cases piecesFrom 0 rest <;> rfl
    rw [List.flatMap_cons, List.append_assoc, hmap, ← ih]
    generalize more.flatMap escapeDouble ++ rest = following at hnext
    unfold escapeDouble
    split
    · rename_i hc
      refine piecesFrom_piece [c] ?_
      simp only [Bool.or_eq_true, decide_eq_true_eq] at hc
      rcases hc with (rfl | rfl) | rfl <;> rfl
    · rename_i hc
      refine piecesFrom_piece [] ?_
      simp only [Bool.or_eq_true, decide_eq_true_eq, not_or] at hc
      obtain ⟨⟨hbackslash, -⟩, hdollar⟩ := hc
      unfold piece
      rw [if_neg hbackslash, if_neg hdollar]
      split
      · split
        · rename_i inner heq
          rw [List.nil_append] at heq
          rw [heq] at hnext
          exact absurd rfl hnext
        · rfl
      · rfl

/-- A name is taken up to the brace behind it. -/
theorem leadingName_append {name : String} (h : IsName name) (rest : List Char) :
    leadingName (name.toList ++ '}' :: rest) = name.toList := by
  have htake : (name.toList ++ '}' :: rest).takeWhile isNamePart = name.toList :=
    takeWhile_word h.isNamePart fun c hc => Option.some.inj hc ▸ by decide
  obtain ⟨first, more, hname, hfirst, -⟩ := h
  unfold leadingName
  rw [htake, hname]
  simp [hfirst]

/-- A variable in braces is one piece. -/
theorem piecesFrom_spelledVariable {name : String} (h : IsName name) (rest : List Char) :
    piecesFrom 0 (spelledVariable name ++ rest) =
      (piecesFrom 0 rest).map (.variable name :: ·) := by
  refine piecesFrom_piece ('$' :: name.toList ++ ['}']) ?_
  have htail : '$' :: name.toList ++ ['}'] ++ rest = '$' :: (name.toList ++ '}' :: rest) := by simp
  have hne : name.toList.isEmpty = false := by
    obtain ⟨first, more, hname, -⟩ := h
    rw [hname]
    rfl
  rw [htail]
  show (if !(leadingName (name.toList ++ '}' :: rest)).isEmpty && _ then _ else _) = _
  rw [leadingName_append h, hne]
  simp

/-- The pieces that a spelled string is read as. -/
def spelledPieces (first : List Char) (rest : List (String × List Char)) : List Piece :=
  first.map .char ++ rest.flatMap fun (name, text) => .variable name :: text.map .char

/-- A spelled string falls into the characters of its texts and its variables. -/
theorem piecesFrom_spelled (first : List Char) {rest : List (String × List Char)}
    (hnames : ∀ entry ∈ rest, IsName entry.1) :
    piecesFrom 0 (spelled first rest) = .ok (spelledPieces first rest) := by
  induction rest generalizing first with
  | nil =>
    unfold spelled
    rw [piecesFrom_escapeDouble first (by simp [spelledRest])]
    rfl
  | cons entry rest ih =>
    obtain ⟨name, text⟩ := entry
    have hrest : piecesFrom 0 (spelledRest ((name, text) :: rest)) =
        .ok (.variable name :: spelledPieces text rest) := by
      rw [spelledRest_cons, piecesFrom_spelledVariable (hnames _ List.mem_cons_self),
        ih text fun other hother => hnames other (List.mem_cons_of_mem _ hother)]
      rfl
    have hhead : (spelledRest ((name, text) :: rest)).head? ≠ some '$' := by
      rw [spelledRest_cons]
      simp [spelledVariable]
    rw [spelled, piecesFrom_escapeDouble first hhead, hrest]
    rfl

/-! ## Operands -/

/-- The parts that a text makes: none if it is empty. -/
def textParts : List Char → List StringPart
  | [] => []
  | text => [.text text]

/-- The parts that variables make, each with the text that follows it. -/
def restParts (rest : List (String × List Char)) : List StringPart :=
  rest.flatMap fun (name, text) => .variable name :: textParts text

/-- Characters one after another are joined to one text, and none to no text. -/
theorem joinPieces_text (text : List Char) {pieces : List Piece}
    (h : ∀ c, pieces.head? ≠ some (.char c)) :
    joinPieces (text.map .char ++ pieces) = textParts text ++ joinPieces pieces := by
  induction text with
  | nil => rfl
  | cons c more ih =>
    rw [List.map_cons, List.cons_append, joinPieces, ih]
    cases more with
    | cons d others => rfl
    | nil =>
      cases pieces with
      | nil => rfl
      | cons piece others =>
        cases piece with
        | char d => exact absurd rfl (h d)
        | «variable» name => rfl

/-- The parts of a spelled string are its texts, where they are not empty, and its variables. -/
theorem joinPieces_spelledPieces (first : List Char) (rest : List (String × List Char)) :
    joinPieces (spelledPieces first rest) = textParts first ++ restParts rest := by
  induction rest generalizing first with
  | nil => exact joinPieces_text first nofun
  | cons entry rest ih =>
    obtain ⟨name, text⟩ := entry
    have hpieces : spelledPieces first ((name, text) :: rest) =
        first.map .char ++ .variable name :: spelledPieces text rest := by
      simp [spelledPieces]
    have hhead : ∀ c, (Piece.variable name :: spelledPieces text rest).head? ≠ some (.char c) :=
      nofun
    rw [hpieces, joinPieces_text first hhead, joinPieces, ih]
    rfl

/-- A spelled string is the concatenation of its first text with the operands that follow. -/
theorem doubleLiteral_spelled (first : List Char) {rest : List (String × List Char)}
    (hnames : ∀ entry ∈ rest, IsName entry.1) (line : Option Int) :
    doubleLiteral (spelled first rest) line =
      .ok (concatAll line ⟨line, .str (String.ofList first)⟩
        ((restParts rest).map (StringPart.toNode line))) := by
  unfold doubleLiteral
  simp only [piecesFrom_spelled first hnames, bind, Except.bind, joinPieces_spelledPieces]
  cases first with
  | cons c more => rfl
  | nil =>
    cases rest with
    | nil => rfl
    | cons entry rest => rfl

/-! ## Values -/

theorem Value.text_result (value : Value) : value.text.result = .ok value.scalarText := by
  cases value <;> rfl

/-- What is reported where a value is used as a text. -/
def Value.textEvents (value : Value) : List Event := (value.text.warnings.map Event.warning).reverse

/-- The text that an operand adds, for given values of variables. -/
def StringPart.textIn (value : String → Value) : StringPart → String
  | .text chars => String.ofList chars
  | .variable name => (value name).scalarText

section

variable {config : Config} {deeper : Node → Eval Value} {line : Option Int}
  {left right : Node} {machine middle after : Machine} {text : String}

theorem evalAs_concat (reading : Reading) (line : Option Int) (left right : Node) :
    Node.evalAs config deeper reading ⟨line, .binary .concat left right⟩ =
      Eval.located line (left.evalAs config deeper .strict >>= fun leftValue =>
        right.evalAs config deeper .strict >>= fun rightValue =>
          Eval.ofNoted (BinaryOperator.concat.apply leftValue rightValue)) := by
  rw [Node.evalAs]
  · cases config.shortCircuit <;> rfl
  · nofun

/-- Joining a value to a text reports what is reported when the value becomes a text. -/
theorem ofNoted_concat (text : String) (value : Value) (machine : Machine) :
    Eval.ofNoted (BinaryOperator.concat.apply (.str text) value) machine =
      .ok (.str (text ++ value.scalarText)) (machine.withEvents value.textEvents) := by
  have happly : BinaryOperator.concat.apply (.str text) value =
      ⟨value.text.warnings, .ok (.str (text ++ value.scalarText))⟩ := by
    cases value <;> rfl
  rw [happly]
  rfl

/-- The text of a right operand is joined to that of a left one, whatever has been reported
    before. -/
theorem evalAs_concat_ok {value : Value} (reading : Reading)
    (hleft : left.evalAs config deeper .strict machine = .ok (.str text) middle)
    (hright : right.evalAs config deeper .strict middle = .ok value after) :
    Node.evalAs config deeper reading ⟨line, .binary .concat left right⟩ machine =
      .ok (.str (text ++ value.scalarText)) (after.withEvents value.textEvents) := by
  rw [evalAs_concat]
  simp only [Eval.located, bind_of_ok _ hleft, bind_of_ok _ hright, ofNoted_concat]

theorem evalAs_variable_unbound {name : String} (h : machine.scope.get? name = none) :
    Node.evalAs config deeper .strict ⟨line, .variable name⟩ machine =
      .error (.fault (.error (.unboundVariable name) line)) machine := by
  have hget : machine.scope.get name = .error (.unboundVariable name) := by
    unfold Scope.get
    rw [h]
  have hread : Eval.readVariable name machine =
      .error (.fault (.error (.unboundVariable name) none)) machine := by
    show Eval.ofCause (machine.scope.get name) machine = _
    rw [hget]
    rfl
  show Eval.located line (Eval.readVariable name) machine = _
  simp only [Eval.located, hread]
  rfl

/-- An error that has its line keeps it further out. -/
theorem locate_located (cause : Cause) (line : Option Int) :
    (Exit.fault (.error cause line)).locate line = .fault (.error cause line) := by
  cases line <;> rfl

/-- Concatenation to a text adds the texts of the operands. -/
theorem evalAs_concatAll_ok (line : Option Int) {value : String → Value}
    {parts : List StringPart} {first : Node} {events : List Event}
    (hfirst : ∀ reading, first.evalAs config deeper reading machine =
      .ok (.str text) (machine.withEvents events))
    (hbound : ∀ name, .variable name ∈ parts → machine.scope.get? name = some (value name)) :
    ∃ more, ∀ reading, (concatAll line first (parts.map (StringPart.toNode line))).evalAs config
        deeper reading machine =
      .ok (.str (text ++ String.join (parts.map (StringPart.textIn value))))
        (machine.withEvents more) := by
  induction parts generalizing first text events with
  | nil =>
    refine ⟨events, fun reading => (hfirst reading).trans ?_⟩
    simp
  | cons part rest ih =>
    have hrest : ∀ name, .variable name ∈ rest → machine.scope.get? name = some (value name) :=
      fun name hname => hbound name (List.mem_cons_of_mem _ hname)
    obtain ⟨found, hpart, htext⟩ : ∃ found : Value,
        (part.toNode line).evalAs config deeper .strict (machine.withEvents events) =
          .ok found (machine.withEvents events) ∧ found.scalarText = part.textIn value := by
      cases part with
      | text chars => exact ⟨.str (String.ofList chars), rfl, rfl⟩
      | «variable» name => exact ⟨value name, evalAs_variable (hbound name List.mem_cons_self), rfl⟩
    have hnext : ∀ reading, Node.evalAs config deeper reading
        ⟨line, .binary .concat first (part.toNode line)⟩ machine =
          .ok (.str (text ++ part.textIn value))
            (machine.withEvents (found.textEvents ++ events)) := by
      intro reading
      rw [evalAs_concat_ok reading (hfirst .strict) hpart, htext, Machine.withEvents_withEvents]
    obtain ⟨more, hrun⟩ := ih hnext hrest
    refine ⟨more, fun reading => (hrun reading).trans ?_⟩
    rw [List.map_cons, String.join_cons, String.append_assoc]

/-- An operand that fails makes all of the joining fail, for the others come after it. -/
theorem evalAs_concatAll_error {cause : Cause} {first : Node}
    (hfirst : ∀ reading, first.evalAs config deeper reading machine =
      .error (.fault (.error cause line)) after) (operands : List Node) (reading : Reading) :
    (concatAll line first operands).evalAs config deeper reading machine =
      .error (.fault (.error cause line)) after := by
  induction operands generalizing first with
  | nil => exact hfirst reading
  | cons operand rest ih =>
    refine ih fun reading => ?_
    rw [evalAs_concat]
    simp only [Eval.located, bind_of_error _ (hfirst .strict), locate_located]

/-- Concatenation to a text stops at the first variable without a value. -/
theorem evalAs_concatAll_unbound {value : String → Value} {done more : List StringPart}
    {name : String} (hbound : ∀ name, .variable name ∈ done →
      machine.scope.get? name = some (value name))
    (hunbound : machine.scope.get? name = none) (text : String) (reading : Reading) :
    ∃ events, (concatAll line ⟨line, .str text⟩
        ((done ++ .variable name :: more).map (StringPart.toNode line))).evalAs config deeper
          reading machine =
      .error (.fault (.error (.unboundVariable name) line)) (machine.withEvents events) := by
  have hfirst : ∀ reading, Node.evalAs config deeper reading ⟨line, .str text⟩ machine =
      .ok (.str text) (machine.withEvents []) := fun _ => by rw [Node.evalAs]; rfl
  obtain ⟨events, hdone⟩ := evalAs_concatAll_ok line hfirst hbound
  have hstop : ∀ reading, Node.evalAs config deeper reading ⟨line, .binary .concat
      (concatAll line ⟨line, .str text⟩ (done.map (StringPart.toNode line)))
        ⟨line, .variable name⟩⟩ machine =
      .error (.fault (.error (.unboundVariable name) line)) (machine.withEvents events) := by
    intro reading
    have hname : Node.evalAs config deeper .strict ⟨line, .variable name⟩
        (machine.withEvents events) = _ := evalAs_variable_unbound hunbound
    rw [evalAs_concat]
    simp only [Eval.located, bind_of_ok _ (hdone .strict), bind_of_error _ hname, locate_located]
  refine ⟨events, ?_⟩
  have hwhole : concatAll line ⟨line, .str text⟩
      ((done ++ .variable name :: more).map (StringPart.toNode line)) =
        concatAll line ⟨line, .binary .concat
          (concatAll line ⟨line, .str text⟩ (done.map (StringPart.toNode line)))
            ⟨line, .variable name⟩⟩ (more.map (StringPart.toNode line)) := by
    rw [List.map_append, concatAll, List.foldl_append]
    rfl
  rw [hwhole, evalAs_concatAll_error hstop]

end

/-! ## Spelled strings -/

theorem variable_mem_restParts {name : String} {rest : List (String × List Char)}
    (h : .variable name ∈ restParts rest) : ∃ text, (name, text) ∈ rest := by
  obtain ⟨⟨other, text⟩, hentry, hpart⟩ := List.mem_flatMap.mp h
  rcases List.mem_cons.mp hpart with heq | htext
  · cases heq
    exact ⟨text, hentry⟩
  · cases text with
    | nil => cases htext
    | cons c more => cases List.mem_singleton.mp htext

/-- Texts that are empty, which make no part, add nothing. -/
theorem join_restParts (value : String → Value) (rest : List (String × List Char)) :
    String.join ((restParts rest).map (StringPart.textIn value)) =
      String.join (rest.map fun (name, text) => (value name).scalarText ++ String.ofList text) := by
  induction rest with
  | nil => rfl
  | cons entry rest ih =>
    obtain ⟨name, text⟩ := entry
    have hparts : restParts ((name, text) :: rest) =
        .variable name :: (textParts text ++ restParts rest) := rfl
    rw [hparts, List.map_cons, List.map_append, List.map_cons, String.join_cons, String.join_cons,
      String.join_append, ih, ← String.append_assoc]
    congr 2
    cases text with
    | nil => rfl
    | cons c more => simp [textParts, StringPart.textIn]

/-- A string in double quotes decodes what it spells. For texts with variables between them, escaped
    and in braces, the string is one token. Its literal evaluates to the first text followed by the
    texts of the variables' values and the further texts, and changes no variable, wherever all
    variables have values; elsewhere it names the first one without. A text alone is itself. -/
theorem double_quotes_decode (first : List Char) (rest : List (String × List Char))
    (hnames : ∀ entry ∈ rest, IsName entry.1) :
    (∀ position tail, tokensFrom 0 position ('"' :: spelled first rest ++ '"' :: tail) =
      ⟨.double (spelled first rest), String.ofList ('"' :: spelled first rest ++ ['"']),
        position.line, position.column⟩ ::
        tokensFrom 0 (('"' :: spelled first rest ++ ['"']).foldl Position.advance position) tail) ∧
    ∀ line, ∃ node, doubleLiteral (spelled first rest) line = .ok node ∧
      (rest = [] → node = ⟨line, .str (String.ofList first)⟩) ∧
      ∀ (config : Config) (deeper : Node → Eval Value) (reading : Reading) (machine : Machine),
        (∀ value : String → Value,
          (∀ entry ∈ rest, machine.scope.get? entry.1 = some (value entry.1)) →
          ∃ (shown : String → String) (events : List Event),
            (∀ entry ∈ rest, (value entry.1).text.result = .ok (shown entry.1)) ∧
            node.evalAs config deeper reading machine =
              .ok (.str (String.ofList first ++ String.join
                  (rest.map fun (name, text) => shown name ++ String.ofList text)))
                (machine.withEvents events)) ∧
        ∀ done name text more, rest = done ++ (name, text) :: more →
          (∀ entry ∈ done, (machine.scope.get? entry.1).isSome) →
          machine.scope.get? name = none →
          ∃ events, node.evalAs config deeper reading machine =
            .error (.fault (.error (.unboundVariable name) line)) (machine.withEvents events) := by
  refine ⟨fun position tail => ?_, fun line => ?_⟩
  · have hopen := keepsOpen_spelled first hnames
    have hscan := scan_double hopen tail
    rw [List.append_assoc, List.singleton_append] at hscan
    have htoken : '"' :: spelled first rest ++ ['"'] = '"' :: (spelled first rest ++ ['"']) := rfl
    have htext : spelled first rest ++ '"' :: tail = spelled first rest ++ ['"'] ++ tail := by simp
    rw [List.cons_append, tokensFrom_cons, hscan, htoken, htext]
    simp only [tokensFrom_skip, List.take_left, List.foldl_cons]
  refine ⟨_, doubleLiteral_spelled first hnames line, ?_,
    fun config deeper reading machine => ⟨?_, ?_⟩⟩
  · rintro rfl
    rfl
  · intro value hvalue
    have hfirst : ∀ reading, Node.evalAs config deeper reading
        ⟨line, .str (String.ofList first)⟩ machine =
          .ok (.str (String.ofList first)) (machine.withEvents []) :=
      fun _ => by rw [Node.evalAs]; rfl
    have hbound : ∀ name, .variable name ∈ restParts rest →
        machine.scope.get? name = some (value name) := by
      intro name hname
      obtain ⟨text, hentry⟩ := variable_mem_restParts hname
      exact hvalue _ hentry
    obtain ⟨events, hrun⟩ := evalAs_concatAll_ok line hfirst hbound
    refine ⟨fun name => (value name).scalarText, events, fun entry _ => Value.text_result _, ?_⟩
    rw [hrun reading, join_restParts]
  · rintro done name text more rfl hdone hname
    have hparts : restParts (done ++ (name, text) :: more) =
        restParts done ++ .variable name :: (textParts text ++ restParts more) :=
      List.flatMap_append
    have hbound : ∀ other, .variable other ∈ restParts done →
        machine.scope.get? other = some ((machine.scope.get? other).getD .null) := by
      intro other hother
      obtain ⟨otherText, hentry⟩ := variable_mem_restParts hother
      obtain ⟨value, hvalue⟩ := Option.isSome_iff_exists.mp (hdone _ hentry)
      rw [hvalue]
      rfl
    rw [hparts]
    exact evalAs_concatAll_unbound hbound hname _ reading

/-- `"\\n{{$x}1\$\"{$y}"` reads a backslash, an `n` and a brace, then the value of `$x` and more
    text. Where `$x` is an integer and `$y` has no value, it is `$y` that is missed. -/
theorem double_quotes_decode_braces :
    let rest : List (String × List Char) := [("x", ['1', '$', '"']), ("y", [])]
    let scope (bindings : Dict String Value) : Machine := ⟨⟨bindings, 0⟩, .empty, none, "", [], 0⟩
    spelled ['\\', 'n', '{'] rest = "\\\\n\x7b\x7b$x\x7d1\\$\\\"\x7b$y\x7d".toList ∧
      ∃ node, doubleLiteral (spelled ['\\', 'n', '{'] rest) (some 1) = .ok node ∧
        (∃ events, node.evalAs {} (evalWithin {} 0) .strict
            (scope [("y", .bool true), ("x", .int (-2))]) =
          .ok (.str "\\n\x7b-21$\"1")
            ((scope [("y", .bool true), ("x", .int (-2))]).withEvents events)) ∧
        ∃ events, node.evalAs {} (evalWithin {} 0) .strict (scope [("x", .int 3)]) =
          .error (.fault (.error (.unboundVariable "y") (some 1)))
            ((scope [("x", .int 3)]).withEvents events) := by
  intro rest scope
  have hnames : ∀ entry ∈ rest, IsName entry.1 := by
    refine List.forall_mem_cons.mpr ⟨⟨'x', [], rfl, by decide, nofun⟩,
      List.forall_mem_singleton.mpr ⟨'y', [], rfl, by decide, nofun⟩⟩
  obtain ⟨-, hliteral⟩ := double_quotes_decode ['\\', 'n', '{'] rest hnames
  obtain ⟨node, hnode, -, hevaluates⟩ := hliteral (some 1)
  refine ⟨by decide, node, hnode, ?_, ?_⟩
  · obtain ⟨hbound, -⟩ := hevaluates {} (evalWithin {} 0) .strict
      (scope [("y", .bool true), ("x", .int (-2))])
    obtain ⟨shown, events, hshown, hrun⟩ :=
      hbound (fun name => if name = "x" then .int (-2) else .bool true)
        (List.forall_mem_cons.mpr ⟨rfl, List.forall_mem_singleton.mpr rfl⟩)
    have hx : "-2" = shown "x" := Except.ok.inj (hshown _ List.mem_cons_self)
    have hy : "1" = shown "y" := Except.ok.inj (hshown ("y", []) (by simp [rest]))
    have htext : String.ofList ['\\', 'n', '{'] ++ String.join
        ["-2" ++ String.ofList ['1', '$', '"'], "1" ++ String.ofList []] =
          "\\n\x7b-21$\"1" := by
      decide
    refine ⟨events, ?_⟩
    rw [hrun, ← htext, hx, hy]
    rfl
  · obtain ⟨-, hunbound⟩ := hevaluates {} (evalWithin {} 0) .strict (scope [("x", .int 3)])
    exact hunbound [("x", ['1', '$', '"'])] "y" [] [] rfl (List.forall_mem_singleton.mpr rfl) rfl

end WebScript
