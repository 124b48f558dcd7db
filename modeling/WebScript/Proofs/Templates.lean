import WebScript.Proofs.CloseTags
import WebScript.Proofs.Concatenation

/-!
# Code between inline texts

In a source with an open and a close tag the code between them is read as by itself, and the text
around it is printed as it stands: escaped, scanned and read, an inline text is itself again. A
source with tags becomes code alone (`expandTags_template`), whose tokens are those of the
statements that print the inline texts and those of the code between them (`readsAs_template`).
-/

namespace WebScript

/-! ## Templates as code -/

theorem splitOpenTag_takeLineEnd {text : List Char} (h : splitOpenTag text = none) :
    splitOpenTag (takeLineEnd text).2 = none := by
  unfold takeLineEnd
  split
  · exact (splitOpenTag_eq_none_cons.mp (splitOpenTag_eq_none_cons.mp h).2).2
  · exact (splitOpenTag_eq_none_cons.mp h).2
  · exact h

/-- Code up to the only close tag, and then inline text: its line end stays with the tag. -/
theorem codeSegments_closeTag {text code after : List Char}
    (hclose : splitCloseTag .code text = some (code, [], after))
    (hafter : splitOpenTag after = none) :
    codeSegments text =
      [.code code, .cutComment [], .closeTag (takeLineEnd after).1,
        .inline (takeLineEnd after).2] := by
  rw [codeSegments_closed hclose, inlineSegments, splitOpenTag_takeLineEnd hafter]

/-- The code that a text with one open and one close tag becomes. -/
theorem expandTags_template {before code after : List Char} (hbefore : splitOpenTag before = none)
    (hafter : splitOpenTag after = none)
    (hclose : splitCloseTag .code (code ++ '?' :: '>' :: after) = some (code, [], after)) :
    expandTags (before ++ '<' :: '?' :: 'p' :: 'h' :: 'p' :: ' ' :: (code ++ '?' :: '>' :: after)) =
      inlineEcho before ++ (List.replicate 6 ' ' ++ (code ++ ';' :: (' ' :: (takeLineEnd after).1 ++
        inlineEcho (takeLineEnd after).2))) := by
  have htag : ∀ more, splitOpenTag ('<' :: '?' :: 'p' :: 'h' :: 'p' :: ' ' :: more) =
      some ([], ['<', '?', 'p', 'h', 'p', ' '], more) := fun _ => rfl
  rw [expandTags, segments, splitOpenTag_append (by decide) hbefore, htag]
  simp only [Option.map_some]
  rw [codeSegments_closeTag hclose hafter]
  simp [Segment.toCode, blankOut]

/-! ## Tokens that are read as statements -/

/-- Tokens are read as statements, up to their lines, wherever a program may end. -/
def ReadsAs (tokens : List Token) (nodes : List Node) : Prop :=
  ∀ (state : ParserState) (done : List Node), state.settled? = some [.list .program done] →
    state.fault = none →
      ∃ (final : ParserState) (read : List Node),
        tokens.foldlM ParserState.step state = some final ∧
        final.settled? = some [.list .program (read.reverse ++ done)] ∧ final.fault = none ∧
        read.map Node.eraseLines = nodes.map Node.eraseLines

/-- Tokens of statements one after another are read as the statements of both. -/
theorem ReadsAs.append {first second : List Token} {nodes others : List Node}
    (hfirst : ReadsAs first nodes) (hsecond : ReadsAs second others) :
    ReadsAs (first ++ second) (nodes ++ others) := by
  intro state done hsettled hfault
  obtain ⟨middle, read, hmiddle, hend, hendFault, hread⟩ := hfirst state done hsettled hfault
  obtain ⟨final, more, hfinal, hlast, hlastFault, hmore⟩ := hsecond middle _ hend hendFault
  refine ⟨final, read ++ more, ?_, ?_, hlastFault, ?_⟩
  · rw [List.foldlM_append, hmiddle]
    exact hfinal
  · rw [hlast, List.reverse_append, List.append_assoc]
  · rw [List.map_append, List.map_append, hread, hmore]

theorem Settled.settled?_eq {kind : ListKind} {done : List Node} {rest : List StatementFrame}
    {state : ParserState} (h : Settled kind done rest state) :
    state.settled? = some (.list kind done :: rest) ∧ state.fault = none := by
  rcases h with rfl | ⟨head, before, rfl, rfl⟩
  · exact ⟨rfl, rfl⟩
  · exact ⟨rfl, rfl⟩

/-- The tokens of printed statements are read as these. -/
theorem readsAs_statements {tokens : List Token} {nodes : List Node}
    (hnodes : ∀ node ∈ nodes, node.StatementReadable)
    (hlexemes : tokens.map Token.lexeme = statementsLexemes nodes) : ReadsAs tokens nodes := by
  intro state done hsettled hfault
  have hreads := reads_statements hnodes
    (show Settled .program done [] ⟨.statement, [.list .program done], none⟩ from .inl rfl)
  rw [← hlexemes] at hreads
  obtain ⟨middle, hmiddle, read, hread, hend⟩ := hreads.foldlM
  obtain ⟨hmiddleSettled, hmiddleFault⟩ := hend.settled?_eq
  obtain ⟨final, hfinal, hsame, hsameFault⟩ := foldlM_of_settled? hsettled hfault hmiddle
  exact ⟨final, read, hfinal, hsame.trans hmiddleSettled, hsameFault.trans hmiddleFault, hread⟩

/-- The tokens of an accepted text are read as its statements wherever the text starts. -/
theorem readsAs_of_parse {code : String} {nodes : List Node} {position : Position}
    (hcode : splitOpenTag code.toList = none) (h : parse code = .ok nodes)
    (hline : 1 ≤ position.line) : ReadsAs (tokensFrom 0 position code.toList) nodes := by
  intro state done hsettled hfault
  obtain ⟨line, column⟩ := position
  obtain ⟨k, rfl⟩ := Nat.exists_eq_add_of_le hline
  obtain ⟨final, hfinal, hend, hendFault⟩ :=
    foldlM_of_parse hcode h hsettled hfault k column
  exact ⟨final, _, hfinal, hend, hendFault, by simp⟩

/-- Tokens that are read as statements are well joined. -/
theorem ReadsAs.wellJoined {tokens : List Token} {nodes : List Node} (h : ReadsAs tokens nodes) :
    WellJoined (tokens.map Token.lexeme) := by
  obtain ⟨final, read, hfinal, -⟩ := h .start [] rfl rfl
  exact wellJoined_of_foldlM hfinal

/-- A text whose tokens are read as statements parses to them, up to lines. -/
theorem parse_of_readsAs {source : String} {nodes : List Node}
    (h : ReadsAs (tokens (expandTags source.toList)) nodes)
    (happend : appendReadList? nodes = none) :
    ∃ result, parse source = .ok result ∧
      result.map Node.eraseLines = nodes.map Node.eraseLines := by
  obtain ⟨final, read, hfinal, hend, hfault, hread⟩ := h .start [] rfl rfl
  rw [List.append_nil] at hend
  exact ⟨read, parse_eq_ok_iff.mpr ⟨final, hfinal, hend, hfault,
    appendReadList?_of_eraseLines hread happend⟩, hread⟩

/-! ## Inline text -/

/-- The statement that prints an inline text, without lines. -/
def inlineNodes (text : List Char) : List Node :=
  if text.isEmpty then [] else [⟨none, .echo [⟨none, .str (String.ofList text)⟩]⟩]

theorem statementReadable_inlineNodes (text : List Char) :
    ∀ node ∈ inlineNodes text, node.StatementReadable := by
  intro node hnode
  unfold inlineNodes at hnode
  split at hnode
  · cases hnode
  · obtain rfl := List.mem_singleton.mp hnode
    exact statementReadable_echo none (List.cons_ne_nil _ _)
      (List.forall_mem_singleton.mpr (readable_str none _))

theorem appendRead?_inlineNodes (text : List Char) :
    ∀ node ∈ inlineNodes text, node.appendRead? false = none := by
  intro node hnode
  unfold inlineNodes at hnode
  split at hnode
  · cases hnode
  · obtain rfl := List.mem_singleton.mp hnode
    rfl

theorem lexemes_inlineNodes {text : List Char} (h : text.isEmpty = false) :
    statementsLexemes (inlineNodes text) =
      [.keyword .echo, .single (text.flatMap escapeSingle), .semicolon] := by
  rw [inlineNodes, h]
  show [Lexeme.keyword .echo, .single ((String.ofList text).toList.flatMap escapeSingle),
    .semicolon] = _
  rw [String.toList_ofList]

/-- The code that stands for inline text has the tokens of an `echo` of it. -/
theorem tokensFrom_inlineEcho (text more : List Char) (position : Position) :
    ∃ echoes : List Token, echoes.map Token.lexeme = statementsLexemes (inlineNodes text) ∧
      tokensFrom 0 position (inlineEcho text ++ more) =
        echoes ++ tokensFrom 0 ((inlineEcho text).foldl Position.advance position) more := by
  cases hempty : text.isEmpty with
  | true =>
    exact ⟨[], by simp [inlineNodes, hempty, statementsLexemes], by simp [inlineEcho, hempty]⟩
  | false =>
    generalize hquoted : text.flatMap escapeSingle ++ ['\''] = quoted
    have hwhole : ∀ tail, inlineEcho text ++ tail =
        'e' :: ['c', 'h', 'o'] ++ ([' '] ++ ('\'' :: quoted ++ (';' :: [] ++ tail))) := by
      simp [inlineEcho, hempty, ← hquoted]
    have hecho : ∀ tail, scan 'e' (['c', 'h', 'o'] ++ ([' '] ++ tail)) =
        (some (.keyword .echo), 3) := fun tail =>
      scan_word rfl (List.all_eq_true.mp (by decide)) fun c hc => Option.some.inj hc ▸ rfl
    have hstring : ∀ tail, scan '\'' (quoted ++ tail) =
        (some (.single (text.flatMap escapeSingle)), quoted.length) := by
      intro tail
      rw [← hquoted, scan_single, List.length_append, List.length_singleton]
    have hsemicolon : ∀ tail, scan ';' ([] ++ tail) = (some .semicolon, 0) := scan_mark (by decide)
    obtain ⟨word, hword, hwordTokens⟩ :=
      tokensFrom_scan (hecho ('\'' :: quoted ++ (';' :: [] ++ more))) position
    obtain ⟨string, hstringLexeme, hstringTokens⟩ := tokensFrom_scan (hstring (';' :: [] ++ more))
      ([' '].foldl Position.advance (['e', 'c', 'h', 'o'].foldl Position.advance position))
    obtain ⟨semicolon, hsemicolonLexeme, hsemicolonTokens⟩ := tokensFrom_scan (hsemicolon more)
      (('\'' :: quoted).foldl Position.advance
        ([' '].foldl Position.advance (['e', 'c', 'h', 'o'].foldl Position.advance position)))
    refine ⟨[word, string, semicolon], ?_, ?_⟩
    · rw [lexemes_inlineNodes hempty, ← hword, ← hstringLexeme, ← hsemicolonLexeme]
      rfl
    · have hblank : ∀ c ∈ [' '], isTokenBlank c := List.forall_mem_singleton.mpr rfl
      have hend := hwhole []
      rw [List.append_nil, List.append_nil] at hend
      rw [hwhole, hwordTokens, tokensFrom_blanks hblank, hstringTokens,
        hsemicolonTokens, hend, List.foldl_append, List.foldl_append, List.foldl_append]
      rfl

/-- These tokens are read as that statement; there are none for no text. -/
theorem readsAs_inlineEcho {tokens : List Token} {text : List Char}
    (h : tokens.map Token.lexeme = statementsLexemes (inlineNodes text)) :
    ReadsAs tokens (inlineNodes text) :=
  readsAs_statements (statementReadable_inlineNodes text) h

/-! ## Whole templates -/

theorem isTokenBlank_lineEnd (text : List Char) : ∀ c ∈ (takeLineEnd text).1, isTokenBlank c := by
  unfold takeLineEnd
  split
  · exact List.forall_mem_cons.mpr ⟨rfl, List.forall_mem_singleton.mpr rfl⟩
  · exact List.forall_mem_singleton.mpr rfl
  · nofun

/-- The code that a template becomes is read as what stands before the open tag, in it and behind
    the close tag. -/
theorem readsAs_template {code : String} {nodes : List Node}
    (hcode : splitOpenTag code.toList = none) (hparse : parse code = .ok nodes)
    (hline : endsInLineComment code.toList = false)
    {blanks lineEnd : List Char} (hblanks : ∀ c ∈ blanks, isTokenBlank c)
    (hlineEnd : ∀ c ∈ lineEnd, isTokenBlank c) (before after : List Char) :
    ReadsAs
      (tokens (inlineEcho before ++
        (blanks ++ (code.toList ++ ';' :: (lineEnd ++ inlineEcho after)))))
      (inlineNodes before ++ (nodes ++ (⟨none, .nop⟩ :: inlineNodes after))) := by
  obtain ⟨first, hfirst, hfirstTokens⟩ := tokensFrom_inlineEcho before
    (blanks ++ (code.toList ++ ';' :: (lineEnd ++ inlineEcho after))) ⟨1, 1⟩
  generalize hposition : blanks.foldl Position.advance
    ((inlineEcho before).foldl Position.advance ⟨1, 1⟩) = position at hfirstTokens
  have hstart : 1 ≤ position.line := by
    rw [← hposition, line_foldl_advance, line_foldl_advance]
    exact Nat.le_add_right_of_le (Nat.le_add_right 1 _)
  have hread := readsAs_of_parse hcode hparse hstart
  have hsemicolon : ∀ tail, scan ';' ([] ++ tail) = (some .semicolon, 0) := scan_mark (by decide)
  obtain ⟨nop, hnop, hnopTokens⟩ := tokensFrom_scan (hsemicolon (lineEnd ++ inlineEcho after))
    (code.toList.foldl Position.advance position)
  obtain ⟨last, hlast, hlastTokens⟩ := tokensFrom_inlineEcho after []
    (lineEnd.foldl Position.advance ([';'].foldl Position.advance
      (code.toList.foldl Position.advance position)))
  have hcodeTokens : tokensFrom 0 position (code.toList ++ ';' :: (lineEnd ++ inlineEcho after)) =
      tokensFrom 0 position code.toList ++ nop :: last := by
    rw [List.append_nil] at hlastTokens
    rw [List.singleton_append] at hnopTokens
    rw [tokensFrom_stop endsTokens_semicolon hread.wellJoined (.inr hline), hnopTokens,
      tokensFrom_blanks hlineEnd, hlastTokens, tokensFrom, List.append_nil]
  have hend : ReadsAs (nop :: last) (⟨none, .nop⟩ :: inlineNodes after) := by
    refine readsAs_statements (List.forall_mem_cons.mpr
      ⟨statementReadable_nop none, statementReadable_inlineNodes after⟩) ?_
    rw [List.map_cons, hnop, hlast]
    rfl
  rw [tokens, hfirstTokens, tokensFrom_blanks hblanks, hposition, hcodeTokens]
  exact (readsAs_inlineEcho hfirst).append (hread.append hend)

/-- Template law. Take accepted code without an open tag, in which no close tag shows outside string
    literals and block comments and which does not end inside a line comment, and texts without
    open tags around it. The code between an open and a close tag, with these texts before and
    behind it, is accepted. Up to lines it is an `echo` of the first text, then the statements of
    the code, an empty statement, and an `echo` of the second text without a line end at its start;
    an empty text has no `echo`. -/
theorem parse_template (before code after : String) (nodes : List Node)
    (hbefore : splitOpenTag before.toList = none) (hcode : splitOpenTag code.toList = none)
    (hafter : splitOpenTag after.toList = none) (hparse : parse code = .ok nodes)
    (hshows : ¬ ShowsCloseTag code.toList) (hline : endsInLineComment code.toList = false) :
    ∃ result, parse (before ++ "<?php " ++ code ++ "?>" ++ after) = .ok result ∧
      result.map Node.eraseLines =
        (inlineNodes before.toList ++ (nodes ++
          (⟨none, .nop⟩ :: inlineNodes (takeLineEnd after.toList).2))).map Node.eraseLines := by
  have hread : ReadsAs (tokensFrom 0 ⟨1, 1⟩ code.toList) nodes :=
    readsAs_of_parse hcode hparse (Nat.le_refl 1)
  have hpasses := passesOver_code hread.wellJoined hline hshows ('>' :: after.toList)
  have hclose : splitCloseTag .code (code.toList ++ '?' :: '>' :: after.toList) =
      some (code.toList, [], after.toList) := by
    rw [hpasses]
    show some (code.toList ++ [], [], after.toList) = _
    rw [List.append_nil]
  have hchars : (before ++ "<?php " ++ code ++ "?>" ++ after).toList =
      before.toList ++
        '<' :: '?' :: 'p' :: 'h' :: 'p' :: ' ' :: (code.toList ++ '?' :: '>' :: after.toList) := by
    simp [String.toList_append]
  refine parse_of_readsAs ?_ ?_
  · rw [hchars, expandTags_template hbefore hafter hclose]
    exact readsAs_template hcode hparse hline (fun c hc => List.eq_of_mem_replicate hc ▸ rfl)
      (List.forall_mem_cons.mpr ⟨rfl, isTokenBlank_lineEnd _⟩) _ _
  · obtain ⟨-, -, -, -, happend⟩ := parse_eq_ok_iff.mp hparse
    rw [appendReadList?_eq_none_iff] at happend ⊢
    exact List.forall_mem_append.mpr ⟨appendRead?_inlineNodes _, List.forall_mem_append.mpr
      ⟨happend, List.forall_mem_cons.mpr ⟨rfl, appendRead?_inlineNodes _⟩⟩⟩

theorem parse_template_quotes :
    ∃ result,
      parse ("it's \\\n" ++ "<?php " ++ "echo '?>'; /* ' ?> */ # \"\n" ++ "?>" ++ "\r\n<b>") =
          .ok result ∧
        result.map Node.eraseLines =
          [⟨none, .echo [⟨none, .str "it's \\\n"⟩]⟩, ⟨none, .echo [⟨none, .str "?>"⟩]⟩,
            ⟨none, .nop⟩, ⟨none, .echo [⟨none, .str "<b>"⟩]⟩] := by
  have hparse : parse "echo '?>'; /* ' ?> */ # \"\n" =
      .ok [⟨some 1, .echo [⟨some 1, .str "?>"⟩]⟩] := by
    have htokens : tokens (expandTags "echo '?>'; /* ' ?> */ # \"\n".toList) =
        [⟨.keyword .echo, "echo", 1, 1⟩, ⟨.single ['?', '>'], "'?>'", 1, 6⟩,
          ⟨.semicolon, ";", 1, 10⟩] := by
      decide +kernel
    rw [parse, htokens]
    rfl
  obtain ⟨result, hresult, herased⟩ := parse_template "it's \\\n" _ "\r\n<b>" _ (by decide)
    (by decide) (by decide) hparse (by decide +kernel) (by decide +kernel)
  exact ⟨result, hresult, herased.trans rfl⟩

end WebScript
