import Mathlib
import WebScript.Source.Tags

/-!
# Lines of code between tags

A source is cut into pieces, and each piece becomes code with as many line ends as it had. So
whatever stands in front of a piece of code, the code stays on the lines on which it was written.
-/

namespace WebScript

/-! ## Where a source is cut -/

theorem eq_append_of_openTag? {text tag after : List Char}
    (h : openTag? text = some (tag, after)) : text = tag ++ after := by
  unfold openTag? at h
  split at h
  · split at h
    · split at h
      · cases h
        rfl
      · split at h
        · cases h
          rfl
        · cases h
    · cases h
  · cases h

/-- A text is what stands before its first open tag, the tag, and what stands behind it. -/
theorem eq_append_of_splitOpenTag {text before tag after : List Char}
    (h : splitOpenTag text = some (before, tag, after)) : text = before ++ (tag ++ after) := by
  induction text generalizing before with
  | nil => cases h
  | cons c rest ih =>
    rw [splitOpenTag] at h
    split at h
    · rename_i hopen
      cases h
      rw [List.nil_append]
      exact eq_append_of_openTag? hopen
    · rw [Option.map_eq_some_iff] at h
      obtain ⟨⟨skipped, foundTag, following⟩, hrest, hparts⟩ := h
      cases hparts
      rw [ih hrest, List.cons_append]

theorem openTag?_of_splitOpenTag {text before tag after : List Char}
    (h : splitOpenTag text = some (before, tag, after)) :
    openTag? (tag ++ after) = some (tag, after) := by
  induction text generalizing before with
  | nil => cases h
  | cons c rest ih =>
    rw [splitOpenTag] at h
    split at h
    · rename_i hopen
      cases h
      rw [← eq_append_of_openTag? hopen, hopen]
    · rw [Option.map_eq_some_iff] at h
      obtain ⟨⟨skipped, foundTag, following⟩, hrest, hparts⟩ := h
      cases hparts
      exact ih hrest

theorem splitCloseTag.prepend_text (chars : List Char)
    (parts : List Char × List Char × List Char) :
    (prepend chars parts).1 ++ (prepend chars parts).2.1 = chars ++ (parts.1 ++ parts.2.1) :=
  List.append_assoc _ _ _

theorem splitCloseTag.prependComment_text (chars : List Char)
    (parts : List Char × List Char × List Char) :
    (prependComment chars parts).1 ++ (prependComment chars parts).2.1 =
      chars ++ (parts.1 ++ parts.2.1) := by
  obtain ⟨code, comment, after⟩ := parts
  cases code with
  | nil => rfl
  | cons c rest => exact List.append_assoc _ _ _

/-- The scanner for the close tag takes code, a comment and the tag from the start of a text. -/
theorem eq_append_of_splitCloseTag {mode : CodeMode} {text : List Char}
    {parts : List Char × List Char × List Char} (h : splitCloseTag mode text = some parts) :
    text = parts.1 ++ parts.2.1 ++ '?' :: '>' :: parts.2.2 := by
  fun_induction splitCloseTag mode text generalizing parts with
  | case1 => cases h
  | case4 rest | case12 rest =>
    cases h
    rfl
  | case3 rest ih | case6 rest _ _ _ _ ih | case14 c rest _ _ ih =>
    obtain ⟨inner, hinner, rfl⟩ := Option.map_eq_some_iff.mp h
    rw [splitCloseTag.prependComment_text, splitCloseTag.prependComment_after, ih hinner]
    rfl
  | _ =>
    obtain ⟨inner, hinner, rfl⟩ := Option.map_eq_some_iff.mp h
    rename_i ih
    rw [splitCloseTag.prepend_text, splitCloseTag.prepend_after, ih hinner]
    rfl

/-- Taking a line end off a text loses nothing. -/
theorem takeLineEnd_append (text : List Char) :
    (takeLineEnd text).1 ++ (takeLineEnd text).2 = text := by
  unfold takeLineEnd
  split <;> rfl

/-! ## Rows of pieces -/

/-- The pieces of a text that starts outside of code. -/
def inlineSegments (text : List Char) : List Segment :=
  match splitOpenTag text with
  | none => [.inline text]
  | some (inline, tag, after) => .inline inline :: .openTag tag :: codeSegments after

theorem codeSegments_nil : codeSegments [] = [] := by
  rw [codeSegments]
  rfl

theorem codeSegments_unclosed {text : List Char} (hne : text ≠ [])
    (h : splitCloseTag .code text = none) : codeSegments text = [.code text] := by
  rw [codeSegments, if_neg (mt List.isEmpty_iff.mp hne)]
  split
  · rfl
  · rename_i hclose
    cases h.symm.trans hclose

theorem codeSegments_closed {text code comment after : List Char}
    (h : splitCloseTag .code text = some (code, comment, after)) :
    codeSegments text = .code code :: .cutComment comment :: .closeTag (takeLineEnd after).1 ::
      inlineSegments (takeLineEnd after).2 := by
  have hne : text ≠ [] := by
    rintro rfl
    cases h
  rw [codeSegments, if_neg (mt List.isEmpty_iff.mp hne)]
  split
  · rename_i hclose
    cases h.symm.trans hclose
  · rename_i hclose
    cases h.symm.trans hclose
    unfold inlineSegments
    split
    · rename_i hopen
      rw [hopen]
      rfl
    · rename_i hopen
      rw [hopen]
      rfl

theorem expandTags_eq_self {text : List Char} (h : splitOpenTag text = none) :
    expandTags text = text := by
  rw [expandTags, segments, h]
  exact List.append_nil text

/-- A source starts with inline text, if it has an open tag, and goes on as code. -/
theorem segments_of_openTag {text inline tag after : List Char}
    (h : splitOpenTag text = some (inline, tag, after)) :
    segments text = .inline inline :: .openTag tag :: codeSegments after := by
  rw [segments, h]

/-- The text from which a row of pieces was cut. -/
def sourceText (row : List Segment) : List Char := row.flatMap Segment.toSource

/-- The code that a row of pieces becomes. -/
def codeText (row : List Segment) : List Char := row.flatMap Segment.toCode

theorem sourceText_cons (segment : Segment) (row : List Segment) :
    sourceText (segment :: row) = segment.toSource ++ sourceText row := rfl

/-- The segments of inline text and the code after it lose nothing. -/
theorem sourceText_inlineSegments {text : List Char}
    (h : ∀ inline tag after, splitOpenTag text = some (inline, tag, after) →
      sourceText (codeSegments after) = after) : sourceText (inlineSegments text) = text := by
  unfold inlineSegments
  split
  · exact List.append_nil text
  · rename_i hopen
    rw [sourceText_cons, sourceText_cons, h _ _ _ hopen]
    exact (eq_append_of_splitOpenTag hopen).symm

/-- The pieces of a text that starts with code are all of it, in order. -/
theorem sourceText_codeSegments (text : List Char) : sourceText (codeSegments text) = text := by
  induction text using codeSegments.induct with
  | case1 text hempty =>
    rw [List.isEmpty_iff.mp hempty, codeSegments_nil]
    rfl
  | case2 text hne hclose =>
    rw [codeSegments_unclosed (mt List.isEmpty_iff.mpr hne) hclose]
    exact List.append_nil text
  | case3 text hne code comment after hclose ih =>
    rw [codeSegments_closed hclose, sourceText_cons, sourceText_cons, sourceText_cons,
      sourceText_inlineSegments ih]
    calc code ++ (comment ++ ('?' :: '>' :: (takeLineEnd after).1 ++ (takeLineEnd after).2))
      _ = code ++ comment ++ '?' :: '>' :: after := by
        rw [List.cons_append, List.cons_append, takeLineEnd_append, List.append_assoc]
      _ = text := (eq_append_of_splitCloseTag hclose).symm

theorem sourceText_segments (source : List Char) : sourceText (segments source) = source := by
  cases hopen : splitOpenTag source with
  | none =>
    rw [segments, hopen]
    exact List.append_nil source
  | some parts =>
    obtain ⟨inline, tag, after⟩ := parts
    rw [segments_of_openTag hopen, sourceText_cons, sourceText_cons, sourceText_codeSegments]
    exact (eq_append_of_splitOpenTag hopen).symm

/-! ## Pieces of code -/

/-- A piece of code in a row stands behind an open tag. What comes then is the next close tag, with
    the line comment that it cuts short, or, where there is no close tag, the end. -/
structure StandsBetweenTags (before : List Segment) (code : List Char) (after : List Segment) :
    Prop where
  opened : ∃ row tag, before = row ++ [.openTag tag] ∧
    openTag? (tag ++ (code ++ sourceText after)) = some (tag, code ++ sourceText after)
  closed : (splitCloseTag .code code = none ∧ after = []) ∨
    ∃ comment lineEnd row, after = .cutComment comment :: .closeTag lineEnd :: row ∧
      splitCloseTag .code (code ++ sourceText after) =
        some (code, comment, lineEnd ++ sourceText row)

/-- More segments in front leave code between its tags. -/
theorem StandsBetweenTags.behind {before after : List Segment} {code : List Char}
    (h : StandsBetweenTags before code after) (row : List Segment) :
    StandsBetweenTags (row ++ before) code after := by
  obtain ⟨first, tag, rfl, htag⟩ := h.opened
  exact ⟨⟨row ++ first, tag, (List.append_assoc _ _ _).symm, htag⟩, h.closed⟩

theorem exists_rest_of_ne_code {segment : Segment} {row before after : List Segment}
    {code : List Char} (h : segment :: row = before ++ .code code :: after)
    (hne : segment ≠ .code code) :
    ∃ rest, before = segment :: rest ∧ row = rest ++ .code code :: after := by
  rcases List.cons_eq_append_iff.mp h with ⟨-, hcode⟩ | hrest
  · exact absurd (List.cons.inj hcode).1.symm hne
  · exact hrest

/-- Code behind an open tag goes up to a close tag or to the end of the text. -/
theorem standsBetweenTags_codeSegments {text tag : List Char} {before after : List Segment}
    {code : List Char} (htag : openTag? (tag ++ text) = some (tag, text))
    (h : .openTag tag :: codeSegments text = before ++ .code code :: after) :
    StandsBetweenTags before code after := by
  induction text using codeSegments.induct generalizing tag before with
  | case1 text hempty =>
    obtain ⟨rest, -, hrest⟩ := exists_rest_of_ne_code h nofun
    rw [List.isEmpty_iff.mp hempty, codeSegments_nil] at hrest
    cases rest <;> cases hrest
  | case2 text hne hclose =>
    obtain ⟨rest, rfl, hrest⟩ := exists_rest_of_ne_code h nofun
    rw [codeSegments_unclosed (mt List.isEmpty_iff.mpr hne) hclose] at hrest
    rcases List.cons_eq_append_iff.mp hrest with ⟨rfl, hcode⟩ | ⟨more, -, hmore⟩
    · cases hcode
      refine ⟨⟨[], tag, rfl, ?_⟩, Or.inl ⟨hclose, rfl⟩⟩
      rwa [sourceText, List.flatMap_nil, List.append_nil]
    · cases more <;> cases hmore
  | case3 text hne kept comment following hclose ih =>
    obtain ⟨rest, rfl, hrest⟩ := exists_rest_of_ne_code h nofun
    have hsource := sourceText_codeSegments text
    rw [codeSegments_closed hclose] at hrest hsource
    rcases List.cons_eq_append_iff.mp hrest with ⟨rfl, hcode⟩ | ⟨more, rfl, hmore⟩
    · -- The piece is the first one.
      cases hcode
      rw [sourceText_cons] at hsource
      refine ⟨⟨[], tag, rfl, hsource ▸ htag⟩, Or.inr ⟨comment, _, _, rfl, ?_⟩⟩
      rw [sourceText_inlineSegments fun _ _ _ _ => sourceText_codeSegments _, takeLineEnd_append,
        ← hclose]
      exact congrArg (splitCloseTag .code) hsource
    · -- The piece stands behind the next open tag.
      obtain ⟨rest, rfl, hcomment⟩ := exists_rest_of_ne_code hmore nofun
      obtain ⟨more, rfl, hinline⟩ := exists_rest_of_ne_code hcomment nofun
      unfold inlineSegments at hinline
      split at hinline
      · obtain ⟨last, -, hlast⟩ := exists_rest_of_ne_code hinline nofun
        cases last <;> cases hlast
      · rename_i hopen
        obtain ⟨next, rfl, hnext⟩ := exists_rest_of_ne_code hinline nofun
        exact (ih _ _ _ hopen (openTag?_of_splitOpenTag hopen) hnext).behind
          [.openTag tag, .code kept, .cutComment comment, .closeTag _, .inline _]

/-! ## Line ends -/

/-- The code that stands for inline text has the line ends of that text. -/
theorem count_inlineEcho (text : List Char) : (inlineEcho text).count '\n' = text.count '\n' := by
  unfold inlineEcho
  split
  · rename_i hempty
    rw [List.isEmpty_iff.mp hempty]
  · have hescaped : (text.flatMap escapeSingle).count '\n' = text.count '\n' := by
      clear * -
      induction text with
      | nil => rfl
      | cons c rest ih =>
        have hc : (escapeSingle c).count '\n' = [c].count '\n' := by
          unfold escapeSingle
          split
          · exact List.count_cons_of_ne (by decide)
          · rfl
        rw [List.flatMap_cons, List.count_append, ih, hc, ← List.count_append,
          List.singleton_append]
    simp [hescaped]

/-- Blanking out a tag keeps its line ends. -/
theorem count_blankOut (text : List Char) : (blankOut text).count '\n' = text.count '\n' := by
  unfold blankOut
  induction text with
  | nil => rfl
  | cons c rest ih =>
    by_cases hc : c = '\n' <;> simp [hc, ih]

/-- Each piece becomes code with as many line ends as it had. -/
theorem Segment.count_toCode (segment : Segment) :
    segment.toCode.count '\n' = segment.toSource.count '\n' := by
  cases segment with
  | inline text => exact count_inlineEcho text
  | openTag text => exact count_blankOut text
  | code text => rfl
  | cutComment text => exact count_blankOut text
  | closeTag lineEnd => simp [toCode, toSource]

theorem count_codeText (row : List Segment) :
    (codeText row).count '\n' = (sourceText row).count '\n' := by
  unfold codeText sourceText
  rw [List.count_flatMap, List.count_flatMap]
  exact congrArg List.sum (List.map_congr_left fun segment _ => segment.count_toCode)

/-- A source without an open tag is code as it stands. In general, a source and the code that it
    becomes have equally many line ends. For each piece of code, which stands between an open tag
    and the next close tag or the end, this is so of what comes before it as well. -/
theorem expandTags_keeps_lines (source : List Char) :
    (splitOpenTag source = none → expandTags source = source) ∧
    (expandTags source).count '\n' = source.count '\n' ∧
    ∀ before code after, segments source = before ++ .code code :: after →
      (splitOpenTag source = none ∨ StandsBetweenTags before code after) ∧
      source = sourceText before ++ code ++ sourceText after ∧
      expandTags source = codeText before ++ code ++ codeText after ∧
      (codeText before).count '\n' = (sourceText before).count '\n' := by
  have hsource := sourceText_segments source
  refine ⟨expandTags_eq_self, ?_, fun before code after hrow => ⟨?_, ?_, ?_, count_codeText before⟩⟩
  · show (codeText (segments source)).count '\n' = _
    rw [count_codeText, hsource]
  · cases hopen : splitOpenTag source with
    | none => exact Or.inl rfl
    | some parts =>
      obtain ⟨inline, tag, following⟩ := parts
      rw [segments_of_openTag hopen] at hrow
      obtain ⟨rest, rfl, hrest⟩ := exists_rest_of_ne_code hrow nofun
      have htag := openTag?_of_splitOpenTag hopen
      exact Or.inr ((standsBetweenTags_codeSegments htag hrest).behind [.inline inline])
  · rw [hrow] at hsource
    rw [← hsource, List.append_assoc]
    exact List.flatMap_append
  · show codeText (segments source) = _
    rw [hrow, List.append_assoc]
    exact List.flatMap_append

/-- The code in the second pair of tags is on the third line, as it was written, although a comment
    that the first close tag cuts short and the line end behind that tag come before it. -/
theorem expandTags_keeps_lines_second_tag :
    let source := "<h1>\n<?php echo 1; # one ?>\n<?PHP echo 2; ?>".toList
    let before : List Segment :=
      [.inline "<h1>\n".toList, .openTag "<?php ".toList, .code "echo 1; ".toList,
        .cutComment "# one ".toList, .closeTag ['\n'], .inline [], .openTag "<?PHP ".toList]
    let after : List Segment := [.cutComment [], .closeTag [], .inline []]
    segments source = before ++ .code "echo 2; ".toList :: after ∧
      expandTags source = codeText before ++ "echo 2; ".toList ++ codeText after ∧
      (codeText before).count '\n' = 2 := by
  intro source before after
  have hrow : segments source = before ++ .code "echo 2; ".toList :: after := by decide +kernel
  obtain ⟨-, -, hpieces⟩ := expandTags_keeps_lines source
  obtain ⟨-, -, hcode, hcount⟩ := hpieces before _ after hrow
  exact ⟨hrow, hcode, hcount.trans (by decide)⟩

end WebScript
