import WebScript.Text.CharClass

/-!
# Code and inline text

A source without an open tag `<?php` is code. Otherwise code stands between `<?php` and `?>`, and
the text around it is inline: it is printed as it stands. `segments` cuts a source into these
pieces, and `expandTags` turns the pieces into code alone. Inline text becomes an `echo` statement,
a close tag becomes a semicolon, and every line keeps its number.
-/

namespace WebScript

/-- The open tag at the start of a text, with the blank that ends it, and what follows. -/
def openTag? : List Char → Option (List Char × List Char)
  | '<' :: '?' :: p :: h :: q :: rest =>
    if (p = 'p' || p = 'P') && (h = 'h' || h = 'H') && (q = 'p' || q = 'P') then
      match rest with
      | [] => some (['<', '?', p, h, q], [])
      | c :: after => if isBlank c then some (['<', '?', p, h, q, c], after) else none
    else none
  | _ => none

/-- A text around its first open tag: what stands before it, the tag, and what follows. -/
def splitOpenTag : List Char → Option (List Char × List Char × List Char)
  | [] => none
  | c :: rest =>
    match openTag? (c :: rest) with
    | some (tag, after) => some ([], tag, after)
    | none => (splitOpenTag rest).map fun (before, tag, after) => (c :: before, tag, after)

/-- What the scanner for the close tag is inside of. -/
inductive CodeMode where
  | code
  | quoted (quote : Char)
  /-- After a backslash inside quotes. -/
  | escaped (quote : Char)
  | blockComment
  | lineComment
  deriving DecidableEq, Repr

/-- The code before the next close tag, the line comment that the tag cuts short, and what follows
    the tag. A tag inside quotes or a block comment does not count. -/
def splitCloseTag : CodeMode → List Char → Option (List Char × List Char × List Char)
  | _, [] => none
  | .code, '/' :: '*' :: rest => (splitCloseTag .blockComment rest).map (prepend ['/', '*'])
  | .code, '/' :: '/' :: rest => (splitCloseTag .lineComment rest).map (prependComment ['/', '/'])
  | .code, '?' :: '>' :: rest => some ([], [], rest)
  | .code, c :: rest =>
    if c = '\'' || c = '"' then (splitCloseTag (.quoted c) rest).map (prepend [c])
    else if c = '#' then (splitCloseTag .lineComment rest).map (prependComment [c])
    else (splitCloseTag .code rest).map (prepend [c])
  | .quoted quote, c :: rest =>
    let mode := if c = quote then .code else if c = '\\' then .escaped quote else .quoted quote
    (splitCloseTag mode rest).map (prepend [c])
  | .escaped quote, c :: rest => (splitCloseTag (.quoted quote) rest).map (prepend [c])
  | .blockComment, '*' :: '/' :: rest => (splitCloseTag .code rest).map (prepend ['*', '/'])
  | .blockComment, c :: rest => (splitCloseTag .blockComment rest).map (prepend [c])
  | .lineComment, '?' :: '>' :: rest => some ([], [], rest)
  | .lineComment, c :: rest =>
    if c = '\n' then (splitCloseTag .code rest).map (prepend [c])
    else (splitCloseTag .lineComment rest).map (prependComment [c])
where
  /-- Adds characters before the code. -/
  prepend (chars : List Char) :
      List Char × List Char × List Char → List Char × List Char × List Char
    | (code, comment, after) => (chars ++ code, comment, after)
  /-- Adds characters of a line comment, which belong to the code unless the tag cuts it short. -/
  prependComment (chars : List Char) :
      List Char × List Char × List Char → List Char × List Char × List Char
    | ([], comment, after) => ([], chars ++ comment, after)
    | (code, comment, after) => (chars ++ code, comment, after)

@[simp] theorem splitCloseTag.prepend_after (chars : List Char)
    (parts : List Char × List Char × List Char) : (prepend chars parts).2.2 = parts.2.2 := rfl

@[simp] theorem splitCloseTag.prependComment_after (chars : List Char)
    (parts : List Char × List Char × List Char) : (prependComment chars parts).2.2 = parts.2.2 := by
  obtain ⟨code, comment, after⟩ := parts
  cases code <;> rfl

theorem length_lt_of_splitCloseTag {mode : CodeMode} {text : List Char}
    {parts : List Char × List Char × List Char} (h : splitCloseTag mode text = some parts) :
    parts.2.2.length < text.length := by
  fun_induction splitCloseTag mode text generalizing parts with
  | case1 => simp at h
  | case4 rest | case12 rest =>
    simp only [Option.some.injEq] at h
    subst h
    simp only [List.length_cons]
    omega
  | _ =>
    simp only [Option.map_eq_some_iff] at h
    obtain ⟨inner, hinner, rfl⟩ := h
    rename_i ih
    have := ih hinner
    simp only [List.length_cons, splitCloseTag.prepend_after, splitCloseTag.prependComment_after]
    omega

theorem length_lt_of_openTag? {text tag after : List Char}
    (h : openTag? text = some (tag, after)) : after.length < text.length := by
  unfold openTag? at h
  split at h
  · split at h
    · split at h
      · simp at h
        obtain ⟨-, rfl⟩ := h
        simp
      · split at h
        · simp at h
          obtain ⟨-, rfl⟩ := h
          simp only [List.length_cons]
          omega
        · simp at h
    · simp at h
  · simp at h

theorem length_lt_of_splitOpenTag {text before tag after : List Char}
    (h : splitOpenTag text = some (before, tag, after)) : after.length < text.length := by
  induction text generalizing before with
  | nil => simp [splitOpenTag] at h
  | cons c rest ih =>
    unfold splitOpenTag at h
    split at h
    · rename_i hopen
      simp at h
      obtain ⟨-, rfl, rfl⟩ := h
      exact length_lt_of_openTag? hopen
    · simp only [Option.map_eq_some_iff] at h
      obtain ⟨⟨b, t, a⟩, hrest, heq⟩ := h
      simp at heq
      obtain ⟨-, rfl, rfl⟩ := heq
      have := ih hrest
      simp only [List.length_cons]
      omega

/-- The pieces of a source. -/
inductive Segment where
  /-- Text that is printed as it stands. -/
  | inline (text : List Char)
  | openTag (text : List Char)
  | code (text : List Char)
  /-- A line comment that a close tag cuts short. -/
  | cutComment (text : List Char)
  /-- A close tag and the line end directly after it. -/
  | closeTag (lineEnd : List Char)
  deriving DecidableEq, Repr

/-- Splits off one line end. -/
def takeLineEnd : List Char → List Char × List Char
  | '\r' :: '\n' :: rest => (['\r', '\n'], rest)
  | '\n' :: rest => (['\n'], rest)
  | text => ([], text)

theorem length_takeLineEnd_le (text : List Char) : (takeLineEnd text).2.length ≤ text.length := by
  unfold takeLineEnd
  split
  · simp only [List.length_cons]
    omega
  · simp only [List.length_cons]
    omega
  · exact Nat.le_refl _

/-- The pieces of a source whose start is code. -/
def codeSegments (text : List Char) : List Segment :=
  if text.isEmpty then []
  else
    match hclose : splitCloseTag .code text with
    | none => [.code text]
    | some (code, comment, afterClose) =>
      [.code code, .cutComment comment, .closeTag (takeLineEnd afterClose).1] ++
        match _hopen : splitOpenTag (takeLineEnd afterClose).2 with
        | none => [.inline (takeLineEnd afterClose).2]
        | some (inline, tag, after) => .inline inline :: .openTag tag :: codeSegments after
termination_by text.length
decreasing_by
  have h1 := length_lt_of_splitCloseTag hclose
  have h2 := length_lt_of_splitOpenTag _hopen
  have h3 := length_takeLineEnd_le afterClose
  simp only at h1
  omega

/-- The pieces of a source. -/
def segments (text : List Char) : List Segment :=
  match splitOpenTag text with
  | none => [.code text]
  | some (inline, tag, after) => .inline inline :: .openTag tag :: codeSegments after

/-- Replaces everything but line ends by spaces. -/
def blankOut (text : List Char) : List Char :=
  text.map fun c => if c = '\n' then c else ' '

/-- The form of a character inside single quotes. -/
def escapeSingle (c : Char) : List Char :=
  if c = '\\' || c = '\'' then ['\\', c] else [c]

/-- The statement that prints inline text. -/
def inlineEcho (text : List Char) : List Char :=
  if text.isEmpty then []
  else ['e', 'c', 'h', 'o', ' ', '\''] ++ text.flatMap escapeSingle ++ ['\'', ';']

/-- The code that a piece becomes. -/
def Segment.toCode : Segment → List Char
  | .inline text => inlineEcho text
  | .openTag text => blankOut text
  | .code text => text
  | .cutComment text => blankOut text
  | .closeTag lineEnd => [';', ' '] ++ lineEnd

/-- The text that a piece was cut from. -/
def Segment.toSource : Segment → List Char
  | .inline text => text
  | .openTag text => text
  | .code text => text
  | .cutComment text => text
  | .closeTag lineEnd => ['?', '>'] ++ lineEnd

/-- A source as code alone. -/
def expandTags (source : List Char) : List Char :=
  (segments source).flatMap Segment.toCode

end WebScript
