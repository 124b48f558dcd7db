import WebScript.Dict
import WebScript.Limit
import WebScript.Source.Program

/-!
# Files that programs run

A library is a set of text files, the directory from which paths start, and a record of the files
that have been loaded. The paths of inclusions are resolved by their text alone: `.` and empty parts
vanish, and `..` drops the part before it. A resolved path is then followed from directory to
directory.
-/

namespace WebScript

/-! ## Paths -/

/-- A resolved path: the names from the top directory down to the file. -/
abbrev Path := List String

/-- Splits a text at each `separator`. -/
def splitChars (separator : Char) : List Char → List (List Char)
  | [] => [[]]
  | c :: rest =>
    if c = separator then [] :: splitChars separator rest
    else
      match splitChars separator rest with
      | first :: others => (c :: first) :: others
      | [] => [[c]]

/-- The parts of a path between its slashes. -/
def pathParts (path : String) : List String := (splitChars '/' path.toList).map String.ofList

/-- Whether a part of a path leads nowhere else. -/
def isIdlePart (part : String) : Bool := part = "" || part = "."

/-- Adds one part of a path to the resolved parts before it, the latest first. -/
def resolveStep (resolved : List String) (part : String) : List String :=
  if isIdlePart part then resolved
  else if part = ".." then resolved.drop 1
  else part :: resolved

/-- The resolved parts from which a path starts, the latest first: those of the directory `base`, or
    none if the path starts with a slash. -/
def pathStart (base : Path) (path : String) : List String :=
  if path.toList.head? == some '/' then [] else base.reverse

/-- The file that a path leads to from a directory. -/
def resolvePath (base : Path) (path : String) : Path :=
  ((pathParts path).foldl resolveStep (pathStart base path)).reverse

/-- The text of a resolved path; the top directory itself is a point. -/
def Path.text (path : Path) : String :=
  if path.isEmpty then "." else "/".intercalate path

/-- The number of bytes that a path can have. -/
def maxPathBytes : Nat := 4095

/-- The number of bytes that a name in a path can have. -/
def maxNameBytes : Nat := 255

/-- The text of a resolved path whose top directory has the text `root`. -/
def Path.below (root : String) (path : Path) : String := "/".intercalate (root :: path)

/-! ## Texts -/

/-- Line ends as one character, whatever the system they were written on. -/
def normalizeLineEnds : List Char → List Char
  | '\r' :: '\n' :: rest => '\n' :: normalizeLineEnds rest
  | '\r' :: rest => '\n' :: normalizeLineEnds rest
  | c :: rest => c :: normalizeLineEnds rest
  | [] => []

/-- The text that is read from a file with the given contents. -/
def readText (contents : String) : String := String.ofList (normalizeLineEnds contents.toList)

/-! ## Libraries -/

/-- Files, and those of them that have been loaded, the earliest first. -/
structure Library where
  /-- The directory from which paths start. -/
  base : Path
  files : Dict Path String
  included : List Path

namespace Library

/-- A library from which nothing has been loaded. -/
def ofFiles (base : Path) (files : Dict Path String) : Library := ⟨base, files, []⟩

/-- The file that the path of an inclusion leads to. -/
def resolve (library : Library) (path : String) : Except Limit Path :=
  if path.toList.contains '\x00' then .error .pathCharacter
  else .ok (resolvePath library.base path)

/-- Records that a file has been loaded. -/
def markResolved (library : Library) (path : Path) : Library :=
  if library.included.contains path then library
  else { library with included := library.included ++ [path] }

/-- Records that the file at a path has been loaded. -/
def mark (library : Library) (path : String) : Except Limit Library :=
  (library.resolve path).map library.markResolved

/-- What loading a file gives. -/
inductive Loaded where
  /-- The path cannot be resolved or followed. -/
  | refused (limit : Limit)
  /-- The file was loaded before and is asked for once. -/
  | skipped
  /-- There is no such file. -/
  | missing
  /-- The statements of the file. -/
  | program (path : Path) (nodes : Except SourceError (List Node))

/-- Whether a resolved path leads to a directory: one above the base, or above some file. -/
def isDirectory (library : Library) (path : Path) : Bool :=
  path.isPrefixOf library.base ||
    (Dict.keys library.files).any fun file => path != file && path.isPrefixOf file

/-- Follows the parts of a path from the resolved parts before them, the latest first, to the
    contents of a file. Every part that is followed starts at a directory. -/
def follow (library : Library) : (resolved parts : List String) → Except Limit (Option String)
  | resolved, [] => .ok (Dict.get? resolved.reverse library.files)
  | resolved, part :: rest =>
    if isIdlePart part then library.follow resolved rest
    else if !library.isDirectory resolved.reverse then .ok none
    else if maxNameBytes < part.utf8ByteSize then .error .pathLength
    else library.follow (resolveStep resolved part) rest

/-- The contents of the file at a resolved path. -/
def contents (library : Library) (path : Path) : Except Limit (Option String) :=
  if maxPathBytes < (path.below "").utf8ByteSize then .error .pathLength else library.follow [] path

/-- Loads a resolved file; with `once`, only if it has not been loaded. A file counts as loaded from
    the moment it is read, even if its text turns out to be no program. -/
def loadResolved (library : Library) (path : Path) (once : Bool) : Loaded × Library :=
  if once && library.included.contains path then (.skipped, library)
  else
    match library.contents path with
    | .error limit => (.refused limit, library)
    | .ok none => (.missing, library)
    | .ok (some contents) => (.program path (parse (readText contents)), library.markResolved path)

/-- Loads the file at a path; with `once`, only if it has not been loaded. -/
def load (library : Library) (path : String) (once : Bool) : Loaded × Library :=
  match library.resolve path with
  | .error limit => (.refused limit, library)
  | .ok resolved => library.loadResolved resolved once

/-- Loads a file if there is a library at all. -/
def loadFrom (library : Option Library) (path : String) (once : Bool) : Loaded × Option Library :=
  match library with
  | none => (.missing, none)
  | some library =>
    let (loaded, after) := library.load path once
    (loaded, some after)

/-- The contents of the file that a path opens. Unlike for inclusions, a directory that the path
    names must be there even if the path leaves it again. -/
def openFile (library : Library) (path : String) : Except Limit (Option String) :=
  let parts := (pathParts path).filter (!isIdlePart ·)
  if path.toList.contains '\x00' then .ok none
  else if maxPathBytes < ("/".intercalate parts).utf8ByteSize then .error .pathLength
  else library.follow (pathStart library.base path) parts

end Library

end WebScript
