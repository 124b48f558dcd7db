import WebScript.Dict

/-!
# Values

A program computes with null, booleans, integers, floats, strings and arrays. An array is an ordered
table from keys to values together with the key that the next appended element takes.
-/

namespace WebScript

/-- The types that programs can tell apart. -/
inductive ValueType where
  | null | bool | int | float | string | array
  deriving DecidableEq, Repr

/-- The name of a type in messages. -/
def ValueType.name : ValueType → String
  | .null => "null"
  | .bool => "bool"
  | .int => "int"
  | .float => "float"
  | .string => "string"
  | .array => "array"

/-- Array keys. -/
inductive Key where
  | int (n : Int)
  | str (s : String)
  deriving DecidableEq, Repr

/-- An ordered table: its entries, oldest first, and the key of the next appended element. -/
structure Table (ν : Type) where
  entries : List (Key × ν)
  next : Int

/-- The values of programs. -/
inductive Value where
  | null
  | bool (b : Bool)
  | int (n : Int)
  | float (f : Float)
  /-- A text. Its characters are Unicode scalar values, so a surrogate is none of them: an operation
      whose result would be one gives the null character in its place. -/
  | str (s : String)
  | array (table : Table Value)

instance : Inhabited Value := ⟨.null⟩

/-- The type of a value. -/
def Value.type : Value → ValueType
  | .null => .null
  | .bool _ => .bool
  | .int _ => .int
  | .float _ => .float
  | .str _ => .string
  | .array _ => .array

/-- The value that a key stands for. -/
def Key.toValue : Key → Value
  | .int n => .int n
  | .str s => .str s

/-- The counter after a key is used: an integer key moves it past itself. -/
def bumpNext (next : Int) : Key → Int
  | .int n => if next ≤ n then n + 1 else next
  | .str _ => next

namespace Table

variable {ν : Type}

/-- The empty table. -/
def empty : Table ν := ⟨[], 0⟩

/-- The table with the given entries and at least the given counter. -/
def ofEntries (entries : List (Key × ν)) (next : Int) : Table ν :=
  ⟨entries, entries.foldl (fun counter entry => bumpNext counter entry.1) next⟩

/-- The value of a key. -/
def get? (table : Table ν) (key : Key) : Option ν := Dict.get? key table.entries

/-- Whether a key has a value. -/
def contains (table : Table ν) (key : Key) : Bool := Dict.contains key table.entries

/-- The number of entries. -/
def size (table : Table ν) : Nat := table.entries.length

/-- Gives a key a value. -/
def set (table : Table ν) (key : Key) (value : ν) : Table ν :=
  ⟨Dict.insert key value table.entries, bumpNext table.next key⟩

/-- Adds a value under the next integer key. -/
def append (table : Table ν) (value : ν) : Table ν :=
  ⟨Dict.insert (.int table.next) value table.entries, table.next + 1⟩

/-- The table that results from appending values to the empty one. -/
def ofList (values : List ν) : Table ν := values.foldl append empty

/-- The entries of the left table, then those of the right one whose keys are new. -/
def union (left right : Table ν) : Table ν :=
  right.entries.foldl
    (fun merged (entry : Key × ν) =>
      if merged.contains entry.1 then merged else merged.set entry.1 entry.2)
    left

end Table

end WebScript
