/-!
# Dictionaries in insertion order

A dictionary is its list of entries, oldest first. A key that is written again keeps its place.
-/

namespace WebScript

/-- A dictionary: its entries, oldest first. -/
abbrev Dict (κ ν : Type) := List (κ × ν)

namespace Dict

variable {κ ν : Type} [DecidableEq κ]

/-- The value of a key. -/
def get? (key : κ) : Dict κ ν → Option ν
  | [] => none
  | (k, v) :: rest => if k = key then some v else get? key rest

/-- Gives a key a value: in place if the key is there, at the end otherwise. -/
def insert (key : κ) (value : ν) : Dict κ ν → Dict κ ν
  | [] => [(key, value)]
  | (k, v) :: rest => if k = key then (k, value) :: rest else (k, v) :: insert key value rest

/-- Whether a key has a value. -/
def contains (key : κ) (dict : Dict κ ν) : Bool := (get? key dict).isSome

/-- The keys, oldest first. -/
def keys (dict : Dict κ ν) : List κ := dict.map Prod.fst

@[simp] theorem get?_nil (key : κ) : get? key ([] : Dict κ ν) = none := rfl

theorem get?_cons (key k : κ) (v : ν) (rest : Dict κ ν) :
    get? key ((k, v) :: rest) = if k = key then some v else get? key rest := rfl

theorem get?_insert_self (key : κ) (value : ν) (dict : Dict κ ν) :
    get? key (insert key value dict) = some value := by
  induction dict with
  | nil => simp [insert, get?]
  | cons entry rest ih =>
    by_cases h : entry.1 = key <;> simp [insert, get?, h, ih]

theorem get?_insert_of_ne {key other : κ} (hne : other ≠ key) (value : ν) (dict : Dict κ ν) :
    get? other (insert key value dict) = get? other dict := by
  induction dict with
  | nil => simp [insert, get?, Ne.symm hne]
  | cons entry rest ih =>
    obtain ⟨k, v⟩ := entry
    by_cases h : k = key
    · subst h
      simp [insert, get?, Ne.symm hne]
    · simp [insert, get?, h, ih]

end Dict

end WebScript
