import WebScript.Dict

/-!
# Keys and order of dictionaries

Inserting a new key adds an entry at the end; inserting a key that is there changes no key and no
place.
-/

namespace WebScript.Dict

variable {κ ν : Type} [DecidableEq κ] {key : κ} {value : ν} {dict : Dict κ ν}

theorem mem_of_get? (h : get? key dict = some value) : (key, value) ∈ dict := by
  induction dict with
  | nil => simp at h
  | cons entry rest ih =>
    obtain ⟨k, v⟩ := entry
    rw [get?_cons] at h
    by_cases hk : k = key
    · rw [if_pos hk, Option.some.injEq] at h
      subst hk h
      exact List.mem_cons_self
    · rw [if_neg hk] at h
      exact List.mem_cons_of_mem _ (ih h)

theorem mem_keys_of_get? (h : get? key dict = some value) : key ∈ keys dict :=
  List.mem_map.mpr ⟨_, mem_of_get? h, rfl⟩

theorem get?_eq_none (h : key ∉ keys dict) : get? key dict = none := by
  cases hfound : get? key dict with
  | none => rfl
  | some value => exact absurd (mem_keys_of_get? hfound) h

/-- Where no key occurs twice, each entry is the one that its key finds. -/
theorem get?_of_mem {entry : κ × ν} (hdistinct : (keys dict).Nodup) (h : entry ∈ dict) :
    get? entry.1 dict = some entry.2 := by
  induction dict with
  | nil => cases h
  | cons first rest ih =>
    obtain ⟨hfirst, hrest⟩ := List.nodup_cons.mp hdistinct
    rw [get?_cons]
    rcases List.mem_cons.mp h with rfl | h
    · exact if_pos rfl
    · rw [if_neg, ih hrest h]
      intro heq
      exact hfirst (heq ▸ List.mem_map_of_mem h)

theorem get?_append (key : κ) (first second : Dict κ ν) :
    get? key (first ++ second) = (get? key first).or (get? key second) := by
  induction first with
  | nil => rfl
  | cons entry rest ih =>
    obtain ⟨k, v⟩ := entry
    rw [List.cons_append, get?_cons, get?_cons]
    by_cases hk : k = key
    · rw [if_pos hk, if_pos hk]
      rfl
    · rw [if_neg hk, if_neg hk, ih]

theorem get?_filter (key : κ) (p : κ → Bool) (dict : Dict κ ν) :
    get? key (dict.filter fun entry => p entry.1) = if p key then get? key dict else none := by
  induction dict with
  | nil => simp
  | cons entry rest ih =>
    obtain ⟨k, v⟩ := entry
    rw [List.filter_cons, get?_cons]
    by_cases hk : k = key
    · subst hk
      rw [if_pos rfl]
      by_cases hp : p k = true
      · rw [if_pos hp, if_pos hp, get?_cons, if_pos rfl]
      · rw [if_neg hp, if_neg hp, ih, if_neg hp]
    · rw [if_neg hk, ← ih]
      by_cases hp : p k = true
      · rw [if_pos hp, get?_cons, if_neg hk]
      · rw [if_neg hp]

theorem contains_iff {key : κ} {dict : Dict κ ν} :
    contains key dict = true ↔ key ∈ keys dict := by
  unfold contains
  induction dict with
  | nil => simp [keys]
  | cons entry rest ih =>
    obtain ⟨k, v⟩ := entry
    have hkeys : keys ((k, v) :: rest) = k :: keys rest := rfl
    rw [get?_cons, hkeys, List.mem_cons]
    by_cases hk : k = key
    · simp [hk]
    · rw [if_neg hk, ih]
      exact ⟨Or.inr, fun h => h.resolve_left fun heq => hk heq.symm⟩

theorem mem_insert {entry : κ × ν} (h : entry ∈ insert key value dict) :
    entry = (key, value) ∨ entry ∈ dict := by
  induction dict with
  | nil => exact Or.inl (List.mem_singleton.mp h)
  | cons first rest ih =>
    obtain ⟨k, v⟩ := first
    unfold insert at h
    by_cases hk : k = key
    · rw [if_pos hk] at h
      subst hk
      rcases List.mem_cons.mp h with rfl | h
      · exact Or.inl rfl
      · exact Or.inr (List.mem_cons_of_mem _ h)
    · rw [if_neg hk] at h
      rcases List.mem_cons.mp h with rfl | h
      · exact Or.inr List.mem_cons_self
      · exact (ih h).imp id (List.mem_cons_of_mem _)

/-- A new key goes last. -/
theorem insert_of_not_mem (h : key ∉ keys dict) :
    insert key value dict = dict ++ [(key, value)] := by
  induction dict with
  | nil => rfl
  | cons entry rest ih =>
    obtain ⟨k, v⟩ := entry
    have hk : k ≠ key := fun heq => h (heq ▸ List.mem_cons_self)
    unfold insert
    rw [if_neg hk, ih fun hmem => h (List.mem_cons_of_mem _ hmem)]
    rfl

/-- A key that is there keeps its place. -/
theorem keys_insert_of_mem (h : key ∈ keys dict) : keys (insert key value dict) = keys dict := by
  induction dict with
  | nil => cases h
  | cons entry rest ih =>
    obtain ⟨k, v⟩ := entry
    unfold insert
    by_cases hk : k = key
    · rw [if_pos hk]
      rfl
    · rw [if_neg hk]
      have hrest : key ∈ keys rest := (List.mem_cons.mp h).resolve_left fun heq => hk heq.symm
      exact congrArg (k :: ·) (ih hrest)

theorem keys_insert (key : κ) (value : ν) (dict : Dict κ ν) :
    keys (insert key value dict) = if key ∈ keys dict then keys dict else keys dict ++ [key] := by
  by_cases h : key ∈ keys dict
  · rw [if_pos h, keys_insert_of_mem h]
  · rw [if_neg h, insert_of_not_mem h]
    simp [keys]

theorem mem_keys_insert {other : κ} :
    other ∈ keys (insert key value dict) ↔ other = key ∨ other ∈ keys dict := by
  rw [keys_insert]
  split
  · rename_i h
    exact ⟨.inr, fun hother => hother.elim (fun heq => heq ▸ h) id⟩
  · rw [List.mem_append, List.mem_singleton, Or.comm]

/-- Giving a key the value that it has changes nothing. -/
theorem insert_of_get? (h : get? key dict = some value) : insert key value dict = dict := by
  induction dict with
  | nil => simp at h
  | cons entry rest ih =>
    obtain ⟨k, v⟩ := entry
    rw [get?_cons] at h
    unfold insert
    by_cases hk : k = key
    · rw [if_pos hk, Option.some.injEq] at h
      rw [if_pos hk, h]
    · rw [if_neg hk] at h
      rw [if_neg hk, ih h]

/-- The second of two values for a key stays. -/
theorem insert_insert (key : κ) (value other : ν) (dict : Dict κ ν) :
    insert key other (insert key value dict) = insert key other dict := by
  induction dict with
  | nil => simp [insert]
  | cons entry rest ih =>
    obtain ⟨k, v⟩ := entry
    by_cases hk : k = key
    · simp [insert, hk]
    · simp [insert, hk, ih]

end WebScript.Dict
