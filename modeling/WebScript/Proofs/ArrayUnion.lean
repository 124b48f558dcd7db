import WebScript.Proofs.Loops

/-!
# The union of arrays

The sum of two arrays is the left one followed by what the right one adds to it: the entries whose
keys the left one does not have, in their order. A sound array is determined by its entries, for
these determine its counter (`Table.Sound.ext`), so the laws of the sum are laws of lists of
entries.
-/

namespace WebScript

namespace Table

variable {ν : Type} {left right table : Table ν}

/-! ## Entries of a union -/

/-- The entries that a table adds to another one: those whose keys are new. -/
def addedTo (left right : Table ν) : Dict Key ν :=
  right.entries.filter fun entry => entry.1 ∉ Dict.keys left.entries

theorem Sound.ext {first second : Table ν} (hfirst : first.Sound) (hsecond : second.Sound)
    (h : first.entries = second.entries) : first = second := by
  rw [hfirst.eq_rebuilt, hsecond.eq_rebuilt, h]

theorem Sound.union (hleft : left.Sound) (hright : right.Sound) : (left.union right).Sound :=
  union_induction hleft fun _ key value hmem htable =>
    htable.set (hright.normal key (List.mem_map_of_mem hmem)) value

/-- A union has the entries of the left table, and then those that the right one adds. -/
theorem Sound.entries_union (hright : right.Sound) :
    (left.union right).entries = left.entries ++ left.addedTo right := by
  have hdistinct := hright.distinct
  unfold Table.union addedTo
  generalize right.entries = entries at hdistinct
  induction entries generalizing left with
  | nil => simp
  | cons entry rest ih =>
    obtain ⟨hentry, hrest⟩ := List.nodup_cons.mp hdistinct
    rw [List.foldl_cons, List.filter_cons]
    by_cases hmem : entry.1 ∈ Dict.keys left.entries
    · have hcontains : left.contains entry.1 = true := Dict.contains_iff.mpr hmem
      rw [if_pos hcontains, ih hrest, if_neg (by simpa using hmem)]
    · have hcontains : ¬ left.contains entry.1 = true := fun h => hmem (Dict.contains_iff.mp h)
      have hset : (left.set entry.1 entry.2).entries = left.entries ++ [entry] :=
        Dict.insert_of_not_mem hmem
      -- The new key is not among those of the later entries, so they are new for the longer table
      -- exactly if they are new for the shorter one.
      have hlater : ∀ later ∈ rest,
          decide (later.1 ∉ Dict.keys (left.entries ++ [entry])) =
            decide (later.1 ∉ Dict.keys left.entries) := by
        intro later hlater
        have hne : later.1 ≠ entry.1 := fun heq => hentry (heq ▸ List.mem_map_of_mem hlater)
        have hkeys : Dict.keys (left.entries ++ [entry]) = Dict.keys left.entries ++ [entry.1] :=
          List.map_append
        simp [hkeys, hne]
      rw [if_neg hcontains, ih hrest, hset, List.filter_congr hlater, if_pos (by simpa using hmem),
        List.append_assoc, List.singleton_append]

theorem Sound.mem_keys_union (hright : right.Sound) {key : Key} :
    key ∈ Dict.keys (left.union right).entries ↔
      key ∈ Dict.keys left.entries ∨ key ∈ Dict.keys right.entries := by
  rw [hright.entries_union]
  unfold addedTo Dict.keys
  rw [List.map_append, List.mem_append]
  constructor
  · rintro (h | h)
    · exact Or.inl h
    · obtain ⟨entry, hentry, rfl⟩ := List.mem_map.mp h
      exact Or.inr (List.mem_map_of_mem (List.mem_of_mem_filter hentry))
  · rintro (h | h)
    · exact Or.inl h
    · by_cases hmem : key ∈ left.entries.map Prod.fst
      · exact Or.inl hmem
      · obtain ⟨entry, hentry, rfl⟩ := List.mem_map.mp h
        exact Or.inr (List.mem_map_of_mem (List.mem_filter.mpr ⟨hentry, by simpa using hmem⟩))

/-- A union reads the left table where that has the key, and the right one elsewhere. -/
theorem Sound.get?_union (hright : right.Sound) (key : Key) :
    (left.union right).get? key =
      if key ∈ Dict.keys left.entries then left.get? key else right.get? key := by
  unfold get?
  have hadded := Dict.get?_filter key (fun key => decide (key ∉ Dict.keys left.entries))
    right.entries
  rw [hright.entries_union, Dict.get?_append, addedTo, hadded]
  by_cases hmem : key ∈ Dict.keys left.entries
  · obtain ⟨value, hvalue⟩ := Option.isSome_iff_exists.mp (Dict.contains_iff.mpr hmem)
    rw [if_pos hmem, hvalue]
    rfl
  · rw [if_neg hmem, Dict.get?_eq_none hmem, if_pos (decide_eq_true hmem)]
    rfl

theorem Sound.next_union (hleft : left.Sound) (hright : right.Sound) :
    (left.union right).next = max left.next right.next := by
  refine eq_of_forall_ge_iff fun bound => ?_
  rw [(hleft.union hright).next, hleft.next, hright.next, max_le_iff, nextKey_le_iff,
    nextKey_le_iff, nextKey_le_iff]
  simp only [hright.mem_keys_union]
  constructor
  · rintro ⟨hbound, hall⟩
    exact ⟨⟨hbound, fun n hn => hall n (Or.inl hn)⟩, hbound, fun n hn => hall n (Or.inr hn)⟩
  · rintro ⟨⟨hbound, hfirst⟩, -, hsecond⟩
    exact ⟨hbound, fun n hn => hn.elim (hfirst n) (hsecond n)⟩

/-! ## Laws of unions -/

theorem Sound.union_assoc {third : Table ν} (hleft : left.Sound) (hright : right.Sound)
    (hthird : third.Sound) : (left.union right).union third = left.union (right.union third) := by
  have hinner := hright.union hthird
  refine ((hleft.union hright).union hthird).ext (hleft.union hinner) ?_
  have hnew : ∀ entry : Key × ν, decide (entry.1 ∉ Dict.keys (left.union right).entries) =
      (decide (entry.1 ∉ Dict.keys left.entries) &&
        decide (entry.1 ∉ Dict.keys right.entries)) := by
    intro entry
    simp only [hright.mem_keys_union, not_or, Bool.decide_and]
  have hinnerAdded : left.addedTo (right.union third) = left.addedTo right ++
      (right.addedTo third).filter fun entry => entry.1 ∉ Dict.keys left.entries := by
    rw [addedTo, hthird.entries_union, List.filter_append]
    rfl
  calc ((left.union right).union third).entries
    _ = left.entries ++ left.addedTo right ++ (left.union right).addedTo third := by
      rw [hthird.entries_union, hright.entries_union]
    _ = left.entries ++ (left.addedTo right ++
          (right.addedTo third).filter fun entry => entry.1 ∉ Dict.keys left.entries) := by
      simp only [addedTo, hnew, List.filter_filter, List.append_assoc]
    _ = (left.union (right.union third)).entries := by
      rw [hinner.entries_union, hinnerAdded]

theorem empty_union (h : table.Sound) : Table.empty.union table = table := by
  refine (Sound.empty.union h).ext h ?_
  rw [h.entries_union]
  simp [addedTo, Table.empty, Dict.keys]

theorem union_empty (table : Table ν) : table.union .empty = table := rfl

theorem Sound.union_self (h : table.Sound) : table.union table = table := by
  refine (h.union h).ext h ?_
  have hnothing : table.addedTo table = [] := by
    refine List.filter_eq_nil_iff.mpr fun entry hentry => ?_
    have hmem : entry.1 ∈ Dict.keys table.entries := List.mem_map_of_mem hentry
    simpa using hmem
  rw [h.entries_union, hnothing, List.append_nil]

end Table

/-! ## Sums of arrays -/

/-- The sum of two sound arrays is a sound array. Its entries are those of the first array and then
    those of the second one whose keys are new, so it reads the first array at its keys and the
    second one elsewhere; its counter is the larger of theirs. Sums are associative, the empty array
    changes nothing, and an array added to itself is itself. -/
theorem array_sum_laws (first second third : Table Value) (hfirst : first.Sound)
    (hsecond : second.Sound) (hthird : third.Sound) :
    (∃ sum : Table Value,
      BinaryOperator.plus.apply (.array first) (.array second) = pure (.array sum) ∧ sum.Sound ∧
      sum.entries = first.entries ++
        second.entries.filter (fun entry => entry.1 ∉ Dict.keys first.entries) ∧
      (∀ key ∈ Dict.keys first.entries, sum.get? key = first.get? key) ∧
      (∀ key ∉ Dict.keys first.entries, sum.get? key = second.get? key) ∧
      sum.next = max first.next second.next) ∧
    (BinaryOperator.plus.apply (.array first) (.array second) >>= fun sum =>
        BinaryOperator.plus.apply sum (.array third)) =
      (BinaryOperator.plus.apply (.array second) (.array third) >>=
        BinaryOperator.plus.apply (.array first)) ∧
    BinaryOperator.plus.apply (.array .empty) (.array first) = pure (.array first) ∧
    BinaryOperator.plus.apply (.array first) (.array .empty) = pure (.array first) ∧
    BinaryOperator.plus.apply (.array first) (.array first) = pure (.array first) := by
  have hplus : ∀ left right : Table Value,
      BinaryOperator.plus.apply (.array left) (.array right) = pure (.array (left.union right)) :=
    fun _ _ => rfl
  refine ⟨⟨first.union second, hplus _ _, hfirst.union hsecond, hsecond.entries_union,
    fun key hkey => ?_, fun key hkey => ?_, hfirst.next_union hsecond⟩, ?_, ?_, ?_, ?_⟩
  · rw [hsecond.get?_union, if_pos hkey]
  · rw [hsecond.get?_union, if_neg hkey]
  · show BinaryOperator.plus.apply (.array (first.union second)) (.array third) =
      BinaryOperator.plus.apply (.array first) (.array (second.union third))
    rw [hplus, hplus, hfirst.union_assoc hsecond hthird]
  · rw [hplus, Table.empty_union hfirst]
  · rw [hplus, Table.union_empty]
  · rw [hplus, hfirst.union_self]

/-- The key 3 of both arrays keeps the place and the value that it has in the first one. -/
theorem array_sum_laws_mixed_keys :
    let first : Table Value := ⟨[(.str "x", .int 1), (.int 3, .null), (.int (-5), .int 2)], 4⟩
    let second : Table Value := ⟨[(.int 7, .int 8), (.int 3, .int 9), (.str "y", .int 6)], 8⟩
    first.Sound ∧ second.Sound ∧
      ∃ sum : Table Value,
        BinaryOperator.plus.apply (.array first) (.array second) = pure (.array sum) ∧
        sum.entries = [(.str "x", .int 1), (.int 3, .null), (.int (-5), .int 2), (.int 7, .int 8),
          (.str "y", .int 6)] ∧
        sum.get? (.int 3) = some .null ∧ sum.get? (.str "y") = some (.int 6) ∧ sum.next = 8 := by
  intro first second
  have hfirst : first.Sound := by
    refine ⟨by decide, rfl, fun key hkey => ?_⟩
    have hkeys : key ∈ [.str "x", .int 3, .int (-5)] := hkey
    simp only [List.mem_cons, List.not_mem_nil, or_false] at hkeys
    rcases hkeys with rfl | rfl | rfl <;> rfl
  have hsecond : second.Sound := by
    refine ⟨by decide, rfl, fun key hkey => ?_⟩
    have hkeys : key ∈ [.int 7, .int 3, .str "y"] := hkey
    simp only [List.mem_cons, List.not_mem_nil, or_false] at hkeys
    rcases hkeys with rfl | rfl | rfl <;> rfl
  obtain ⟨⟨sum, hsum, -, hentries, hold, hnew, hnext⟩, -⟩ :=
    array_sum_laws first second .empty hfirst hsecond .empty
  refine ⟨hfirst, hsecond, sum, hsum, hentries.trans rfl, ?_, ?_, hnext.trans rfl⟩
  · exact (hold (.int 3) (by decide)).trans rfl
  · exact (hnew (.str "y") (by decide)).trans rfl

end WebScript
