import WebScript.Proofs.Expansion

/-!
# Nested writes

Writing an element along a path fails only where a value without elements is on the way. Otherwise
the element reads back as written, all paths that part from the written one read as before, and each
array on the way gains at most the key it is entered by. The keys of appended elements are those
that the arrays on the way have next.
-/

namespace WebScript

/-! ## One level -/

/-- The key that a step of a written path enters a table by; `none` appends. -/
def Table.keyFor {ν : Type} (table : Table ν) (step : Option Key) : Key :=
  step.getD (.int table.next)

theorem Table.keyFor_some {ν : Type} (table : Table ν) (key : Key) :
    table.keyFor (some key) = key := rfl

theorem Table.get?_set_self {ν : Type} (table : Table ν) (key : Key) (v : ν) :
    (table.set key v).get? key = some v := Dict.get?_insert_self key v table.entries

/-- The second of two elements for a key stays. -/
theorem Table.set_set {ν : Type} (table : Table ν) (key : Key) (v w : ν) :
    (table.set key v).set key w = table.set key w := by
  have hentries := Dict.insert_insert key v w table.entries
  have hnext : bumpNext (bumpNext table.next key) key = bumpNext table.next key := by
    cases key with
    | str s => rfl
    | int n =>
      simp only [bumpNext_int]
      omega
  simp only [set, hentries, hnext]

/-- The keys along a written path, those of appended elements among them. -/
def pathKeys (container : Option Value) : List (Option Key) → List Key
  | [] => []
  | step :: rest =>
    let table := (tableToWrite container).toOption.getD .empty
    table.keyFor step :: pathKeys (table.get? (table.keyFor step)) rest

/-- A place has an array to write to, or a value without elements. -/
theorem tableToWrite_cases (container : Option Value) :
    (∃ table, tableToWrite container = .ok table ∧
      ∀ met, container = some met → met.holdsElements = true) ∨
    ∃ met, container = some met ∧ met.holdsElements = false ∧
      tableToWrite container = .error (.misuse (.scalarAsArray met.type)) := by
  cases container with
  | none => exact Or.inl ⟨.empty, rfl, nofun⟩
  | some met =>
    cases met with
    | null =>
      refine Or.inl ⟨.empty, rfl, fun met hmet => ?_⟩
      cases hmet
      rfl
    | array table =>
      refine Or.inl ⟨table, rfl, fun met hmet => ?_⟩
      cases hmet
      rfl
    | _ => exact Or.inr ⟨_, rfl, rfl, rfl⟩

section Level

variable {container : Option Value} {table : Table Value} {v : Value} {key : Key}

theorem readFrom_nil (container : Option Value) : readFrom false container [] = container := by
  cases container <;> rfl

theorem readFrom_cons_of_not_holdsElements {met : Value} (hmet : met.holdsElements = false)
    (key : Key) (rest : List Key) : readFrom false (some met) (key :: rest) = none := by
  cases met with
  | null => cases hmet
  | array table => cases hmet
  | _ => rfl

/-- Reading goes on in the array that a write would find. -/
theorem readFrom_cons (htable : tableToWrite container = .ok table) (key : Key) (rest : List Key) :
    readFrom false container (key :: rest) = readFrom false (table.get? key) rest := by
  cases container with
  | none =>
    cases htable
    rfl
  | some value =>
    cases value with
    | null =>
      cases htable
      rfl
    | array there =>
      cases htable
      simp only [readFrom, readPath]
      cases table.get? key <;> rfl
    | _ => cases htable

theorem readFrom_set_self (table : Table Value) (key : Key) (inner : Value) (rest : List Key) :
    readFrom false (some (.array (table.set key inner))) (key :: rest) =
      readFrom false (some inner) rest := by
  rw [readFrom_cons rfl, Table.get?_set_self]

theorem readFrom_set_of_ne {other : Key} (hne : other ≠ key) (table : Table Value) (inner : Value)
    (rest : List Key) :
    readFrom false (some (.array (table.set key inner))) (other :: rest) =
      readFrom false (table.get? other) rest := by
  have hget : (table.set key inner).get? other = table.get? other :=
    Dict.get?_insert_of_ne hne inner table.entries
  rw [readFrom_cons rfl, hget]

/-- Appending, where arrays are sound, gives a new key an element. -/
theorem writePath_cons (hsound : ∀ value, container = some value → value.Sound) (v : Value)
    (step : Option Key) (rest : List (Option Key)) :
    writePath container v (step :: rest) = tableToWrite container >>= fun table =>
      (writePath (table.get? (table.keyFor step)) v rest).map fun inner =>
        .array (table.set (table.keyFor step) inner) := by
  cases htable : tableToWrite container with
  | error cause => simp only [writePath, htable, bind, Except.bind]
  | ok table =>
    have hwhole : (Value.array table).Sound := ValueInvariant.sound.tableToWrite hsound htable
    cases step with
    | some key =>
      simp only [writePath, htable, bind, Except.bind, Table.keyFor, Option.getD_some]
      cases writePath (table.get? key) v rest <;> rfl
    | none =>
      -- The rest of the path starts from nothing, which is what a sound array has under `next`.
      have hnew : table.get? (.int table.next) = none :=
        Dict.get?_eq_none (Value.sound_array.mp hwhole).1.next_not_mem
      simp only [writePath, htable, bind, Except.bind, Table.keyFor, Option.getD_none, hnew,
        Table.append_eq_set]
      cases writePath none v rest <;> rfl

theorem sound_of_get? (hsound : ∀ value, container = some value → value.Sound)
    (htable : tableToWrite container = .ok table) (key : Key) :
    ∀ value, table.get? key = some value → value.Sound :=
  fun _ hvalue =>
    ValueInvariant.sound.get? (ValueInvariant.sound.tableToWrite hsound htable) hvalue

theorem pathKeys_cons (htable : tableToWrite container = .ok table) (step : Option Key)
    (rest : List (Option Key)) :
    pathKeys container (step :: rest) =
      table.keyFor step :: pathKeys (table.get? (table.keyFor step)) rest := by
  simp only [pathKeys, htable]
  rfl

/-- What a write that succeeds does at the first level. -/
theorem writePath_cons_ok (hsound : ∀ value, container = some value → value.Sound)
    {step : Option Key} {rest : List (Option Key)} {result : Value}
    (h : writePath container v (step :: rest) = .ok result) :
    ∃ table inner, tableToWrite container = .ok table ∧
      writePath (table.get? (table.keyFor step)) v rest = .ok inner ∧
      result = .array (table.set (table.keyFor step) inner) := by
  rw [writePath_cons hsound] at h
  obtain ⟨table, htable, h⟩ := bind_eq_ok h
  cases hinner : writePath (table.get? (table.keyFor step)) v rest with
  | error cause =>
    rw [hinner] at h
    cases h
  | ok inner =>
    rw [hinner] at h
    cases h
    exact ⟨table, inner, htable, hinner, rfl⟩

end Level

/-! ## Whole paths -/

section Paths

variable {container : Option Value} {v result : Value} {keys : List (Option Key)}

/-- A write fails if and only if a value without elements is on the way. -/
theorem writePath_eq_error (hsound : ∀ value, container = some value → value.Sound)
    {cause : Cause} :
    writePath container v keys = .error cause ↔
      ∃ level met, level < keys.length ∧
        readFrom false container ((pathKeys container keys).take level) = some met ∧
        met.holdsElements = false ∧ cause = .misuse (.scalarAsArray met.type) := by
  induction keys generalizing container with
  | nil => simp [writePath]
  | cons step rest ih =>
    rw [writePath_cons hsound]
    rcases tableToWrite_cases container with ⟨table, htable, hholds⟩ | ⟨met, rfl, hmet, herror⟩
    · have hrest := ih (sound_of_get? hsound htable (table.keyFor step))
      have hmap : ∀ {written : Except Cause Value} {f : Value → Value},
          written.map f = .error cause ↔ written = .error cause := by
        intro written f
        cases written <;> simp [Except.map]
      rw [htable, pathKeys_cons htable]
      refine hmap.trans (hrest.trans ?_)
      constructor
      · rintro ⟨level, met, hlevel, hread, hmet⟩
        refine ⟨level + 1, met, Nat.succ_lt_succ hlevel, ?_, hmet⟩
        rwa [List.take_succ_cons, readFrom_cons htable]
      · rintro ⟨level, met, hlevel, hread, hmet⟩
        -- What is met at once holds elements, so what stops the write is met further on.
        cases level with
        | zero =>
          rw [List.take_zero, readFrom_nil] at hread
          cases (hholds met hread).symm.trans hmet.1
        | succ level =>
          rw [List.take_succ_cons, readFrom_cons htable] at hread
          exact ⟨level, met, Nat.lt_of_succ_lt_succ hlevel, hread, hmet⟩
    · rw [herror]
      constructor
      · intro h
        cases h
        exact ⟨0, met, Nat.succ_pos _, rfl, hmet, rfl⟩
      · rintro ⟨level, other, -, hread, -, rfl⟩
        cases level with
        | zero =>
          rw [List.take_zero, readFrom_nil] at hread
          cases hread
          rfl
        | succ level =>
          rw [pathKeys, List.take_succ_cons, readFrom_cons_of_not_holdsElements hmet] at hread
          cases hread

/-- What was written is read. -/
theorem readFrom_writePath (hsound : ∀ value, container = some value → value.Sound)
    (h : writePath container v keys = .ok result) :
    readFrom false (some result) (pathKeys container keys) = some v := by
  induction keys generalizing container result with
  | nil =>
    cases h
    rfl
  | cons step rest ih =>
    obtain ⟨table, inner, htable, hinner, rfl⟩ := writePath_cons_ok hsound h
    rw [pathKeys_cons htable, readFrom_set_self]
    exact ih (sound_of_get? hsound htable _) hinner

/-- All that is not on the written path is read as before. -/
theorem readFrom_writePath_of_diverges (hsound : ∀ value, container = some value → value.Sound)
    (h : writePath container v keys = .ok result) {other : List Key}
    (hpath : ¬pathKeys container keys <+: other) (hother : ¬other <+: pathKeys container keys) :
    readFrom false (some result) other = readFrom false container other := by
  induction keys generalizing container result other with
  | nil => exact absurd (List.nil_prefix) hpath
  | cons step rest ih =>
    obtain ⟨table, inner, htable, hinner, rfl⟩ := writePath_cons_ok hsound h
    rw [pathKeys_cons htable] at hpath hother
    cases other with
    | nil => exact absurd (List.nil_prefix) hother
    | cons key others =>
      rw [readFrom_cons htable]
      by_cases hkey : key = table.keyFor step
      · subst hkey
        rw [List.cons_prefix_cons] at hpath hother
        rw [readFrom_set_self]
        exact ih (sound_of_get? hsound htable _) hinner (fun hprefix => hpath ⟨rfl, hprefix⟩)
          fun hprefix => hother ⟨rfl, hprefix⟩
      · exact readFrom_set_of_ne hkey table inner others

/-- Each array on the way keeps its keys in their order, and gains the one that the path enters it
    by at the end, if it is new. -/
theorem tables_writePath (hsound : ∀ value, container = some value → value.Sound)
    (h : writePath container v keys = .ok result) {level : Nat} {step : Option Key}
    (hstep : keys[level]? = some step) :
    ∃ before inner, tableToWrite (readFrom false container ((pathKeys container keys).take level)) =
        .ok before ∧
      (pathKeys container keys)[level]? = some (before.keyFor step) ∧
      readFrom false (some result) ((pathKeys container keys).take level) =
        some (.array (before.set (before.keyFor step) inner)) := by
  induction keys generalizing container result level with
  | nil => cases hstep
  | cons first rest ih =>
    obtain ⟨table, inner, htable, hinner, rfl⟩ := writePath_cons_ok hsound h
    rw [pathKeys_cons htable]
    cases level with
    | zero =>
      cases hstep
      rw [List.take_zero, readFrom_nil]
      exact ⟨table, inner, htable, rfl, rfl⟩
    | succ level =>
      rw [List.take_succ_cons, readFrom_cons htable, readFrom_set_self]
      exact ih (sound_of_get? hsound htable _) hinner hstep

/-- The second of two values written along a path without appended elements stays. -/
theorem writePath_writePath (hsound : ∀ value, container = some value → value.Sound)
    (hkeys : none ∉ keys) (h : writePath container v keys = .ok result) (w : Value) :
    writePath (some result) w keys = writePath container w keys := by
  induction keys generalizing container result with
  | nil => rfl
  | cons step rest ih =>
    obtain ⟨table, inner, htable, hinner, rfl⟩ := writePath_cons_ok hsound h
    cases step with
    | none => exact absurd List.mem_cons_self hkeys
    | some key =>
      have hrest := ih (sound_of_get? hsound htable _)
        (fun hmem => hkeys (List.mem_cons_of_mem _ hmem)) hinner
      rw [Table.keyFor_some] at hrest ⊢
      rw [writePath_cons hsound, htable, writePath_array_some, Table.get?_set_self, hrest]
      simp only [Table.set_set]
      rfl

end Paths

/-- Writing an element along a path obeys the laws of a lens. It fails if and only if a value that
    is neither null nor an array is met on the way. Otherwise the element is read back, paths that
    part from the written one read as before, every array on the way keeps the order of its keys,
    gains the one it is entered by as the last one, if it is new, and moves its counter past it, and
    without appended elements a second write replaces the first one. -/
theorem writePath_lens (container : Option Value) (keys : List (Option Key)) (v : Value)
    (hsound : ∀ value, container = some value → value.Sound) :
    let path := pathKeys container keys
    (∀ cause, writePath container v keys = .error cause ↔
      ∃ level met, level < keys.length ∧ readFrom false container (path.take level) = some met ∧
        met.holdsElements = false ∧ cause = .misuse (.scalarAsArray met.type)) ∧
    ∀ result, writePath container v keys = .ok result →
      readPath false result path = .ok v ∧
      (∀ other, ¬path <+: other → ¬other <+: path →
        readFrom false (some result) other = readFrom false container other) ∧
      (∀ level step, keys[level]? = some step → ∃ before after key,
        tableToWrite (readFrom false container (path.take level)) = .ok before ∧
        readFrom false (some result) (path.take level) = some (.array after) ∧
        key = step.getD (.int before.next) ∧ path[level]? = some key ∧
        Dict.keys after.entries =
          (if key ∈ Dict.keys before.entries then Dict.keys before.entries
            else Dict.keys before.entries ++ [key]) ∧
        (∀ n, key = .int n → after.next = max before.next (n + 1)) ∧
        ∀ s, key = .str s → after.next = before.next) ∧
      (none ∉ keys → ∀ w, writePath (some result) w keys = writePath container w keys) := by
  intro path
  refine ⟨fun cause => writePath_eq_error hsound, fun result h => ⟨?_, ?_, ?_, ?_⟩⟩
  · have hread := readFrom_writePath hsound h
    cases hfound : readPath false result path with
    | error cause =>
      simp only [readFrom, path, hfound] at hread
      cases hread
    | ok found =>
      simp only [readFrom, path, hfound] at hread
      cases hread
      rfl
  · exact fun other => readFrom_writePath_of_diverges hsound h
  · intro level step hstep
    obtain ⟨before, inner, hbefore, hkey, hafter⟩ := tables_writePath hsound h hstep
    refine ⟨before, _, before.keyFor step, hbefore, hafter, rfl, hkey,
      Dict.keys_insert _ inner before.entries, fun n hn => ?_, fun s hs => ?_⟩
    · rw [hn]
      exact bumpNext_int before.next n
    · rw [hs]
      rfl
  · exact fun hkeys => writePath_writePath hsound hkeys h

/-- Writing `9` to `["k"][][3]` of `["k" => [4 => null], 0 => "hi"]` appends under the key 5. A
    write to `[0][]` meets the string. -/
theorem writePath_lens_append_inside :
    let container : Value :=
      .array ⟨[(.str "k", .array ⟨[(.int 4, .null)], 5⟩), (.int 0, .str "hi")], 1⟩
    let keys : List (Option Key) := [some (.str "k"), none, some (.int 3)]
    let result : Value := .array ⟨[(.str "k", .array ⟨[(.int 4, .null),
      (.int 5, .array ⟨[(.int 3, .int 9)], 4⟩)], 6⟩), (.int 0, .str "hi")], 1⟩
    container.Sound ∧ writePath (some container) (.int 9) keys = .ok result ∧
      readPath false result [.str "k", .int 5, .int 3] = .ok (.int 9) ∧
      readFrom false (some result) [.str "k", .int 4] = some .null ∧
      writePath (some container) (.int 9) [some (.int 0), none] =
        .error (.misuse (.scalarAsArray .string)) := by
  intro container keys result
  have hsound : container.Sound := by
    have hempty : (Value.array .empty).Sound := ValueInvariant.sound.empty
    have hkey : (Key.str "k").Normal := by
      unfold Key.Normal
      cbv
    have hfour : (Key.int 4).Normal := rfl
    have hzero : (Key.int 0).Normal := rfl
    have htext : (Value.str "hi").Sound := ValueInvariant.sound.str "hi"
    exact (hempty.set hkey (hempty.set hfour ValueInvariant.sound.null)).set hzero htext
  have hwritten : writePath (some container) (.int 9) keys = .ok result := rfl
  have hpath : pathKeys (some container) keys = [.str "k", .int 5, .int 3] := rfl
  have hcontainer : ∀ value, some container = some value → value.Sound := by
    rintro value ⟨⟩
    exact hsound
  obtain ⟨-, hlaws⟩ := writePath_lens (some container) keys (.int 9) hcontainer
  obtain ⟨hread, hframe, -⟩ := hlaws result hwritten
  obtain ⟨herror, -⟩ := writePath_lens (some container) [some (.int 0), none] (.int 9) hcontainer
  rw [hpath] at hread hframe
  refine ⟨hsound, hwritten, hread, ?_, ?_⟩
  · rw [hframe [.str "k", .int 4] (by decide) (by decide)]
    rfl
  · exact (herror _).mpr ⟨1, .str "hi", by decide, rfl, rfl, rfl⟩

end WebScript
