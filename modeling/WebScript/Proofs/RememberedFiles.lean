import WebScript.Proofs.Inclusion

/-!
# Files that a library remembers

A file is remembered from the moment it is found, before its text is parsed. A load that finds no file
leaves the library as it was; one whose file is no program does not, and the file is skipped from then
on even when its text has been corrected. Over all uses of a library, the files that it remembers are
those that a load found or that were marked.
-/

namespace WebScript

namespace Library

variable {library : Library} {file : Path} {path : String} {once : Bool}

/-! ## One load -/

theorem load_eq_loadResolved (h : library.resolve path = .ok file) :
    library.load path once = library.loadResolved file once := by
  unfold load
  rw [h]

/-- A load whose file is there either skips it or reads it. -/
theorem load_of_found (hresolved : library.resolve path = .ok file) {text : String}
    (hfound : library.contents file = .ok (some text)) :
    library.load path once =
      if once = true ∧ file ∈ library.included then (.skipped, library)
      else (.program file (parse (readText text)), library.markResolved file) := by
  rw [load_eq_loadResolved hresolved]
  simp only [loadResolved, hfound, Bool.and_eq_true, List.contains_iff_mem]

theorem mem_included_markResolved_iff {marked : Path} :
    file ∈ (library.markResolved marked).included ↔ file ∈ library.included ∨ marked = file := by
  unfold markResolved
  split
  · rename_i hmem
    have hmem : marked ∈ library.included := by simpa using hmem
    exact ⟨Or.inl, fun h => h.elim id fun heq => heq ▸ hmem⟩
  · simp [eq_comm]

theorem markResolved_eq_self : library.markResolved file = library ↔ file ∈ library.included := by
  constructor
  · intro h
    exact h ▸ mem_included_markResolved library file
  · intro h
    unfold markResolved
    rw [if_pos (List.contains_iff_mem.mpr h)]

theorem load_eq_self_of_not_found (hresolved : library.resolve path = .ok file)
    (h : ¬ ∃ text, library.contents file = .ok (some text)) :
    (library.load path once).2 = library := by
  refine load_eq_self fun other parsed hprogram => h ?_
  obtain ⟨hother, -, -⟩ := load_eq_program (Prod.ext hprogram rfl)
  obtain ⟨text, hcontents, -⟩ := contents_of_load hprogram
  rw [hresolved] at hother
  exact ⟨text, Except.ok.inj hother ▸ hcontents⟩

/-- After a load, the files remembered are those from before and the one that it found. -/
theorem mem_included_load (path : String) (once : Bool) :
    file ∈ (library.load path once).2.included ↔
      file ∈ library.included ∨
        library.resolve path = .ok file ∧ ∃ text, library.contents file = .ok (some text) := by
  cases hresolved : library.resolve path with
  | error limit => simp [load, hresolved]
  | ok found =>
    rw [Except.ok.injEq]
    by_cases htext : ∃ text, library.contents found = .ok (some text)
    · obtain ⟨text, htext⟩ := htext
      have hfinds : (found = file ∧ ∃ text, library.contents file = .ok (some text)) ↔
          found = file := by
        refine and_iff_left_of_imp ?_
        rintro rfl
        exact ⟨text, htext⟩
      rw [load_of_found hresolved htext, hfinds]
      split
      · rename_i hskip
        refine ⟨Or.inl, fun h => h.elim id ?_⟩
        rintro rfl
        exact hskip.2
      · exact mem_included_markResolved_iff
    · rw [load_eq_self_of_not_found hresolved htext]
      refine ⟨Or.inl, fun h => h.elim id ?_⟩
      rintro ⟨rfl, hfound⟩
      exact absurd hfound htext

/-! ## Uses of a library -/

/-- What can happen to a library. -/
inductive Use where
  | load (path : String) (once : Bool)
  | mark (path : String)
  /-- The files become other ones. -/
  | change (files : Dict Path String)

/-- The library after a use. A load or a mark that is refused leaves it as it was. -/
def use (library : Library) : Use → Library
  | .load path once => (library.load path once).2
  | .mark path =>
    match library.mark path with
    | .ok marked => marked
    | .error _ => library
  | .change files => { library with files := files }

/-- The library after uses one after another. -/
def useAll (library : Library) (uses : List Use) : Library := uses.foldl use library

/-- A use leads to a file: a load of a path to it finds it, whatever its text, or a path to it is
    marked. -/
def Use.Finds (library : Library) (file : Path) : Use → Prop
  | .load path _ =>
    library.resolve path = .ok file ∧ ∃ text, library.contents file = .ok (some text)
  | .mark path => library.resolve path = .ok file
  | .change _ => False

/-- Some of the uses leads to a file. -/
def Found (file : Path) : Library → List Use → Prop
  | _, [] => False
  | library, step :: rest => step.Finds library file ∨ Found file (library.use step) rest

theorem use_mark_of_resolve (h : library.resolve path = .ok file) :
    library.use (.mark path) = library.markResolved file := by
  simp only [use, mark, h, Except.map]

theorem use_mark_of_refused {limit : Limit} (h : library.resolve path = .error limit) :
    library.use (.mark path) = library := by
  simp only [use, mark, h, Except.map]

theorem base_use (library : Library) (step : Use) : (library.use step).base = library.base := by
  cases step with
  | change files => rfl
  | mark path =>
    cases hresolved : library.resolve path with
    | error limit => rw [use_mark_of_refused hresolved]
    | ok file => rw [use_mark_of_resolve hresolved, base_markResolved]
  | load path once => exact base_load library path once

theorem base_useAll (library : Library) (uses : List Use) :
    (library.useAll uses).base = library.base := by
  induction uses generalizing library with
  | nil => rfl
  | cons step rest ih => exact (ih (library.use step)).trans (base_use library step)

/-- After a use, the files remembered are those from before and the one that it led to. -/
theorem mem_included_use (step : Use) :
    file ∈ (library.use step).included ↔ file ∈ library.included ∨ step.Finds library file := by
  cases step with
  | change files => simp [use, Use.Finds]
  | mark path =>
    cases hresolved : library.resolve path with
    | error limit => simp [use_mark_of_refused hresolved, Use.Finds, hresolved]
    | ok marked =>
      rw [use_mark_of_resolve hresolved, mem_included_markResolved_iff]
      simp [Use.Finds, hresolved]
  | load path once => exact mem_included_load path once

/-- After uses one after another, the files remembered are those from before and those that the uses
    led to. -/
theorem mem_included_useAll (uses : List Use) :
    file ∈ (library.useAll uses).included ↔ file ∈ library.included ∨ Found file library uses := by
  induction uses generalizing library with
  | nil => exact (or_iff_left id).symm
  | cons step rest ih =>
    show file ∈ ((library.use step).useAll rest).included ↔ _
    rw [ih, mem_included_use, or_assoc]
    rfl

/-! ## Failed loads -/

/-- A load that finds no file leaves the library as it was, and one whose file is no program
    remembers the file. After any uses of a library, a path to a file that it remembered at first,
    or that one of them led to, is skipped when it is asked for once, whatever the file has become;
    otherwise, the path gives the statements of the file as soon as there is one. -/
theorem load_remembers_found (library : Library) :
    (∀ path once,
      (∀ limit, (library.load path once).1 = .refused limit →
        (library.load path once).2 = library) ∧
      ((library.load path once).1 = .missing → (library.load path once).2 = library) ∧
      ∀ file error, (library.load path once).1 = .program file (.error error) →
        (library.load path once).2 = library.markResolved file ∧
        ((library.load path once).2 = library ↔ file ∈ library.included)) ∧
    ∀ uses path file, library.resolve path = .ok file →
      let later := library.useAll uses
      (file ∈ library.included ∨ Found file library uses → later.load path true = (.skipped, later)) ∧
      (¬ (file ∈ library.included ∨ Found file library uses) →
        ∀ text, later.contents file = .ok (some text) →
          later.load path true = (.program file (parse (readText text)), later.markResolved file)) := by
  constructor
  · intro path once
    refine ⟨fun limit h => load_eq_self (by rw [h]; exact nofun),
      fun h => load_eq_self (by rw [h]; exact nofun), fun file error h => ?_⟩
    have hafter : (library.load path once).2 = library.markResolved file :=
      (load_eq_program (Prod.ext h rfl)).2.1
    exact ⟨hafter, hafter.symm ▸ markResolved_eq_self⟩
  · intro uses path file hresolved later
    have hlater : later.resolve path = .ok file := by
      rw [resolve_congr (base_useAll library uses), hresolved]
    refine ⟨fun h => load_of_included hlater ((mem_included_useAll uses).mpr h),
      fun h text hfound => ?_⟩
    rw [load_of_found hlater hfound, if_neg fun hskip => h ((mem_included_useAll uses).mp hskip.2)]

/-- A file that was missing is loaded once it is there; one that was no program is skipped. -/
theorem load_remembers_found_created :
    let library := ofFiles [] [(["b"], "echo")]
    let uses : List Use :=
      [.load "a" true, .load "b" true, .change [(["a"], "1;"), (["b"], "1;")]]
    let later := library.useAll uses
    (library.load "a" true).1 = .missing ∧ (library.load "a" true).2 = library ∧
      later.load "./a" true =
        (.program ["a"] (.ok [⟨some 1, .int 1⟩]), later.markResolved ["a"]) ∧
      later.load "b" true = (.skipped, later) := by
  intro library uses later
  have hparse : parse (readText "1;") = .ok [⟨some 1, .int 1⟩] := by
    have htokens : tokens (expandTags (readText "1;").toList) =
        [⟨.int ['1'], "1", 1, 1⟩, ⟨.semicolon, ";", 1, 2⟩] := by
      decide +kernel
    rw [parse, htokens]
    rfl
  have hmissing : (library.load "a" true).1 = .missing := rfl
  have hfound : Found ["b"] library uses := Or.inr (Or.inl ⟨rfl, "echo", rfl⟩)
  have hnew : ¬ (["a"] ∈ library.included ∨ Found ["a"] library uses) := by
    rintro (hincluded | ⟨-, text, htext⟩ | ⟨hpath, -⟩ | hchange | hnone)
    · cases hincluded
    · cases htext
    · exact absurd (Except.ok.inj hpath) (by decide)
    · exact hchange
    · exact hnone
  obtain ⟨hfailed, honce⟩ := load_remembers_found library
  obtain ⟨-, hkept, -⟩ := hfailed "a" true
  have hcreated := (honce uses "./a" ["a"] rfl).2 hnew "1;" rfl
  rw [hparse] at hcreated
  exact ⟨hmissing, hkept hmissing, hcreated, (honce uses "b" ["b"] rfl).1 (Or.inr hfound)⟩

/-- A load that fails with a parse error changes what is remembered, and the corrected file is
    skipped. -/
theorem load_remembers_broken_file :
    let library := ofFiles [] [(["a"], "echo")]
    let after := (library.load "a" true).2
    let corrected : Library := { after with files := [(["a"], "1;")] }
    (library.load "a" true).1 =
        .program ["a"] (.error (.parse ⟨.unexpectedEnd, some 1, some 1⟩)) ∧
      library.included = [] ∧ after.included = [["a"]] ∧
      corrected.load "a" true = (.skipped, corrected) := by
  intro library after corrected
  have hparse : parse (readText "echo") = .error (.parse ⟨.unexpectedEnd, some 1, some 1⟩) := by
    have htokens : tokens (expandTags (readText "echo").toList) =
        [⟨.keyword .echo, "echo", 1, 1⟩] := by
      decide +kernel
    rw [parse, htokens]
    rfl
  refine ⟨?_, rfl, rfl, rfl⟩
  rw [← hparse]
  rfl

end Library

end WebScript
