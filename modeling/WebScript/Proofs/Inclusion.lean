import WebScript.Proofs.Frame
import WebScript.Proofs.RunEndings

/-!
# Files that are included once

What a run reports is a chronicle of its files: each is reported when it is loaded, and from then
on counts as included. A file that is only ever asked for once is therefore loaded at most once,
however inclusions nest and whatever their paths look like. Files that count as included are never
forgotten, and only those that are there are added.
-/

namespace WebScript

/-! ## Loading -/

namespace Library

variable {library after : Library} {path : String} {once : Bool}

theorem resolve_congr {other : Library} (h : other.base = library.base) (path : String) :
    other.resolve path = library.resolve path := by
  unfold resolve
  rw [h]

theorem base_markResolved (library : Library) (file : Path) :
    (library.markResolved file).base = library.base := by
  unfold markResolved
  split <;> rfl

theorem mem_included_markResolved (library : Library) (file : Path) :
    file ∈ (library.markResolved file).included := by
  unfold markResolved
  split
  · rename_i h
    simpa using h
  · simp

/-- Marking a file keeps those that are marked. -/
theorem included_markResolved (library : Library) (file : Path) :
    library.included <+: (library.markResolved file).included := by
  unfold markResolved
  split
  · exact List.prefix_refl _
  · exact List.prefix_append _ _

/-- A file that is loaded is the one that the path leads to, counts as included afterwards, and did
    not count as included if it was asked for once. -/
theorem load_eq_program {file : Path} {parsed : Except SourceError (List Node)}
    (h : library.load path once = (.program file parsed, after)) :
    library.resolve path = .ok file ∧ after = library.markResolved file ∧
      (once = true → file ∉ library.included) := by
  unfold load at h
  cases hresolved : library.resolve path with
  | error limit =>
    rw [hresolved] at h
    cases h
  | ok resolved =>
    rw [hresolved] at h
    simp only [loadResolved] at h
    split at h
    · cases h
    · rename_i hskip
      split at h
      · cases h
      · cases h
      · cases h
        refine ⟨rfl, rfl, fun honce hmem => hskip ?_⟩
        simp [honce, hmem]

/-- Nothing but a file that is there changes what counts as included. -/
theorem load_eq_self (h : ∀ file parsed, (library.load path once).1 ≠ .program file parsed) :
    (library.load path once).2 = library := by
  unfold load at h ⊢
  cases hresolved : library.resolve path with
  | error limit => rfl
  | ok resolved =>
    rw [hresolved] at h
    simp only [loadResolved] at h ⊢
    split
    · rfl
    · rename_i hskip
      rw [if_neg hskip] at h
      split
      · rfl
      · rfl
      · rename_i hcontents
        rw [hcontents] at h
        exact absurd rfl (h _ _)

theorem base_load (library : Library) (path : String) (once : Bool) :
    (library.load path once).2.base = library.base := by
  unfold load loadResolved
  split
  · rfl
  · split
    · rfl
    · split
      · rfl
      · rfl
      · exact base_markResolved _ _

/-- What loading a file gives is what its text is parsed to. -/
theorem contents_of_load {file : Path} {parsed : Except SourceError (List Node)}
    (h : (library.load path once).1 = .program file parsed) :
    ∃ contents, library.contents file = .ok (some contents) ∧
      parse (readText contents) = parsed := by
  unfold load loadResolved at h
  split at h
  · cases h
  · split at h
    · cases h
    · split at h
      · cases h
      · cases h
      · rename_i contents hcontents
        cases h
        exact ⟨contents, hcontents, rfl⟩

/-- A file that is marked is skipped by a load that takes each file once. -/
theorem load_of_included {file : Path} (hresolved : library.resolve path = .ok file)
    (hfile : file ∈ library.included) : library.load path true = (.skipped, library) := by
  unfold load
  rw [hresolved]
  simp [loadResolved, hfile]

/-- A file that is not there is not marked. -/
theorem load_of_missing {file : Path} (hresolved : library.resolve path = .ok file)
    (hfile : library.contents file = .ok none) :
    library.load path once = (.skipped, library) ∨
      library.load path once = (.missing, library) := by
  simp only [load, hresolved, loadResolved, hfile]
  split
  · exact Or.inl rfl
  · exact Or.inr rfl

/-- The file at the path of a run counts as included. -/
theorem mem_included_forRun {marked : Library} {main : String} {file : Path}
    (h : library.forRun (some main) = .ok marked) (hfile : library.resolve main = .ok file) :
    file ∈ marked.included := by
  simp only [forRun, mark, hfile, Except.map] at h
  cases h
  exact mem_included_markResolved library file

end Library

/-! ## Chronicles -/

/-- What a library has become since `initial`, while the events were reported, the latest first.
    Files with the property `single` are only asked for once. -/
structure Library.Chronicle (initial : Library) (single : Path → Prop) (library : Library)
    (events : List Event) : Prop where
  base : library.base = initial.base
  included : initial.included <+: library.included
  loaded : ∀ file, .fileLoaded file ∈ events → file ∈ library.included
  atMostOnce : ∀ file, single file →
    events.count (.fileLoaded file) ≤ if file ∈ initial.included then 0 else 1

namespace Library.Chronicle

variable {initial library after : Library} {single : Path → Prop} {events : List Event}

theorem refl (initial : Library) (single : Path → Prop) : Chronicle initial single initial [] :=
  ⟨rfl, List.prefix_refl _, nofun, fun _ _ => Nat.zero_le _⟩

theorem report (h : Chronicle initial single library events) {event : Event}
    (hevent : ∀ file, event ≠ .fileLoaded file) :
    Chronicle initial single library (event :: events) := by
  refine ⟨h.base, h.included, fun file hfile => ?_, fun file hsingle => ?_⟩
  · rcases List.mem_cons.mp hfile with heq | hfile
    · exact absurd heq.symm (hevent file)
    · exact h.loaded file hfile
  · rw [List.count_cons_of_ne (hevent file)]
    exact h.atMostOnce file hsingle

/-- A file is loaded: if it is only asked for once, this is the first time. -/
theorem fileLoaded (h : Chronicle initial single library events) {file : Path}
    (hnew : single file → file ∉ library.included) :
    Chronicle initial single (library.markResolved file) (.fileLoaded file :: events) := by
  refine ⟨(base_markResolved library file).trans h.base,
    h.included.trans (included_markResolved library file), fun other hother => ?_,
    fun other hsingle => ?_⟩
  · rcases List.mem_cons.mp hother with heq | hother
    · cases heq
      exact mem_included_markResolved library file
    · exact (included_markResolved library file).subset (h.loaded other hother)
  · by_cases heq : other = file
    · subst heq
      have hfile : other ∉ library.included := hnew hsingle
      have hbefore : events.count (.fileLoaded other) = 0 :=
        List.count_eq_zero.mpr fun hmem => hfile (h.loaded other hmem)
      have hinitial : other ∉ initial.included := fun hmem => hfile (h.included.subset hmem)
      rw [List.count_cons_self, hbefore, if_neg hinitial]
    · rw [List.count_cons_of_ne fun hevent => heq (Event.fileLoaded.inj hevent).symm]
      exact h.atMostOnce other hsingle

/-- Loading a file adds to the chronicle what is reported about it. -/
theorem load (h : Chronicle initial single library events) {path : String} {once : Bool}
    {loaded : Library.Loaded} (hload : library.load path once = (loaded, after))
    (hsingle : ∀ file, initial.resolve path = .ok file → single file → once = true)
    (keyword : String) :
    Chronicle initial single after (loaded.events keyword path ++ events) := by
  have hsame : (∀ file parsed, loaded ≠ .program file parsed) → after = library := by
    intro hloaded
    have hself := @load_eq_self library path once
    rw [hload] at hself
    exact hself hloaded
  cases loaded with
  | refused | skipped | missing =>
    cases hsame nofun
    exact h
  | program file parsed =>
    obtain ⟨hresolved, rfl, honce⟩ := load_eq_program hload
    rw [← resolve_congr h.base path] at hsingle
    have hfile := h.fileLoaded fun hfile => honce (hsingle file hresolved hfile)
    cases parsed with
    | error error => exact hfile
    | ok nodes => exact hfile.report nofun

end Library.Chronicle

/-! ## Chronicles of runs -/

/-- Every inclusion of the file in the run that starts at the moment asks for it once, however its
    path is written. -/
def Moment.IncludesOnce (config : Config) (start : Moment) (initial : Library) (file : Path) :
    Prop :=
  ∀ (moment : Moment) (path : String) (once fatal : Bool), start.Leads config moment →
    moment.activity = .file path once fatal → initial.resolve path = .ok file → once = true

/-- The machine has gone on from a library and a log as a chronicle tells. -/
def Machine.Continues (initial : Library) (single : Path → Prop) (earlier : List Event)
    (machine : Machine) : Prop :=
  ∃ library events, machine.library = some library ∧ machine.log = events ++ earlier ∧
    initial.Chronicle single library events

theorem Machine.Continues.report {initial : Library} {single : Path → Prop} {earlier : List Event}
    {machine : Machine} (h : machine.Continues initial single earlier) {event : Event}
    (hevent : event.isLoading = false) :
    (machine.withEvents [event]).Continues initial single earlier := by
  obtain ⟨library, events, hlibrary, hlog, hchronicle⟩ := h
  refine ⟨library, event :: events, hlibrary, ?_, hchronicle.report ?_⟩
  · simp [withEvents, hlog]
  · rintro file rfl
    cases hevent

/-- The files of a run, told from its start. -/
def RunInvariant.chronicle (config : Config) (start : Moment) (initial : Library) :
    RunInvariant config where
  toValueClosure := ValueInvariant.always.toValueClosure
  reached := start.Leads config
  machine := Machine.Continues initial (start.IncludesOnce config initial) start.machine.log
  exit _ := True
  reached_starts h _ hstarts := h.tail hstarts
  int _ := trivial
  append _ _ _ _ := trivial
  write _ _ _ _ _ _ := trivial
  read _ _ := trivial
  report h hevent := h.report hevent
  output _ h := h
  bind _ _ h _ _ := h
  define _ h := h
  enter h := h
  leave _ h := h
  leaveOpen _ _ h := h
  load := by
    intro depth path once fatal m loaded after hreached h hload
    obtain ⟨library, events, hlibrary, hlog, hchronicle⟩ := h
    rw [hlibrary] at hload
    cases hload
    refine ⟨_, _, rfl, ?_, hchronicle.load rfl ?_ (requireKeyword once fatal)⟩
    · simp [Machine.withEvents, Machine.withLibrary, hlog]
    · exact fun file hresolved hsingle => hsingle _ path once fatal hreached rfl hresolved
  error _ _ := trivial
  limit _ := trivial
  source _ := trivial
  ret _ _ := trivial
  returned _ := trivial

/-- The files that count as included. -/
def Machine.included (machine : Machine) : List Path :=
  machine.library.elim [] Library.included

section

variable {config : Config} {start moment : Moment} {initial : Library}

/-- The chronicle of a run goes on at every moment. -/
theorem chronicle_sound (hstart : start.machine.library = some initial)
    (hleads : start.Leads config moment) :
    (RunInvariant.chronicle config start initial).Sound moment := by
  have hsound : (RunInvariant.chronicle config start initial).Sound start :=
    ⟨.refl, ⟨initial, [], hstart, rfl, .refl initial _⟩,
      RunInvariant.startsWell_of_always (fun _ => trivial) (fun _ => trivial) _⟩
  exact hsound.leads hleads

/-- Files that were marked before a run stay marked. -/
theorem Machine.Continues.included {single : Path → Prop} {earlier : List Event} {machine : Machine}
    (h : machine.Continues initial single earlier) : initial.included <+: machine.included := by
  obtain ⟨library, events, hlibrary, -, hchronicle⟩ := h
  unfold Machine.included
  rw [hlibrary]
  exact hchronicle.included

/-- What counts as included at a moment still does later, and when the activity has ended. -/
theorem included_prefix (hstart : start.machine.library = some initial)
    (hleads : start.Leads config moment) :
    initial.included <+: moment.machine.included ∧
      initial.included <+:
        ((moment.activity.run config moment.depth).after moment.machine).included := by
  have hsound := chronicle_sound hstart hleads
  have hbefore : moment.machine.Continues initial _ _ := hsound.machine
  have hafter : ((moment.activity.run config moment.depth).after moment.machine).Continues
      initial _ _ := hsound.machine_after
  exact ⟨hbefore.included, hafter.included⟩

theorem exists_library (hstart : start.machine.library = some initial)
    (hleads : start.Leads config moment) :
    ∃ library, moment.machine.library = some library ∧
      library.included = moment.machine.included := by
  obtain ⟨library, -, hlibrary, -⟩ := (chronicle_sound hstart hleads).machine
  exact ⟨library, hlibrary, by simp [Machine.included, hlibrary]⟩

/-- Including a file once that counts as included only reports that it is skipped. -/
theorem includeFile_of_included {run : Node → Eval Value} {machine : Machine} {library : Library}
    {path : String} {file : Path} (fatal : Bool) (hlibrary : machine.library = some library)
    (hresolved : library.resolve path = .ok file) (hfile : file ∈ library.included) :
    includeFile run path true fatal machine =
      .ok (.bool true) (machine.withEvents [.includeSkipped (requireKeyword true fatal) path]) := by
  have hload : Library.loadFrom machine.library path true = (.skipped, machine.library) := by
    rw [hlibrary]
    simp only [Library.loadFrom, Library.load_of_included hresolved hfile]
  rw [includeFile_eq, hload]
  rfl

/-- A failed inclusion leaves the library as it was. -/
theorem library_after_missing {run : Node → Eval Value} {machine : Machine} {library : Library}
    {path : String} {file : Path} (once fatal : Bool) (hlibrary : machine.library = some library)
    (hresolved : library.resolve path = .ok file) (hfile : library.contents file = .ok none) :
    ((includeFile run path once fatal).after machine).library = some library := by
  have hload : Library.loadFrom machine.library path once = (.skipped, machine.library) ∨
      Library.loadFrom machine.library path once = (.missing, machine.library) := by
    rw [hlibrary]
    rcases @Library.load_of_missing library path once file hresolved hfile with hload | hload
    · exact Or.inl (by simp only [Library.loadFrom, hload])
    · exact Or.inr (by simp only [Library.loadFrom, hload])
  unfold Eval.after
  rw [includeFile_eq]
  rcases hload with hload | hload
  · rw [hload]
    exact hlibrary
  · rw [hload]
    cases fatal with
    | true => exact hlibrary
    | false => exact hlibrary

end

theorem evalProgram_snd (config : Config) (nodes : List Node) (machine : Machine) :
    (evalProgram config nodes machine).2 =
      ((Activity.statements nodes).run config maxNesting).after machine := by
  unfold evalProgram evalNode Eval.after
  simp only [Activity.run, bind, EStateM.bind]
  cases runStatements (evalWithin config maxNesting) nodes machine with
  | ok value after => rfl
  | error exit after => cases exit <;> rfl

/-- The count of a file among what has been reported is bounded by its chronicle. -/
theorem Machine.Continues.count_le {initial : Library} {single : Path → Prop} {machine : Machine}
    (h : machine.Continues initial single []) {file : Path} (hsingle : single file) :
    machine.log.count (.fileLoaded file) ≤ if file ∈ initial.included then 0 else 1 := by
  obtain ⟨library, events, -, hlog, hchronicle⟩ := h
  rw [hlog, List.append_nil]
  exact hchronicle.atMostOnce file hsingle

theorem Moment.log_ofProgram (config : Config) (library : Library) (nodes : List Node) :
    (Moment.ofProgram config library nodes).machine.log = [] := by
  obtain ⟨listing, hlisting⟩ := (Machine.start (some library)).writeListing_eq config nodes
  simp only [Moment.ofProgram, hlisting]
  rfl

theorem Moment.library_ofProgram (config : Config) (library : Library) (nodes : List Node) :
    (Moment.ofProgram config library nodes).machine.library = some library := by
  obtain ⟨listing, hlisting⟩ := (Machine.start (some library)).writeListing_eq config nodes
  simp only [Moment.ofProgram, hlisting]
  rfl

/-- Before the statements of a file run, its loading is reported. -/
theorem count_of_starts {config : Config} {initial : Library} {single : Path → Prop}
    {earlier : List Event} {moment started : Moment} {path : String} {once fatal : Bool}
    (hmoment : moment.machine.Continues initial single earlier)
    (hactivity : moment.activity = .file path once fatal) (hstarts : Starts config moment started) :
    ∃ file, initial.resolve path = .ok file ∧
      started.machine.log.count (.fileLoaded file) =
        moment.machine.log.count (.fileLoaded file) + 1 := by
  obtain ⟨depth, activity, machine⟩ := moment
  cases hactivity
  obtain ⟨library, events, hlibrary, -, hchronicle⟩ := hmoment
  cases hstarts with
  | @included _ _ _ file nodes after _ _ hload =>
    rw [show machine.library = some library from hlibrary] at hload
    obtain ⟨hload, -⟩ := Prod.ext_iff.mp hload
    obtain ⟨hresolved, -, -⟩ := Library.load_eq_program (Prod.ext hload rfl)
    refine ⟨file, Library.resolve_congr hchronicle.base path ▸ hresolved, ?_⟩
    simp [Machine.withEvents, Machine.withLibrary]

/-- A node that asks once for a file that counts as included gives true. -/
theorem evalAt_require_of_included {config : Config} {depth : Nat} {reading : Reading}
    {line : Option Int} {expr : Node} {fatal : Bool} {machine after : Machine} {path : String}
    {library : Library} {file : Path}
    (hpath : (do Eval.ofNoted (← expr.evalAt config depth .strict).text) machine = .ok path after)
    (hlibrary : after.library = some library) (hresolved : library.resolve path = .ok file)
    (hfile : file ∈ library.included) :
    Node.evalAt config depth reading ⟨line, .require expr true fatal⟩ machine =
      .ok (.bool true)
        (after.withEvents [.includeSkipped (requireKeyword true fatal) path]) := by
  rw [Node.evalAt, Node.evalAs]
  unfold Eval.located
  rw [← bind_assoc, Eval.bind_of_ok _ hpath, includeFile_of_included fatal hlibrary hresolved hfile]

/-- Files are included once. In every run of an accepted program, with the files of `marked`, among
    which the file at the path of the run counts as included: a file that every inclusion asks for
    once is loaded at most once, and never if it counts as included from the start; whenever the
    statements of a file are about to run, a further loading of it has been reported. Asking once
    for a file that counts as included or has been loaded gives true, and changes nothing but the
    log beyond what evaluating the path changes. What counts as included at a moment still does at
    all later ones, and a file that is missing changes nothing in the library. -/
theorem files_included_at_most_once {source : String} {nodes : List Node}
    (h : parse source = .ok nodes) (config : Config) {library marked : Library}
    {path : Option String} (hmarked : library.forRun path = .ok marked) :
    (∀ file, (Moment.ofProgram config marked nodes).IncludesOnce config marked file →
      (runSource config library source path).2.log.count (.fileLoaded file) ≤
          (if file ∈ marked.included then 0 else 1) ∧
        ∀ moment, (Moment.ofProgram config marked nodes).Leads config moment →
          moment.machine.log.count (.fileLoaded file) ≤
            if file ∈ marked.included then 0 else 1) ∧
    (∀ main file, path = some main → library.resolve main = .ok file → file ∈ marked.included) ∧
    (∀ moment started target once fatal,
      (Moment.ofProgram config marked nodes).Leads config moment →
      moment.activity = .file target once fatal → Starts config moment started →
      ∃ file, marked.resolve target = .ok file ∧
        started.machine.log.count (.fileLoaded file) =
          moment.machine.log.count (.fileLoaded file) + 1) ∧
    (∀ depth reading line expr fatal machine after target file,
      (Moment.ofProgram config marked nodes).Leads config
        ⟨depth, .eval reading ⟨line, .require expr true fatal⟩, machine⟩ →
      (do Eval.ofNoted (← expr.evalAt config depth .strict).text) machine = .ok target after →
      marked.resolve target = .ok file →
      (file ∈ marked.included ∨ .fileLoaded file ∈ after.log) →
      Node.evalAt config depth reading ⟨line, .require expr true fatal⟩ machine =
        .ok (.bool true)
          (after.withEvents [.includeSkipped (requireKeyword true fatal) target])) ∧
    (∀ earlier later, (Moment.ofProgram config marked nodes).Leads config earlier →
      earlier.Leads config later →
      earlier.machine.included <+: later.machine.included ∧
        earlier.machine.included <+:
          ((later.activity.run config later.depth).after later.machine).included) ∧
    ∀ depth target once fatal file machine files, machine.library = some files →
      files.resolve target = .ok file → files.contents file = .ok none →
      ((includeFile (evalWithin config depth) target once fatal).after machine).library =
        some files := by
  have hstart := Moment.library_ofProgram config marked nodes
  have hlog := Moment.log_ofProgram config marked nodes
  refine ⟨fun file honce => ⟨?_, fun moment hleads => ?_⟩, ?_, ?_, ?_, ?_, ?_⟩
  · have hafter : (((Moment.ofProgram config marked nodes).activity.run config maxNesting).after
        (Moment.ofProgram config marked nodes).machine).Continues marked _ _ :=
      (chronicle_sound hstart .refl).machine_after
    rw [hlog] at hafter
    rw [runSource_of_parse h, hmarked]
    simp only [evalProgram_snd]
    exact hafter.count_le honce
  · have hmoment : moment.machine.Continues marked _ _ := (chronicle_sound hstart hleads).machine
    rw [hlog] at hmoment
    exact hmoment.count_le honce
  · rintro main file rfl hfile
    exact Library.mem_included_forRun hmarked hfile
  · intro moment started target once fatal hleads hactivity hstarts
    exact count_of_starts (chronicle_sound hstart hleads).machine hactivity hstarts
  · intro depth reading line expr fatal machine after target file hleads hpath hresolved hfile
    have hinclusion := hleads.tail (.inclusion hpath)
    obtain ⟨files, events, hfiles, hevents, hchronicle⟩ :=
      (chronicle_sound hstart hinclusion).machine
    rw [hlog, List.append_nil] at hevents
    refine evalAt_require_of_included hpath hfiles
      ((Library.resolve_congr hchronicle.base target).trans hresolved) ?_
    rcases hfile with hfile | hfile
    · exact hchronicle.included.subset hfile
    · exact hchronicle.loaded file (hevents ▸ hfile)
  · intro earlier later hearlier hlater
    obtain ⟨files, hfiles, hincluded⟩ := exists_library hstart hearlier
    rw [← hincluded]
    exact included_prefix hfiles hlater
  · intro depth target once fatal file machine files hfiles hresolved hmissing
    exact library_after_missing once fatal hfiles hresolved hmissing

/-- A program that includes itself once. -/
theorem files_included_at_most_once_self :
    let node : Node := ⟨some 1, .require ⟨some 1, .str "a"⟩ true false⟩
    let library : Library := .ofFiles [] [(["a"], "include_once 'a';")]
    let marked : Library := ⟨[], [(["a"], "include_once 'a';")], [["a"]]⟩
    let machine := Machine.start (some marked)
    parse "include_once 'a';" = .ok [node] ∧ library.forRun (some "a") = .ok marked ∧
      (Moment.ofProgram {} marked [node]).Leads {} ⟨3332, .eval .strict node, machine⟩ ∧
      node.evalAt {} 3332 .strict machine =
        .ok (.bool true) (machine.withEvents [.includeSkipped "include_once" "a"]) := by
  intro node library marked machine
  have hparse : parse "include_once 'a';" = .ok [node] := by
    have htokens : tokens (expandTags "include_once 'a';".toList) =
        [⟨.require true false, "include_once", 1, 1⟩, ⟨.single ['a'], "'a'", 1, 14⟩,
          ⟨.semicolon, ";", 1, 17⟩] := by
      decide +kernel
    rw [parse, htokens]
    rfl
  have hmarked : library.forRun (some "a") = .ok marked := rfl
  have hleads : (Moment.ofProgram {} marked [node]).Leads {} ⟨3332, .eval .strict node, machine⟩ :=
    .single .statementsHead
  obtain ⟨-, hmain, -, honce, -, -⟩ := files_included_at_most_once hparse {} hmarked
  exact ⟨hparse, hmarked, hleads,
    honce _ _ _ _ _ _ _ _ ["a"] hleads rfl rfl (Or.inl (hmain "a" ["a"] rfl rfl))⟩

end WebScript
