import WebScript.Proofs.Inclusion
import WebScript.Proofs.ParsedShape

/-!
# Where errors happen

An error has the line of the node that it first passes through. All nodes that a run evaluates are
nodes of its program or of the files that it includes, wherever they have been in the meantime: a
function keeps its statements until it is called, perhaps by another file. As all nodes that parsing
gives have lines, so have all errors, and they are lines of those texts.
-/

namespace WebScript

/-! ## Files of a library -/

namespace Library

variable {library other : Library}

/-- Two libraries have the same files, whatever has been loaded from them. -/
structure SameFiles (library other : Library) : Prop where
  base : library.base = other.base
  files : library.files = other.files

theorem SameFiles.load (h : library.SameFiles other) (path : String) (once : Bool) :
    (library.load path once).2.SameFiles other :=
  ⟨(base_load library path once).trans h.base, (files_load library path once).trans h.files⟩

theorem SameFiles.follow_eq (h : library.SameFiles other) (resolved parts : List String) :
    library.follow resolved parts = other.follow resolved parts := by
  have hdirectory : ∀ path, library.isDirectory path = other.isDirectory path := by
    intro path
    unfold isDirectory
    rw [h.base, h.files]
  induction parts generalizing resolved with
  | nil => rw [follow, follow, h.files]
  | cons part rest ih =>
    rw [follow, follow, hdirectory, ih, ih]

theorem SameFiles.contents_eq (h : library.SameFiles other) (path : Path) :
    library.contents path = other.contents path := by
  unfold contents
  rw [h.follow_eq]

end Library

/-! ## Where nodes come from -/

/-- The nodes that an activity works through. -/
def Activity.nodes : Activity → List Node
  | .eval _ node | .keys node => [node]
  | .list nodes | .block nodes | .loop _ _ nodes _ | .body nodes | .statements nodes => nodes
  | .elseIfs _ clauses => Form.elseIfNodes clauses
  | .items _ rest => Form.itemNodes rest
  | .call function _ => Form.paramNodes function.params ++ function.body
  | .params _ _ rest _ => Form.paramNodes rest
  | .write .. | .file .. => []

/-- Where the nodes come from that an activity hands on: they are its own or directly inside one of
    its own, or those of a function that it calls or of a file that it loads. -/
inductive Supplies : Moment → Node → Prop
  | own {inner : Node} (h : inner ∈ activity.nodes) : Supplies ⟨depth, activity, machine⟩ inner
  | child {inner whole : Node} (hwhole : whole ∈ activity.nodes) (h : inner ∈ whole.children) :
    Supplies ⟨depth, activity, machine⟩ inner
  | function {inner : Node} (hfunction : machine.functions.lookup? name = some function)
    (h : inner ∈ Form.paramNodes function.params ++ function.body) :
    Supplies ⟨depth, activity, machine⟩ inner
  | file {inner : Node} (hload : Library.loadFrom machine.library path once =
      (.program file (.ok statements), library)) (h : inner ∈ statements) :
    Supplies ⟨depth, .file path once fatal, machine⟩ inner

section

variable {config : Config} {first second : Moment} {inner : Node}

/-- An activity only works through nodes that the one that started it has supplied. -/
theorem supplies_of_starts (h : Starts config first second)
    (hinner : inner ∈ second.activity.nodes) : Supplies first inner := by
  cases h with
  | echo | otherwise | literal | args => exact .child List.mem_cons_self hinner
  | elseIf | loop => exact .child List.mem_cons_self (List.mem_cons_of_mem _ hinner)
  | ret | iterated | path | coalesced | left | operand | appended | base | assignKeys | updateKeys
  | arg | outerKeys =>
    cases List.mem_singleton.mp hinner
    exact .child List.mem_cons_self List.mem_cons_self
  | whenNull | right | dim | assigned | updated | key =>
    exact .child List.mem_cons_self (List.mem_cons_of_mem _ hinner)
  | condition =>
    cases List.mem_singleton.mp hinner
    exact .child List.mem_cons_self (by simp [Node.children, Form.children])
  | whenTrue | whenFalse | whenNone =>
    refine .child List.mem_cons_self ?_
    simp only [Activity.nodes] at hinner
    simp [Node.children, Form.children, Form.otherwiseNodes, hinner]
  | inclusion | assignWrite | updateWrite | coalesceWrite => cases hinner
  | call hfunction => exact .function hfunction hinner
  | listHead | blockHead | bodyHead | statementsHead =>
    cases List.mem_singleton.mp hinner
    exact .own List.mem_cons_self
  | listTail | blockTail | bodyTail | statementsTail => exact .own (List.mem_cons_of_mem _ hinner)
  | clauseCondition | itemValue =>
    cases List.mem_singleton.mp hinner
    exact .own (List.mem_append_left _ List.mem_cons_self)
  | clauseBody | itemKey =>
    exact .own (List.mem_append_left _ (List.mem_cons_of_mem _ hinner))
  | clausesAfterBody | clausesAfterCondition | itemAppended | itemSet | paramPassed
  | paramDefaulted => exact .own (List.mem_append_right _ hinner)
  | loopBody | loopRest => exact .own hinner
  | callParams => exact .own (List.mem_append_left _ hinner)
  | callBody => exact .own (List.mem_append_right _ hinner)
  | paramDefault hdefault =>
    cases List.mem_singleton.mp hinner
    exact .own (Form.mem_paramNodes List.mem_cons_self hdefault)
  | included hload => exact .file hload hinner

end

/-! ## The nodes of a run -/

/-- The run that starts at the moment includes a file with the given statements. -/
def Moment.Includes (config : Config) (start : Moment) (file : Path) (statements : List Node) :
    Prop :=
  ∃ depth path once fatal machine library,
    start.Leads config ⟨depth, .file path once fatal, machine⟩ ∧
      Library.loadFrom machine.library path once = (.program file (.ok statements), library)

/-- The node is one of the given statements or of a file that the run includes. -/
def Moment.HasNode (config : Config) (start : Moment) (nodes : List Node) (node : Node) : Prop :=
  ∃ statements, (statements = nodes ∨ ∃ file, start.Includes config file statements) ∧
    ∃ root ∈ statements, node.Inside root

section

variable {config : Config} {start : Moment} {nodes : List Node}

theorem Moment.HasNode.child {whole child : Node} (h : start.HasNode config nodes whole)
    (hchild : child ∈ whole.children) : start.HasNode config nodes child := by
  obtain ⟨statements, hstatements, root, hroot, hinside⟩ := h
  exact ⟨statements, hstatements, root, hroot, hinside.tail hchild⟩

theorem Moment.hasNode_of_mem {node : Node} (h : node ∈ nodes) : start.HasNode config nodes node :=
  ⟨nodes, Or.inl rfl, node, h, .refl node⟩

/-- All nodes of a run are those of its statements and of the files that it includes; all errors
    have lines of nodes that it evaluates. -/
def RunInvariant.located (config : Config) (start : Moment) (initial : Library)
    (nodes : List Node) : RunInvariant config where
  toValueClosure := ValueInvariant.always.toValueClosure
  reached moment := start.Leads config moment ∧
    ∀ inner ∈ moment.activity.nodes, start.HasNode config nodes inner
  machine m := m.functions.Consists (start.HasNode config nodes) ∧
    ∃ library, m.library = some library ∧ library.SameFiles initial
  exit exit := ∀ cause line, exit = .fault (.error cause line) →
    ∃ depth reading node m, start.Leads config ⟨depth, .eval reading node, m⟩ ∧
      start.HasNode config nodes node ∧ node.line = line
  reached_starts h hmachine hstarts := by
    refine ⟨h.1.tail hstarts, fun inner hinner => ?_⟩
    cases supplies_of_starts hstarts hinner with
    | own hown => exact h.2 inner hown
    | child hwhole hchild => exact (h.2 _ hwhole).child hchild
    | function hfunction hnode => exact hmachine.1 _ _ (Dict.mem_of_get? hfunction) inner hnode
    | file hload hnode =>
      exact ⟨_, Or.inr ⟨_, _, _, _, _, _, _, h.1, hload⟩, inner, hnode, .refl inner⟩
  int _ := trivial
  append _ _ _ _ := trivial
  write _ _ _ _ _ _ := trivial
  read _ _ := trivial
  report h _ := h
  output _ h := h
  bind _ _ h _ _ := h
  define hreached h := by
    refine ⟨h.1.define fun inner hinner => ?_, h.2⟩
    exact (hreached.2 _ List.mem_cons_self).child hinner
  enter h := h
  leave _ h := h
  leaveOpen _ _ h := h
  load := by
    intro depth path once fatal m loaded after hreached h hload
    obtain ⟨hconsists, library, hlibrary, hfiles⟩ := h
    rw [hlibrary] at hload
    cases hload
    exact ⟨hconsists, _, rfl, hfiles.load path once⟩
  error := by
    rintro depth reading line form m ⟨hleads, hnodes⟩ cause _ _ ⟨⟩
    exact ⟨depth, reading, _, m, hleads, hnodes _ List.mem_cons_self, rfl⟩
  limit _ _ _ heq := by cases heq
  source _ _ _ heq := by cases heq
  ret _ _ _ _ heq := by cases heq
  returned _ := trivial

/-- Statements from which calls can still nest end with exits that have their lines: each of them is
    evaluated as a node. -/
theorem RunInvariant.Sound.ends_lined {I : RunInvariant config} {depth : Nat} {m : Machine}
    (h : I.Sound ⟨depth + 1, .statements nodes, m⟩) :
    I.Ending I.exit (fun _ => True) (runStatements (evalWithin config (depth + 1)) nodes m) := by
  induction nodes generalizing m with
  | nil => exact .ok h.machine trivial
  | cons node rest ih =>
    have hnode : I.Ending I.exit I.value (evalWithin config (depth + 1) node m) :=
      (h.leads (.single .statementsHead)).ends
    exact hnode.bind fun _ _ hrun _ _ => ih (h.leads (.single (.statementsTail hrun)))

theorem RunInvariant.located_sound (config : Config) (library : Library) (nodes : List Node) :
    (RunInvariant.located config (.ofProgram config library nodes) library nodes).Sound
      (.ofProgram config library nodes) := by
  refine ⟨⟨.refl, fun inner hinner => Moment.hasNode_of_mem hinner⟩, ⟨?_, ?_⟩, trivial⟩
  · obtain ⟨listing, hlisting⟩ := (Machine.start (some library)).writeListing_eq config nodes
    simp only [Moment.ofProgram, hlisting]
    intro name function h
    cases h
  · exact ⟨library, Moment.library_ofProgram config library nodes, rfl, rfl⟩

/-- A file that a run includes is one of its library, and its statements are those of its text. -/
theorem Moment.Includes.contents {library : Library} {file : Path} {statements : List Node}
    (h : (Moment.ofProgram config library nodes).Includes config file statements) :
    ∃ contents, library.contents file = .ok (some contents) ∧
      parse (readText contents) = .ok statements := by
  obtain ⟨depth, path, once, fatal, machine, after, hleads, hload⟩ := h
  obtain ⟨-, found, hfound, hfiles⟩ :=
    ((RunInvariant.located_sound config library nodes).leads hleads).machine
  rw [show machine.library = some found from hfound] at hload
  obtain ⟨hload, -⟩ := Prod.ext_iff.mp hload
  obtain ⟨contents, hcontents, hparse⟩ := Library.contents_of_load hload
  exact ⟨contents, hfiles.contents_eq file ▸ hcontents, hparse⟩

/-- An error that ends a program has the line of a node that the run evaluates. -/
theorem exists_node_of_evalProgram {library : Library} {cause : Cause} {line : Option Int}
    {after : Machine}
    (h : evalProgram config nodes ((Machine.start (some library)).writeListing config nodes) =
      (.failed (.error cause line), after)) :
    ∃ depth reading node m,
      (Moment.ofProgram config library nodes).Leads config ⟨depth, .eval reading node, m⟩ ∧
        (Moment.ofProgram config library nodes).HasNode config nodes node ∧ node.line = line := by
  have hends := (RunInvariant.located_sound config library nodes).ends_lined
  unfold evalProgram evalNode at h
  change RunInvariant.Ending _ _ _ (runStatements (evalWithin config maxNesting) nodes _) at hends
  generalize runStatements (evalWithin config maxNesting) nodes _ = ends at h hends
  cases hends with
  | ok hafter hvalue => cases h
  | @error exit _ hafter hexit =>
    cases exit with
    | returned value => cases h
    | fault fault =>
      cases h
      exact hexit cause line rfl

end

/-- Errors are located. In an accepted program every node has a line, and so has every part of one
    that is no node itself. If a run of the program ends with an error, whatever the configuration
    and the files, then the error has a line, unless nesting has become too deep; it is the line of
    a node that the run evaluates, which is one of the program or of a file of the library that the
    run includes. -/
theorem runtime_errors_located {source : String} {nodes : List Node}
    (h : parse source = .ok nodes) :
    (∀ root ∈ nodes, ∀ inner : Node, inner.Inside root →
      ∀ line ∈ inner.line :: inner.form.partLines, line.isSome = true) ∧
    ∀ config library path cause line after,
      runSource config library source path = (.failed (.error cause line), after) →
      (∀ depth, cause ≠ .stackOverflow depth) →
      ∃ marked n node, library.forRun path = .ok marked ∧ line = some n ∧ node.line = some n ∧
        (∃ depth reading m, (Moment.ofProgram config marked nodes).Leads config
          ⟨depth, .eval reading node, m⟩) ∧
        ∃ statements, (statements = nodes ∨ ∃ file contents,
            (Moment.ofProgram config marked nodes).Includes config file statements ∧
              marked.contents file = .ok (some contents) ∧
                parse (readText contents) = .ok statements) ∧
          ∃ root ∈ statements, node.Inside root := by
  refine ⟨fun root hroot inner hinner => ?_, ?_⟩
  · exact List.all_eq_true.mp (lined_of_parse h root hroot inner hinner)
  · intro config library path cause line after hrun _
    rw [runSource_of_parse h] at hrun
    cases hmarked : library.forRun path with
    | error limit =>
      rw [hmarked] at hrun
      cases hrun
    | ok marked =>
      rw [hmarked] at hrun
      obtain ⟨depth, reading, node, m, hleads, hnode, hline⟩ := exists_node_of_evalProgram hrun
      obtain ⟨statements, hstatements, root, hroot, hinside⟩ := hnode
      have horigin : statements = nodes ∨ ∃ file contents,
          (Moment.ofProgram config marked nodes).Includes config file statements ∧
            marked.contents file = .ok (some contents) ∧
              parse (readText contents) = .ok statements := by
        rcases hstatements with hstatements | ⟨file, hincludes⟩
        · exact Or.inl hstatements
        · obtain ⟨contents, hcontents⟩ := hincludes.contents
          exact Or.inr ⟨file, contents, hincludes, hcontents⟩
      have hlined : root.Lined := by
        rcases horigin with rfl | ⟨file, contents, -, -, hparse⟩
        · exact lined_of_parse h root hroot
        · exact lined_of_parse hparse root hroot
      obtain ⟨n, hn⟩ := Option.isSome_iff_exists.mp (hlined.inside hinside).line
      exact ⟨marked, n, node, rfl, hline ▸ hn, hn, ⟨depth, reading, m, hleads⟩, statements, horigin,
        root, hroot, hinside⟩

/-- `include 'a';` fails on the second line of the file, which reads an unknown variable there. -/
theorem runtime_errors_located_included :
    let library : Library := .ofFiles [] [(["a"], "\n$x;")]
    let nodes : List Node := [⟨some 1, .require ⟨some 1, .str "a"⟩ false false⟩]
    let after : Machine := ⟨.empty, .empty, some (library.markResolved ["a"]), "",
      [.included "include" "a" 1, .fileLoaded ["a"]], 0⟩
    parse "include 'a';" = .ok nodes ∧
      runSource {} library "include 'a';" none =
        (.failed (.error (.unboundVariable "x") (some 2)), after) ∧
      ∃ node : Node, node.line = some 2 ∧
        ∃ statements, (statements = nodes ∨ ∃ file contents,
            (Moment.ofProgram {} library nodes).Includes {} file statements ∧
              library.contents file = .ok (some contents) ∧
                parse (readText contents) = .ok statements) ∧
          ∃ root ∈ statements, node.Inside root := by
  intro library nodes after
  have htokens : tokens (expandTags "include 'a';".toList) =
      [⟨.require false false, "include", 1, 1⟩, ⟨.single ['a'], "'a'", 1, 9⟩,
        ⟨.semicolon, ";", 1, 12⟩] := by
    decide +kernel
  have hparse : parse "include 'a';" = .ok nodes := by
    rw [parse, htokens]
    rfl
  have hincluded : tokens (expandTags (readText "\n$x;").toList) =
      [⟨.variable "x", "$x", 2, 1⟩, ⟨.semicolon, ";", 2, 3⟩] := by
    decide +kernel
  have hfile : parse (readText "\n$x;") = .ok [⟨some 2, .variable "x"⟩] := by
    rw [parse, hincluded]
    rfl
  have hload : Library.loadFrom (some library) "a" false =
      (.program ["a"] (.ok [⟨some 2, .variable "x"⟩]), some (library.markResolved ["a"])) := by
    rw [← hfile]
    rfl
  have hinclude : includeFile (evalWithin {} 3332) "a" false false (.start (some library)) =
      .error (.fault (.error (.unboundVariable "x") (some 2))) after := by
    rw [includeFile_eq, Machine.start, hload]
    rfl
  have hpath : (do Eval.ofNoted (← Node.evalAt {} 3332 .strict ⟨some 1, .str "a"⟩).text)
      (.start (some library)) = .ok "a" (.start (some library)) :=
    rfl
  have hnode : evalWithin {} 3333 ⟨some 1, .require ⟨some 1, .str "a"⟩ false false⟩
      (.start (some library)) = .error (.fault (.error (.unboundVariable "x") (some 2))) after := by
    rw [evalWithin, Node.evalAs]
    unfold Eval.located
    rw [← bind_assoc, Eval.bind_of_ok _ hpath, hinclude]
    rfl
  have hrun : runSource {} library "include 'a';" none =
      (.failed (.error (.unboundVariable "x") (some 2)), after) := by
    rw [runSource_of_parse hparse]
    show evalProgram {} nodes (.start (some library)) = _
    unfold evalProgram evalNode runStatements
    simp only [bind, EStateM.bind]
    rw [maxNesting, hnode]
  obtain ⟨marked, n, node, hmarked, hline, hnode, -, hstatements⟩ :=
    (runtime_errors_located hparse).2 {} library none _ _ _ hrun fun depth h => by cases h
  cases hmarked
  cases hline
  exact ⟨hparse, hrun, node, hnode, hstatements⟩

end WebScript
