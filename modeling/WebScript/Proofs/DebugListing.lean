import WebScript.Proofs.Frame
import WebScript.Proofs.Nesting

/-!
# The listing before a run

A configuration says whether a program is listed before it runs. Nothing asks for this switch while
the program is running, and nothing looks at what has been printed. A run with the listing is
therefore the run without it, from a machine that has printed a text before.
-/

namespace WebScript

/-- Configurations that differ at most in whether programs are listed. -/
structure Config.SameButDebug (first second : Config) : Prop where
  restoreScopeOnReturn : first.restoreScopeOnReturn = second.restoreScopeOnReturn
  propagateReturn : first.propagateReturn = second.propagateReturn
  shortCircuit : first.shortCircuit = second.shortCircuit
  shortCircuitElseIf : first.shortCircuitElseIf = second.shortCircuitElseIf

theorem Config.sameButDebug_with (config : Config) (first second : Bool) :
    Config.SameButDebug { config with debug := first } { config with debug := second } :=
  ⟨rfl, rfl, rfl, rfl⟩

/-- The machine that has printed a text before everything else. -/
def Machine.precededBy (machine : Machine) (text : String) : Machine :=
  { machine with output := text ++ machine.output }

theorem Machine.withOutput_precededBy (machine : Machine) (before after : String) :
    (machine.precededBy before).withOutput after = (machine.withOutput after).precededBy before := by
  simp [precededBy, withOutput, String.append_assoc]

/-! ## The simulation -/

/-- Two runs of which the first has printed a text before. -/
def printedBefore (text : String) : Simulation where
  toValueInvariant := .always
  rel m₁ m₂ := m₁ = m₂.precededBy text
  excused _ := False
  readable _ := True
  bindable _ := True
  excused_locate _ h := h
  readable_of_bindable _ := trivial
  rel_events _ h := by rw [h]; rfl
  rel_output after h := by rw [h, Machine.withOutput_precededBy]
  rel_functions h := by rw [h]; rfl
  rel_callDepth h := by rw [h]; rfl
  rel_read h _ := by rw [h]; rfl
  rel_generation h hafter := by rw [h, hafter]; rfl
  value_read _ _ _ := trivial
  rel_bind h _ _ _ := by rw [h]; rfl

section

variable {text : String}

theorem printedBefore_admits : (printedBefore text).Admits fun _ => True where
  part _ _ := trivial
  int _ := trivial
  readable _ := trivial
  valueVar _ := trivial
  keyVar _ := trivial
  assign _ _ := trivial
  compound _ _ := trivial
  function {line name params body m₁ m₂} _ h := by
    have hrel : m₁ = m₂.precededBy text := h
    rw [hrel]
    rfl

theorem printedBefore_nests : (printedBefore text).Nests fun _ => True where
  body _ _ _ _ := trivial
  param _ _ _ _ := trivial
  enter {m₁ m₂} h := by
    have hrel : m₁ = m₂.precededBy text := h
    rw [hrel]
    rfl
  leave {m₁ m₂ caller₁ caller₂} hcaller h := by
    have hcallers : caller₁ = caller₂.precededBy text := hcaller
    have hrel : m₁ = m₂.precededBy text := h
    rw [hcallers, hrel]
    rfl
  leaveOpen {m₁ m₂ caller₁ caller₂} hcaller h := by
    have hcallers : caller₁ = caller₂.precededBy text := hcaller
    have hrel : m₁ = m₂.precededBy text := h
    rw [hcallers, hrel]
    rfl
  library {m₁ m₂} h := by
    have hrel : m₁ = m₂.precededBy text := h
    rw [hrel]
    rfl
  load {m₁ m₂} path once h := by
    have hrel : m₁ = m₂.precededBy text := h
    rw [hrel]
    rfl
  program _ _ _ _ := trivial

variable {c₁ c₂ : Config}

theorem printedBefore_follows (h : c₁.SameButDebug c₂) {d₁ d₂ : Node → Eval Value}
    (hdeeper : ∀ inner : Node, True →
      (printedBefore text).Refines (fun _ => True) (d₁ inner) (d₂ inner))
    (whole : Node) : (printedBefore text).Follows c₁ d₁ c₂ d₂ whole := by
  have hexcused : ∀ v, ¬ (printedBefore text).excused (.returned v) := fun _ h => h
  refine Simulation.follows_of_agree printedBefore_admits (fun _ _ _ => h.propagateReturn)
    h.shortCircuit h.shortCircuitElseIf ?_ ?_ whole trivial
  · intro line name args m₁ m₂ function values _ _ _ hvalues
    exact Simulation.Refines.callFunction printedBefore_nests hexcused h.propagateReturn
      h.restoreScopeOnReturn (fun _ _ => trivial) (fun inner _ => hdeeper inner trivial) hvalues
  · intro line path once fatal target _
    exact Simulation.Refines.includeFile printedBefore_nests.toLoads hexcused hdeeper target once
      fatal

/-- Statements do the same under configurations that differ in the listing of programs, whatever has
    been printed before. -/
theorem printedBefore_statements (text : String) (h : c₁.SameButDebug c₂) (nodes : List Node) :
    (printedBefore text).Refines (fun _ => True) (runStatements (evalNode c₁) nodes)
      (runStatements (evalNode c₂) nodes) := by
  refine Simulation.Refines.runStatements fun inner _ => ?_
  exact Simulation.refines_evalWithin
    (fun _ _ hdeeper whole _ => printedBefore_follows h hdeeper whole) maxNesting inner trivial

/-- A program that runs after a text has been printed runs as it would without. -/
theorem evalProgram_precededBy (h : c₁.SameButDebug c₂) (nodes : List Node) (machine : Machine) :
    evalProgram c₁ nodes (machine.precededBy text) =
      ((evalProgram c₂ nodes machine).1, (evalProgram c₂ nodes machine).2.precededBy text) := by
  have hends := printedBefore_statements text h nodes _ machine rfl
  unfold evalProgram
  generalize runStatements (evalNode c₁) nodes (machine.precededBy text) = ends₁ at hends
  generalize runStatements (evalNode c₂) nodes machine = ends₂ at hends
  cases hends with
  | ok hafter _ => exact Prod.ext rfl hafter
  | @error exit _ _ hafter _ =>
    cases exit with
    | returned value => exact Prod.ext rfl hafter
    | fault fault => exact Prod.ext rfl hafter
  | excused hexit => exact hexit.elim

end

/-! ## Runs -/

/-- The switch for listings only puts the listing before the output. Whatever the source, the files
    and the other switches, a run with it ends as the run without it; if the source is a program, it
    leaves the same machine but for the output, which is the listing and then exactly the output of
    the run without it, however the run ends. If the source is no program, or the path of the run
    cannot be resolved, neither run prints anything. -/
theorem debug_prepends_listing (config : Config) (library : Library) (source : String)
    (path : Option String) :
    let listed := runSource { config with debug := true } library source path
    let plain := runSource { config with debug := false } library source path
    listed.1 = plain.1 ∧
      (∀ nodes marked, parse source = .ok nodes → library.forRun path = .ok marked →
        listed.2 = { plain.2 with output := listProgram nodes ++ "\n" ++ plain.2.output }) ∧
      (∀ error, parse source = .error error →
        plain.1 = .failed (.source error) ∧ listed.2.output = "" ∧ plain.2.output = "") ∧
      ∀ nodes limit, parse source = .ok nodes → library.forRun path = .error limit →
        plain.1 = .failed (.limit limit) ∧ listed.2.output = "" ∧ plain.2.output = "" := by
  intro listed plain
  cases hparse : parse source with
  | error error =>
    have hfailed : ∀ debug, runSource { config with debug := debug } library source path =
        (.failed (.source error), .start (some library)) := by
      intro debug
      rw [runSource, hparse]
    have hlisted : listed = _ := hfailed true
    have hplain : plain = _ := hfailed false
    rw [hlisted, hplain]
    exact ⟨rfl, nofun, fun other hother => by cases hother; exact ⟨rfl, rfl, rfl⟩, nofun⟩
  | ok nodes =>
    have hlisted : listed = _ := runSource_of_parse hparse _ library path
    have hplain : plain = _ := runSource_of_parse hparse _ library path
    cases hmarked : library.forRun path with
    | error limit =>
      rw [hmarked] at hlisted hplain
      rw [hlisted, hplain]
      refine ⟨rfl, nofun, nofun, fun _ other _ hother => ?_⟩
      cases hother
      exact ⟨rfl, rfl, rfl⟩
    | ok marked =>
      rw [hmarked] at hlisted hplain
      -- A fresh machine has printed nothing, so printing the listing puts it before everything.
      have hstart : (Machine.start (some marked)).writeListing { config with debug := true } nodes =
          (Machine.start (some marked)).precededBy (listProgram nodes ++ "\n") := by
        simp [Machine.writeListing, Machine.precededBy, Machine.start]
      have hunlisted : plain = evalProgram { config with debug := false } nodes
          (Machine.start (some marked)) := by
        rw [hplain]
        rfl
      have hboth : listed = (plain.1, plain.2.precededBy (listProgram nodes ++ "\n")) := by
        rw [hlisted, hunlisted]
        simp only [hstart]
        exact evalProgram_precededBy (config.sameButDebug_with true false) nodes _
      rw [hboth]
      refine ⟨rfl, fun other _ hother _ => ?_, nofun, nofun⟩
      cases hother
      rfl

/-- A program that fails after it has printed something. -/
theorem debug_prepends_listing_failure :
    let source := "echo 1; $x;"
    let nodes : List Node := [⟨some 1, .echo [⟨some 1, .int 1⟩]⟩, ⟨some 1, .variable "x"⟩]
    let run (debug : Bool) := runSource { debug := debug } (.ofFiles [] []) source none
    parse source = .ok nodes ∧ Library.forRun (.ofFiles [] []) none = .ok (.ofFiles [] []) ∧
      (run true).2.output = listProgram nodes ++ "\n" ++ "1" ∧
      (run true).1 = .failed (.error (.unboundVariable "x") (some 1)) := by
  intro source nodes run
  have htokens : tokens (expandTags source.toList) =
      [⟨.keyword .echo, "echo", 1, 1⟩, ⟨.int ['1'], "1", 1, 6⟩, ⟨.semicolon, ";", 1, 7⟩,
        ⟨.variable "x", "$x", 1, 9⟩, ⟨.semicolon, ";", 1, 11⟩] := by
    decide +kernel
  have hparse : parse source = .ok nodes := by
    rw [parse, htokens]
    rfl
  have hplain : (run false).1 = .failed (.error (.unboundVariable "x") (some 1)) ∧
      (run false).2.output = "1" := by
    simp only [run, runSource, hparse]
    exact ⟨rfl, by cbv⟩
  obtain ⟨houtcome, hlisting, -, -⟩ := debug_prepends_listing {} (.ofFiles [] []) source none
  refine ⟨hparse, rfl, ?_, houtcome.trans hplain.1⟩
  calc (run true).2.output
      = listProgram nodes ++ "\n" ++ (run false).2.output :=
        congrArg Machine.output (hlisting nodes (.ofFiles [] []) hparse rfl)
    _ = listProgram nodes ++ "\n" ++ "1" := by rw [hplain.2]

end WebScript
