import WebScript.Proofs.GlobalScope
import WebScript.Session

/-!
# Sessions step by step

A session keeps its configuration in two places, for new machines and for the live one, and its state
survives inputs that fail. `Session.Step` lists what can happen to a session; what each step can do is
said once, and what holds after any row of steps follows by induction.
-/

namespace WebScript

namespace Session

/-! ## Steps -/

/-- What can happen to a session. -/
inductive Step where
  | eval (text : String)
  /-- A line that is handed over in case it is a command. -/
  | slash (line : String)
  /-- The files are exchanged from outside. -/
  | files (files : Dict Path String)
  /-- What has been printed and reported is taken off the machine. -/
  | flush

/-- The session after a step, whether the step succeeded or not. -/
def perform (session : Session) : Step → Session
  | .eval text => (session.eval text).2
  | .slash line => ((session.slash? line).map Prod.snd).getD session
  | .files files => session.withFiles files
  | .flush => session.flush.2.2

/-- The session after steps in order. -/
def performAll (session : Session) (steps : List Step) : Session := steps.foldl perform session

section

variable {session : Session} {text line name arg : String}

theorem eval_of_error {error : SourceError} (h : parse text = .error error) :
    session.eval text = (.failed (.source error), session) := by
  unfold eval
  rw [h]

/-- An input that is a program changes nothing but the machine. -/
theorem eval_of_ok {nodes : List Node} (h : parse text = .ok nodes) :
    (session.eval text).2 =
      { session with context :=
          { session.context with machine :=
              (evalProgram session.context.config nodes
                (session.context.machine.writeListing session.context.config nodes)).2 } } := by
  unfold eval
  rw [h]
  rfl

theorem perform_slash (h : splitCommand? line = some (name, arg)) :
    session.perform (.slash line) = (session.command name arg).2 := by
  simp [perform, slash?, h]

theorem perform_slash_of_none (h : splitCommand? line = none) :
    session.perform (.slash line) = session := by
  simp [perform, slash?, h]

/-- What a command can do to a session. -/
theorem command_cases (session : Session) (name arg : String) :
    (session.command name arg).2 = session ∨
      (name = "/debug" ∧ ∃ state, toggle? arg session.config.debug = some state ∧
        (session.command name arg).2 = session.setDebug state) ∨
      (∃ state, (session.command name arg).2 = { session with traceback := state }) ∨
      (name = "/reset" ∧ (session.command name arg).2 = session.reset) := by
  unfold command
  split
  · exact .inl rfl
  · cases htoggle : toggle? arg session.config.debug with
    | none => exact .inl rfl
    | some state => exact .inr (.inl ⟨rfl, state, rfl, rfl⟩)
  · cases toggle? arg session.traceback with
    | none => exact .inl rfl
    | some state => exact .inr (.inr (.inl ⟨state, rfl⟩))
  · exact .inr (.inr (.inr ⟨rfl, rfl⟩))
  · exact .inl rfl

/-- Only the command that resets the machine touches it. -/
theorem machine_perform_slash (h : ∀ arg, splitCommand? line ≠ some ("/reset", arg)) :
    (session.perform (.slash line)).context.machine = session.context.machine := by
  cases hsplit : splitCommand? line with
  | none => rw [perform_slash_of_none hsplit]
  | some command =>
    obtain ⟨name, arg⟩ := command
    rw [perform_slash hsplit]
    obtain hcommand | ⟨-, state, -, hcommand⟩ | ⟨state, hcommand⟩ | ⟨hreset, -⟩ :=
      session.command_cases name arg
    · rw [hcommand]
    · rw [hcommand]
      rfl
    · rw [hcommand]
    · exact absurd (hreset ▸ hsplit) (h arg)

theorem command_reset : (session.command "/reset" arg).2 = session.reset := rfl

/-- Only the command for it changes the switch for listings. -/
theorem exists_command_of_debug_ne {step : Step}
    (h : (session.perform step).config.debug ≠ session.config.debug) :
    ∃ line arg, step = .slash line ∧ splitCommand? line = some ("/debug", arg) := by
  cases step with
  | eval text =>
    refine absurd ?_ h
    cases hparse : parse text with
    | error error => rw [perform, eval_of_error hparse]
    | ok nodes => rw [perform, eval_of_ok hparse]
  | slash line =>
    cases hsplit : splitCommand? line with
    | none => exact absurd (by rw [perform_slash_of_none hsplit]) h
    | some command =>
      obtain ⟨name, arg⟩ := command
      rw [perform_slash hsplit] at h
      by_cases hname : name = "/debug"
      · subst hname
        exact ⟨line, arg, rfl, hsplit⟩
      · obtain hcommand | ⟨hdebug, -⟩ | ⟨state, hcommand⟩ | ⟨-, hcommand⟩ :=
          session.command_cases name arg
        · exact absurd (by rw [hcommand]) h
        · exact absurd hdebug hname
        · exact absurd (by rw [hcommand]) h
        · exact absurd (by rw [hcommand, reset]) h
  | files files => exact absurd rfl h
  | flush => exact absurd rfl h

end

/-! ## What all steps keep -/

/-- A session that began with a configuration and is between two inputs. -/
structure AtPrompt (initial : Config) (session : Session) : Prop where
  live : session.context.config = session.config
  switches : session.config = { initial with debug := session.config.debug }
  unloaded : session.library.included = []
  callDepth : session.context.machine.callDepth = 0

namespace AtPrompt

variable {initial : Config} {session : Session}

theorem start (config : Config) (base : Path) (files : Dict Path String) (traceback : Bool) :
    (Session.start config (.ofFiles base files) traceback).AtPrompt config :=
  ⟨rfl, rfl, rfl, rfl⟩

theorem command (h : session.AtPrompt initial) (name arg : String) :
    (session.command name arg).2.AtPrompt initial := by
  obtain hcommand | ⟨-, state, -, hcommand⟩ | ⟨state, hcommand⟩ | ⟨-, hcommand⟩ :=
    session.command_cases name arg
  · rw [hcommand]
    exact h
  · rw [hcommand]
    refine ⟨rfl, ?_, h.unloaded, h.callDepth⟩
    show { session.config with debug := state } = { initial with debug := state }
    rw [h.switches]
  · rw [hcommand]
    exact ⟨h.live, h.switches, h.unloaded, h.callDepth⟩
  · rw [hcommand]
    exact ⟨rfl, h.switches, h.unloaded, rfl⟩

theorem perform (h : session.AtPrompt initial) (step : Step) :
    (session.perform step).AtPrompt initial := by
  cases step with
  | eval text =>
    cases hparse : parse text with
    | error error =>
      rw [Session.perform, eval_of_error hparse]
      exact h
    | ok nodes =>
      rw [Session.perform, eval_of_ok hparse]
      refine ⟨h.live, h.switches, h.unloaded, ?_⟩
      obtain ⟨listing, hlisting⟩ :=
        session.context.machine.writeListing_eq session.context.config nodes
      simp only [callDepth_evalProgram, hlisting]
      exact h.callDepth
  | slash line =>
    cases hsplit : splitCommand? line with
    | none =>
      rw [perform_slash_of_none hsplit]
      exact h
    | some command =>
      rw [perform_slash hsplit]
      exact h.command _ _
  | files files => exact ⟨h.live, h.switches, h.unloaded, h.callDepth⟩
  | flush => exact ⟨h.live, h.switches, h.unloaded, h.callDepth⟩

theorem performAll (h : session.AtPrompt initial) (steps : List Step) :
    (session.performAll steps).AtPrompt initial := by
  induction steps generalizing session with
  | nil => exact h
  | cons step rest ih => exact ih (h.perform step)

end AtPrompt

/-- An input that is a program leaves the variables in sight that were in sight before. -/
theorem keepsInSight_eval {session : Session} {text : String} {nodes : List Node}
    (hrestore : session.context.config.restoreScopeOnReturn = true) (h : parse text = .ok nodes) :
    (Moment.ofStatements nodes
        (session.context.machine.writeListing session.context.config nodes)).KeepsInSight
      session.context.config (session.eval text).2.context.machine := by
  rw [eval_of_ok h]
  exact keepsInSight_evalProgram hrestore nodes _

/-! ## Sessions -/

/-- A session from its start on, after any steps. The configuration is the same in both places and
    differs from the first one at most in the switch for listings, which only its command changes.
    An input that is no program changes nothing and prints nothing. No line touches the machine but
    the command that resets it: that one leaves neither variables nor functions nor loaded files,
    and keeps the configuration. No call is going on between two inputs; and if variables are
    restored after a `return`, an input that is a program leaves the variables in sight that were in
    sight before, changed only by what it did outside of its calls, however it ended. -/
theorem performAll_keeps_state (config : Config) (base : Path) (files : Dict Path String)
    (traceback : Bool) (steps : List Step) :
    let session := (Session.start config (.ofFiles base files) traceback).performAll steps
    (session.context.config = session.config ∧
      session.config = { config with debug := session.config.debug } ∧
      ∀ step, (session.perform step).config.debug ≠ session.config.debug →
        ∃ line arg, step = .slash line ∧ splitCommand? line = some ("/debug", arg)) ∧
    (∀ text error, parse text = .error error →
      session.eval text = (.failed (.source error), session)) ∧
    (∀ line, (∀ arg, splitCommand? line ≠ some ("/reset", arg)) →
      (session.perform (.slash line)).context.machine = session.context.machine) ∧
    (∀ line arg, splitCommand? line = some ("/reset", arg) →
      let after := session.perform (.slash line)
      after.context.machine.scope = .empty ∧ after.context.machine.functions = .empty ∧
        after.context.machine.included = [] ∧ after.config = session.config ∧
        after.context.config = session.config) ∧
    session.context.machine.callDepth = 0 ∧
    (config.restoreScopeOnReturn = true → ∀ text nodes, parse text = .ok nodes →
      let start := Moment.ofStatements nodes
        (session.context.machine.writeListing session.config nodes)
      start.machine.scope = session.context.machine.scope ∧
        start.KeepsInSight session.config (session.eval text).2.context.machine) := by
  intro session
  have hprompt : session.AtPrompt config :=
    (AtPrompt.start config base files traceback).performAll steps
  refine ⟨⟨hprompt.live, hprompt.switches, fun step => exists_command_of_debug_ne⟩,
    fun text error => eval_of_error, ?_, ?_, hprompt.callDepth, ?_⟩
  · intro line hline
    exact machine_perform_slash hline
  · intro line arg hsplit after
    have hafter : after = session.reset := (perform_slash hsplit).trans command_reset
    rw [hafter]
    exact ⟨rfl, rfl, hprompt.unloaded, rfl, rfl⟩
  · intro hrestore text nodes hparse start
    constructor
    · obtain ⟨listing, hlisting⟩ := session.context.machine.writeListing_eq session.config nodes
      simp only [start, Moment.ofStatements, hlisting]
      rfl
    · have hswitch : session.context.config.restoreScopeOnReturn = true := by
        rw [hprompt.live, hprompt.switches]
        exact hrestore
      have hkeeps := keepsInSight_eval hswitch hparse
      rw [hprompt.live] at hkeeps
      exact hkeeps

/-- After listings have been turned on and off again, an input fails inside the function that it
    declares and calls; the variable of the function is not in sight afterwards. -/
theorem performAll_keeps_state_failure :
    let steps := [.slash "/debug on", .slash "/debug off"]
    let session := (Session.start {} (.ofFiles [] []) false).performAll steps
    let text := "function f($p) { $q; } f(1);"
    let nodes : List Node :=
      [⟨some 1, .functionDecl "f" [⟨some 1, "p", none⟩] [⟨some 1, .variable "q"⟩]⟩,
        ⟨some 1, .call "f" [⟨some 1, .arg ⟨some 1, .int 1⟩⟩]⟩]
    let start := Moment.ofStatements nodes
      (session.context.machine.writeListing session.config nodes)
    session.context.config = {} ∧
      (session.perform (.slash "/debug on")).config.debug ≠ session.config.debug ∧
      (∃ arg, splitCommand? "/debug on" = some ("/debug", arg)) ∧
      (session.perform (.slash "/clear")).context.machine = session.context.machine ∧
      (session.perform (.slash "/reset")).config = {} ∧
      session.eval "(" = (.failed (.source (.parse ⟨.unexpectedEnd, some 1, some 1⟩)), session) ∧
      parse text = .ok nodes ∧
      (runStatements (evalNode session.config) nodes).ending start.machine =
        .error (.fault (.error (.unboundVariable "q") (some 1))) ∧
      start.KeepsInSight session.config (session.eval text).2.context.machine ∧
      (session.eval text).2.context.machine.scope.get? "p" = none ∧
      (session.eval text).2.context.machine.callDepth = 0 := by
  intro steps session text nodes start
  have hon : splitCommand? "/debug on" = some ("/debug", "on") := by decide +kernel
  have hoff : splitCommand? "/debug off" = some ("/debug", "off") := by decide +kernel
  have hclear : splitCommand? "/clear" = some ("/clear", "") := by decide +kernel
  have hreset : splitCommand? "/reset" = some ("/reset", "") := by decide +kernel
  have hopen : parse "(" = .error (.parse ⟨.unexpectedEnd, some 1, some 1⟩) := by
    have htokens : tokens (expandTags "(".toList) = [⟨.openParen, "(", 1, 1⟩] := by decide +kernel
    rw [parse, htokens]
    rfl
  have hparse : parse text = .ok nodes := by
    have htokens : tokens (expandTags text.toList) =
        [⟨.keyword .function, "function", 1, 1⟩, ⟨.identifier "f", "f", 1, 10⟩,
          ⟨.openParen, "(", 1, 11⟩, ⟨.variable "p", "$p", 1, 12⟩, ⟨.closeParen, ")", 1, 14⟩,
          ⟨.openBrace, "\x7b", 1, 16⟩, ⟨.variable "q", "$q", 1, 18⟩, ⟨.semicolon, ";", 1, 20⟩,
          ⟨.closeBrace, "\x7d", 1, 22⟩, ⟨.identifier "f", "f", 1, 24⟩, ⟨.openParen, "(", 1, 25⟩,
          ⟨.int ['1'], "1", 1, 26⟩, ⟨.closeParen, ")", 1, 27⟩, ⟨.semicolon, ";", 1, 28⟩] := by
      decide +kernel
    rw [parse, htokens]
    rfl
  have hsession : session = Session.start {} (.ofFiles [] []) false := by
    simp only [session, steps, performAll, List.foldl_cons, List.foldl_nil, perform_slash hon,
      perform_slash hoff]
    rfl
  obtain ⟨⟨hlive, -, hdebug⟩, herror, hmachine, hafterReset, -, hkeeps⟩ :=
    performAll_keeps_state {} [] [] false steps
  obtain ⟨-, -, -, -, hdepth, -⟩ :=
    performAll_keeps_state {} [] [] false (steps ++ [.eval text])
  have hconfig : session.config = {} := by
    rw [hsession]
    rfl
  have hchanged : (session.perform (.slash "/debug on")).config.debug ≠ session.config.debug := by
    rw [perform_slash hon, hsession]
    exact Bool.noConfusion
  refine ⟨hlive.trans hconfig, hchanged, ?_, hmachine _ ?_, ?_, herror _ _ hopen, hparse, ?_,
    (hkeeps rfl text nodes hparse).2, ?_, ?_⟩
  · obtain ⟨line, arg, hline, hcommand⟩ := hdebug _ hchanged
    cases hline
    exact ⟨arg, hcommand⟩
  · rw [hclear]
    intro arg h
    have hname : "/clear" = "/reset" := congrArg Prod.fst (Option.some.inj h)
    exact absurd hname (by decide)
  · obtain ⟨-, -, -, hkept, -⟩ := hafterReset _ _ hreset
    exact hkept.trans hconfig
  · simp only [start, hsession]
    rfl
  · rw [eval_of_ok hparse, hsession]
    rfl
  · rw [performAll, List.foldl_append] at hdepth
    exact hdepth

end Session

end WebScript
