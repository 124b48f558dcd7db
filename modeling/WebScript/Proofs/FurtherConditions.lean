import WebScript.Proofs.Simulation
import WebScript.Run

/-!
# Further conditions of an `if`

An `if` tries its conditions in order, in a loop that remembers whether one of them held. Where it
stops at the first that does, the loop is a recursion (`evalFurther_cons`): each further condition is
tried like that of an `if` of its own, in the `else` of the one before. Values, returns, errors with
their lines and all effects on the way are the same, however many conditions there are.
-/

namespace WebScript

/-! ## Lines of errors -/

namespace Eval

variable {α β : Type} (line : Option Int)

theorem locate_locate (exit : Exit) : (exit.locate line).locate line = exit.locate line := by
  cases exit with
  | returned value => rfl
  | fault fault =>
    cases fault with
    | error cause found => cases found <;> cases line <;> rfl
    | limit limit => rfl
    | source error => rfl

theorem located_located (action : Eval α) :
    located line (located line action) = located line action := by
  funext machine
  unfold located
  cases action machine with
  | ok value after => rfl
  | error exit after => simp only [locate_locate]

/-- An error of two actions after each other is one of the first or one of the second. -/
theorem located_bind (action : Eval α) (next : α → Eval β) :
    located line (action >>= next) =
      located line action >>= fun value => located line (next value) := by
  funext machine
  simp only [located, bind, EStateM.bind]
  cases action machine <;> rfl

end Eval

/-! ## Conditions one after another -/

section

variable (config : Config) (deeper : Node → Eval Value)

/-- Runs the statements of a condition if it holds, and goes on with `further` if it does not. -/
def evalCondition (cond : Node) (body : List Node) (further : Eval Unit) : Eval Unit := do
  let value ← cond.evalAs config deeper .strict
  if value.isTruthy then evalBlock config deeper body else further

/-- What an `if` does once its first condition does not hold. -/
def evalFurther (clauses : List (ElseIf Node)) (otherwise : Option (Else Node)) : Eval Unit := do
  let found ← evalElseIfs config deeper false clauses
  match otherwise with
  | some ⟨_, last⟩ => if found then pure () else evalBlock config deeper last
  | none => pure ()

variable {config deeper}

theorem evalAs_conditional (reading : Reading) (line : Option Int) (cond : Node) (body : List Node)
    (clauses : List (ElseIf Node)) (otherwise : Option (Else Node)) :
    Node.evalAs config deeper reading ⟨line, .conditional cond body clauses otherwise⟩ =
      Eval.located line (do
        evalCondition config deeper cond body (evalFurther config deeper clauses otherwise)
        pure .null) := by
  rw [Node.evalAs]
  unfold evalCondition evalFurther
  rw [bind_assoc]
  refine congrArg (Eval.located line) (bind_congr fun value => ?_)
  cases value.isTruthy with
  | true => rfl
  | false =>
    simp only [Bool.false_eq_true, if_false, bind_assoc]
    refine bind_congr fun found => ?_
    cases otherwise with
    | none => rfl
    | some last => cases found <;> rfl

/-- The lines of errors after the condition are those that they have anyway. -/
theorem located_evalCondition (line : Option Int) (cond : Node) (body : List Node)
    (further : Eval Unit) :
    Eval.located line (evalCondition config deeper cond body (Eval.located line further)) =
      Eval.located line (evalCondition config deeper cond body further) := by
  unfold evalCondition
  rw [Eval.located_bind, Eval.located_bind]
  refine bind_congr fun value => ?_
  cases value.isTruthy with
  | true => rfl
  | false => exact Eval.located_located line further

section Stops

variable (h : config.shortCircuitElseIf = true)

include h

theorem evalElseIfs_found (clauses : List (ElseIf Node)) :
    evalElseIfs config deeper true clauses = pure true := by
  cases clauses with
  | nil => rfl
  | cons clause rest => simp [evalElseIfs, h]

/-- Where the loop over the further conditions stops at the first that holds, it is a recursion. -/
theorem evalFurther_cons (clause : ElseIf Node) (rest : List (ElseIf Node))
    (otherwise : Option (Else Node)) :
    evalFurther config deeper (clause :: rest) otherwise =
      evalCondition config deeper clause.cond clause.body
        (evalFurther config deeper rest otherwise) := by
  unfold evalFurther evalCondition
  rw [evalElseIfs, Bool.false_and, if_neg Bool.false_ne_true, bind_assoc]
  refine bind_congr fun value => ?_
  cases value.isTruthy with
  | true =>
    simp only [Bool.not_false, Bool.and_true, if_true, bind_assoc, evalElseIfs_found h, pure_bind]
    cases otherwise <;> exact bind_pure_unit
  | false => rfl

end Stops

/-- An `if` in the `else` of an `if` that has no further conditions goes on like further conditions
    of the outer one. -/
theorem evalFurther_nested (line elseLine : Option Int) (cond : Node) (body : List Node)
    (clauses : List (ElseIf Node)) (otherwise : Option (Else Node)) :
    evalFurther config deeper []
        (some ⟨elseLine, [⟨line, .conditional cond body clauses otherwise⟩]⟩) =
      Eval.located line
        (evalCondition config deeper cond body (evalFurther config deeper clauses otherwise)) := by
  have hblock : evalFurther config deeper []
        (some ⟨elseLine, [⟨line, .conditional cond body clauses otherwise⟩]⟩) = (do
      let _ ← Node.evalAs config deeper .strict ⟨line, .conditional cond body clauses otherwise⟩
      pure ()) := rfl
  rw [hblock, evalAs_conditional, Eval.located_bind, bind_assoc]
  exact bind_pure_unit

/-! ## Nested conditions -/

/-- An `if` in which each further condition is that of an `if` of its own, in the `else` of the one
    before. -/
def nestedIf (line : Option Int) (otherwise : Option (Else Node)) (cond : Node)
    (body : List Node) : List (ElseIf Node) → Node
  | [] => ⟨line, .conditional cond body [] otherwise⟩
  | clause :: rest =>
    ⟨line, .conditional cond body []
      (some ⟨clause.line, [nestedIf line otherwise clause.cond clause.body rest]⟩)⟩

theorem evalAs_elseIf (h : config.shortCircuitElseIf = true) (reading : Reading)
    (line elseLine : Option Int) (cond : Node) (body : List Node) (clause : ElseIf Node)
    (rest : List (ElseIf Node)) (otherwise : Option (Else Node)) :
    Node.evalAs config deeper reading ⟨line, .conditional cond body (clause :: rest) otherwise⟩ =
      Node.evalAs config deeper reading
        ⟨line, .conditional cond body []
          (some ⟨elseLine, [⟨line, .conditional clause.cond clause.body rest otherwise⟩]⟩)⟩ := by
  rw [evalAs_conditional, evalAs_conditional, evalFurther_cons h, evalFurther_nested,
    Eval.located_bind, Eval.located_bind, located_evalCondition]

theorem evalAs_nestedIf (h : config.shortCircuitElseIf = true) (reading : Reading)
    (line : Option Int) (cond : Node) (body : List Node) (clauses : List (ElseIf Node))
    (otherwise : Option (Else Node)) :
    Node.evalAs config deeper reading ⟨line, .conditional cond body clauses otherwise⟩ =
      Node.evalAs config deeper reading (nestedIf line otherwise cond body clauses) := by
  induction clauses generalizing cond body reading with
  | nil => rfl
  | cons clause rest ih =>
    have hinner : ∀ inner : Node, evalFurther config deeper [] (some ⟨clause.line, [inner]⟩) = (do
        let _ ← inner.evalAs config deeper .strict
        pure ()) := fun _ => rfl
    rw [evalAs_elseIf h reading line clause.line, nestedIf, evalAs_conditional, evalAs_conditional,
      hinner, hinner, ih]

/-- A further condition is that of an `if` in the `else`. Where no condition is tried after one that
    holds, an `if` with further conditions is evaluated, on every machine and at every depth, like
    the one whose `else` holds an `if` with the first of them as its condition and the others as
    further ones, and like the one in which all of them are nested in this way. -/
theorem elseIf_is_nested_if {config : Config} (h : config.shortCircuitElseIf = true) (depth : Nat)
    (line : Option Int) (cond : Node) (body : List Node) (clause : ElseIf Node)
    (rest : List (ElseIf Node)) (otherwise : Option (Else Node)) :
    (∀ elseLine, evalWithin config depth ⟨line, .conditional cond body (clause :: rest) otherwise⟩ =
      evalWithin config depth
        ⟨line, .conditional cond body []
          (some ⟨elseLine, [⟨line, .conditional clause.cond clause.body rest otherwise⟩]⟩)⟩) ∧
    evalWithin config depth ⟨line, .conditional cond body (clause :: rest) otherwise⟩ =
      evalWithin config depth (nestedIf line otherwise cond body (clause :: rest)) := by
  cases depth with
  | zero => exact ⟨fun _ => rfl, rfl⟩
  | succ depth =>
    exact ⟨fun elseLine => evalAs_elseIf h .strict line elseLine cond body clause rest otherwise,
      evalAs_nestedIf h .strict line cond body (clause :: rest) otherwise⟩

/-- In `if ($n = 0) … elseif ($n = 5) … elseif ($n = 6) …` the first two conditions have had their
    effect and the third has not, whether it is nested or not. -/
theorem elseIf_is_nested_if_effects :
    let set (n : Int) : Node := ⟨none, .assign ⟨none, .variable "n"⟩ ⟨none, .int n⟩⟩
    let say (text : String) : Node := ⟨none, .echo [⟨none, .str text⟩]⟩
    let machine : Machine := .start none
    let after : Machine := ⟨⟨[("n", .int 5)], 0⟩, .empty, none, "second", [], 0⟩
    let last : Option (Else Node) := some ⟨none, [say "last"]⟩
    let third : ElseIf Node := ⟨none, set 6, [say "third"]⟩
    let inner : Node := ⟨some 1, .conditional (set 5) [say "second"] [third] last⟩
    evalWithin {} 1 ⟨some 1, .conditional (set 0) [say "first"]
        [⟨none, set 5, [say "second"]⟩, third] last⟩ machine = .ok .null after ∧
      evalWithin {} 1 ⟨some 1, .conditional (set 0) [say "first"] [] (some ⟨none, [inner]⟩)⟩
        machine = .ok .null after := by
  intro set say machine after last third inner
  have hrun : evalWithin {} 1 ⟨some 1, .conditional (set 0) [say "first"]
      [⟨none, set 5, [say "second"]⟩, third] last⟩ machine = .ok .null after := by cbv
  obtain ⟨hnested, -⟩ := @elseIf_is_nested_if {} rfl 1 (some 1) (set 0) [say "first"]
    ⟨none, set 5, [say "second"]⟩ [third] last
  exact ⟨hrun, congrFun (hnested none) machine ▸ hrun⟩

end

end WebScript
