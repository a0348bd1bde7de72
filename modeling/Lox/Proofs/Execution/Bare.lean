/-
# Executions without parentheses

An expression in parentheses has the value of the expression, one call later. `Code.executeBare`
saves such calls: it evaluates each expression without the parentheses around it. Whatever is
executed ends as it does when the parentheses are evaluated, too (`Code.ends_executeBare_iff`).
-/

import Lox.Proofs.CallTree.Steps
import Lox.Proofs.Tree.Recast

namespace Lox

namespace CallTree

variable {Q : Type} {A : Q → Type} {α : Type} {body body' : (q : Q) → CallTree A (A q)}

/-- Where calls have the same answers, every computation ends in the same. -/
theorem ends_iff_of_answers (h : ∀ q answer, Answers body q answer ↔ Answers body' q answer)
    {tree : CallTree A α} {answer : α} : Ends body tree answer ↔ Ends body' tree answer := by
  induction tree with
  | done found => exact ends_done.trans ends_done.symm
  | call q next ih => simp only [ends_call, h, ih]
  | jump q answers => simp only [ends_jump, h]

end CallTree

namespace Code

/-- Execute a piece of a program, each expression without the parentheses around it. -/
def executeBare (setting : Setting) : (code : Code) → Step code.Result
  | expression e => evaluate setting e.bare
  | arguments es => execute setting (arguments es)
  | statement s => execute setting (statement s)
  | body ss => execute setting (body ss)

variable {setting : Setting}

/-- Parentheses are evaluated to what is in them. -/
theorem answers_bare_iff {e : Expr} {state : State} {outcome : Outcome State Fault Value} :
    Routine.Ends (execute setting) (execute setting (expression e)) state outcome ↔
      Routine.Ends (execute setting) (execute setting (expression e.bare)) state outcome := by
  cases e with
  | group inner => exact Routine.ends_jump.trans answers_bare_iff
  | _ => exact Iff.rfl
termination_by structural e

private theorem answers_of_executeBare {call : Code × State}
    {outcome : Outcome State Fault call.1.Result}
    (h : Routine.Ends (executeBare setting) (executeBare setting call.1) call.2 outcome) :
    Routine.Ends (execute setting) (execute setting call.1) call.2 outcome := by
  let spec : (made : Code × State) → Outcome State Fault made.1.Result → Prop := fun made =>
    Routine.Ends (execute setting) (execute setting made.1) made.2
  have hends : ∀ code state, Routine.Ensures (fun _ => True) spec (execute setting code) state
      (spec (code, state)) := fun _ _ => CallTree.ensures_ends _ fun _ _ hmade => hmade
  have hbody : ∀ made : Code × State, True → Routine.Ensures (fun _ => True) spec
      (executeBare setting made.1) made.2 (spec made) := by
    rintro ⟨code, state⟩ -
    cases code with
    | expression e => exact (hends (expression e.bare) state).mono fun _ => answers_bare_iff.2
    | arguments es => exact hends (arguments es) state
    | statement s => exact hends (statement s) state
    | body ss => exact hends (body ss) state
  exact CallTree.Answers.of_ensures hbody trivial h

private theorem answers_of_execute {call : Code × State}
    {outcome : Outcome State Fault call.1.Result}
    (h : Routine.Ends (execute setting) (execute setting call.1) call.2 outcome) :
    Routine.Ends (executeBare setting) (executeBare setting call.1) call.2 outcome := by
  let spec : (made : Code × State) → Outcome State Fault made.1.Result → Prop := fun made =>
    Routine.Ends (executeBare setting) (executeBare setting made.1) made.2
  have hbody : ∀ made : Code × State, True → Routine.Ensures (fun _ => True) spec
      (execute setting made.1) made.2 (spec made) := by
    rintro ⟨code, state⟩ -
    have hends : Routine.Ensures (fun _ => True) spec (execute setting code) state
        (Routine.Ends (executeBare setting) (execute setting code) state) :=
      CallTree.ensures_ends _ fun _ _ hmade => hmade
    cases code with
    | expression e =>
      cases e with
      | group inner => exact hends.mono fun _ => Routine.ends_jump.1
      | _ => exact hends
    | _ => exact hends
  exact CallTree.Answers.of_ensures hbody trivial h

/-- Whatever is executed ends the same without the parentheses around expressions. -/
theorem ends_executeBare_iff {α : Type} {step : Step α} {state : State}
    {outcome : Outcome State Fault α} :
    Routine.Ends (executeBare setting) step state outcome ↔
      Routine.Ends (execute setting) step state outcome :=
  CallTree.ends_iff_of_answers fun _ _ => ⟨answers_of_executeBare, answers_of_execute⟩

end Code

end Lox
