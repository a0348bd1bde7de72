/-
# Computations between which more and more corresponds

Two computations can do the same although what corresponds to what comes about only as they go on:
a step makes something new on both sides, and from then on the one stands for the other. What
stands for what at a time is a world, and worlds only grow. A `Development` says for each world
what corresponds to what, and `Similar` that two steps, begun in a world, go side by side and come
to corresponding outcomes in some later world.

The correspondence of computations in `Lox.Proofs.CallTree.Similar` knows no worlds. One call may be
made in several of them, and its outcomes have to correspond as each of them says; that they do
follows from each on its own (`CallTree.Similar.forall`). So the machine carries out both
computations in the same number of rounds here as well (`rel_run`).
-/

import Lox.Proofs.CallTree.Similar
import Mathlib.Order.Basic

namespace Lox

/-- What corresponds in each of several ways corresponds in all of them. -/
theorem CallTree.Similar.forall {Q Q' ι : Type} {A : Q → Type} {A' : Q' → Type} {α α' : Type}
    {calls : Q → Q' → Prop} {answers : (q : Q) → (q' : Q') → A q → A' q' → Prop}
    {post : ι → α → α' → Prop} {tree : CallTree A α} {tree' : CallTree A' α'} (i₀ : ι)
    (h : ∀ i, Similar calls answers (post i) tree tree') :
    Similar calls answers (fun answer answer' => ∀ i, post i answer answer') tree tree' := by
  induction tree generalizing tree' with
  | done answer =>
    cases h i₀ with
    | done _ =>
      refine .done fun i => ?_
      cases h i with
      | done hpost => exact hpost
  | call q next ih =>
    cases h i₀ with
    | call hcalls _ =>
      refine .call hcalls fun given given' hgiven => ih given fun i => ?_
      cases h i with
      | call _ hnext => exact hnext given given' hgiven
  | jump q fits =>
    cases h i₀ with
    | jump hcalls _ =>
      refine .jump hcalls fun given given' hgiven i => ?_
      cases h i with
      | jump _ hpost => exact hpost given given' hgiven

namespace Routine

/-- For each world, what corresponds in it between two ways of carrying out procedures of one
family. -/
structure Development (W σ ε : Type) {P : Type} (R : P → Type) where
  /-- Two procedures correspond. -/
  procedures : W → P → P → Prop
  /-- Two answers of procedures correspond. -/
  results : W → (p p' : P) → R p → R p' → Prop
  /-- Two states correspond. -/
  states : W → σ → σ → Prop
  /-- Two problems correspond. -/
  problems : ε → ε → Prop

namespace Development

variable {W P σ ε α α' β β' : Type} [Preorder W] {R : P → Type} (dev : Development W σ ε R)

/-- Two outcomes of steps begun in a world correspond in some later world. -/
inductive Outcomes (w : W) (values : W → α → α' → Prop) : Outcome σ ε α → Outcome σ ε α' → Prop
  | ok {later : W} {answer : α} {answer' : α'} {state state' : σ} (hle : w ≤ later)
      (hvalues : values later answer answer') (hstates : dev.states later state state') :
      Outcomes w values (.ok answer, state) (.ok answer', state')
  | error {later : W} {problem problem' : ε} {state state' : σ} (hle : w ≤ later)
      (hproblems : dev.problems problem problem') (hstates : dev.states later state state') :
      Outcomes w values (.error problem, state) (.error problem', state')

/-- Two calls are of corresponding procedures in corresponding states, as some world says. -/
def Calls (call call' : P × σ) : Prop :=
  ∃ w, dev.procedures w call.1 call'.1 ∧ dev.states w call.2 call'.2

/-- The outcomes of two calls correspond, whichever world says that the calls do. -/
def Answers (call call' : P × σ) (outcome : Outcome σ ε (R call.1))
    (outcome' : Outcome σ ε (R call'.1)) : Prop :=
  ∀ start : { w // dev.procedures w call.1 call'.1 ∧ dev.states w call.2 call'.2 },
    dev.Outcomes start.1 (fun w => dev.results w call.1 call'.1) outcome outcome'

/-- Two steps go side by side from states that correspond in a world. -/
def Similar (w : W) (values : W → α → α' → Prop) (step : Routine σ ε R α)
    (step' : Routine σ ε R α') : Prop :=
  ∀ state state', dev.states w state state' →
    CallTree.Similar dev.Calls dev.Answers (dev.Outcomes w values) (step state) (step' state')

variable {dev} {w : W} {values : W → α → α' → Prop} {values' : W → β → β' → Prop}

/-- What corresponds at the end does so as well when the steps have begun earlier. -/
theorem Outcomes.earlier {later : W} (hle : w ≤ later) {outcome : Outcome σ ε α}
    {outcome' : Outcome σ ε α'} (h : dev.Outcomes later values outcome outcome') :
    dev.Outcomes w values outcome outcome' := by
  cases h with
  | ok hle' hvalues hstates => exact .ok (hle.trans hle') hvalues hstates
  | error hle' hproblems hstates => exact .error (hle.trans hle') hproblems hstates

theorem similar_pure {answer : α} {answer' : α'} (h : values w answer answer') :
    dev.Similar w values (Pure.pure answer) (Pure.pure answer') :=
  fun _ _ hstates => .done (.ok le_rfl h hstates)

theorem similar_fail {problem problem' : ε} (h : dev.problems problem problem') :
    dev.Similar w values (fail problem : Routine σ ε R α) (fail problem' : Routine σ ε R α') :=
  fun _ _ hstates => .done (.error le_rfl h hstates)

theorem similar_ofExcept {result : Except ε α} {result' : Except ε α'}
    (h : ResultAlike dev.problems (values w) result result') :
    dev.Similar w values (ofExcept result : Routine σ ε R α) (ofExcept result') := by
  intro state state' hstates
  cases h with
  | ok h => exact .done (.ok le_rfl h hstates)
  | error h => exact .done (.error le_rfl h hstates)

theorem similar_step {advance : σ → Outcome σ ε α} {advance' : σ → Outcome σ ε α'}
    (h : ∀ state state', dev.states w state state' →
      dev.Outcomes w values (advance state) (advance' state')) :
    dev.Similar w values (step advance : Routine σ ε R α) (step advance' : Routine σ ε R α') :=
  fun state state' hstates => .done (h state state' hstates)

theorem similar_gets {read : σ → α} {read' : σ → α'}
    (h : ∀ state state', dev.states w state state' → values w (read state) (read' state')) :
    dev.Similar w values (gets read : Routine σ ε R α) (gets read' : Routine σ ε R α') :=
  fun state state' hstates => .done (.ok le_rfl (h state state' hstates) hstates)

theorem similar_modify {change change' : σ → σ}
    (h : ∀ state state', dev.states w state state' → dev.states w (change state) (change' state')) :
    dev.Similar w (fun _ _ _ => True) (modify change : Routine σ ε R Unit) (modify change') :=
  fun state state' hstates => .done (.ok le_rfl trivial (h state state' hstates))

theorem similar_call {p p' : P} (h : dev.procedures w p p') :
    dev.Similar w (fun w => dev.results w p p') (call p : Routine σ ε R (R p)) (call p') :=
  fun _ _ hstates => .call ⟨w, h, hstates⟩ fun _ _ hgiven => .done (hgiven ⟨w, h, hstates⟩)

theorem similar_jump {p p' : P} (h : dev.procedures w p p') :
    dev.Similar w (fun w => dev.results w p p') (jump p : Routine σ ε R (R p)) (jump p') :=
  fun _ _ hstates => .jump ⟨w, h, hstates⟩ fun _ _ hgiven => hgiven ⟨w, h, hstates⟩

/-- What comes behind a step begins in the world that the step has led to. -/
theorem Similar.bind {first : Routine σ ε R α} {first' : Routine σ ε R α'}
    {next : α → Routine σ ε R β} {next' : α' → Routine σ ε R β'}
    (h : dev.Similar w values first first')
    (hnext : ∀ later, w ≤ later → ∀ answer answer', values later answer answer' →
      dev.Similar later values' (next answer) (next' answer')) :
    dev.Similar w values' (first >>= next) (first' >>= next') := by
  intro state state' hstates
  refine CallTree.Similar.bind (h state state' hstates) fun outcome outcome' houtcome => ?_
  cases houtcome with
  | ok hle hvalues hstates =>
    have hrest := hnext _ hle _ _ hvalues _ _ hstates
    exact hrest.mono fun _ _ hafter => hafter.earlier hle
  | error hle hproblems hstates => exact .done (.error hle hproblems hstates)

/-- A step within a changed state begins in a world of its own. What it leads to there has to be
understood from the world outside once the state is put back. -/
theorem similar_within {τ : Type} {inner : W} {save : σ → τ} {enter enter' : σ → σ}
    {restore : τ → σ → σ} {step : Routine σ ε R α} {step' : Routine σ ε R α'}
    (h : dev.Similar inner values step step')
    (henter : ∀ state state', dev.states w state state' →
      dev.states inner (enter state) (enter' state'))
    (hrestore : ∀ state state' later reached reached', dev.states w state state' → inner ≤ later →
      dev.states later reached reached' → ∃ outer, w ≤ outer ∧
        dev.states outer (restore (save state) reached) (restore (save state') reached') ∧
        ∀ answer answer', values later answer answer' → values outer answer answer') :
    dev.Similar w values (within save enter restore step) (within save enter' restore step') := by
  intro state state' hstates
  refine CallTree.Similar.bind (h _ _ (henter state state' hstates)) fun outcome outcome' h => ?_
  cases h with
  | ok hle hvalues hreached =>
    obtain ⟨outer, houter, hstates', hvalues'⟩ := hrestore _ _ _ _ _ hstates hle hreached
    exact .done (.ok houter (hvalues' _ _ hvalues) hstates')
  | error hle hproblems hreached =>
    obtain ⟨outer, houter, hstates', -⟩ := hrestore _ _ _ _ _ hstates hle hreached
    exact .done (.error houter hproblems hstates')

/-- Within any number of rounds, corresponding procedures come to corresponding outcomes, or to none
alike. -/
theorem rel_run {body body' : (p : P) → Routine σ ε R (R p)}
    (hbody : ∀ w p p', dev.procedures w p p' →
      dev.Similar w (fun w => dev.results w p p') (body p) (body' p'))
    {p p' : P} (h : dev.procedures w p p') {state state' : σ} (hstates : dev.states w state state')
    (rounds : Nat) :
    Option.Rel (dev.Outcomes w fun w => dev.results w p p') (run body rounds p state)
      (run body' rounds p' state') := by
  refine CallTree.Similar.rel_run (fun call call' hcalls => ?_)
    (hbody w p p' h state state' hstates)
    rounds
  obtain ⟨w, hcall⟩ := hcalls
  exact CallTree.Similar.forall ⟨w, hcall⟩ fun start =>
    hbody start.1 _ _ start.2.1 _ _ start.2.2

end Development

end Routine

end Lox
