/-
# What computations that do the same end with

Two computations that go side by side end in the same way: what one ends with corresponds to
something that the other ends with. This forgets the rounds of the machine, which both take in the
same number (`CallTree.Similar.rel_run`).
-/

import Lox.CallTree.Similar
import Lox.Proofs.CallTree.Steps

namespace Lox

/-- What one computation ends with corresponds to something that the other ends with. -/
theorem CallTree.Similar.ends {Q Q' : Type} {A : Q → Type} {A' : Q' → Type} {α α' : Type}
    {calls : Q → Q' → Prop} {answers : (q : Q) → (q' : Q') → A q → A' q' → Prop}
    {body : (q : Q) → CallTree A (A q)} {body' : (q' : Q') → CallTree A' (A' q')}
    (hbody : ∀ q q', calls q q' → Similar calls answers (answers q q') (body q) (body' q'))
    {post : α → α' → Prop} {tree : CallTree A α} {tree' : CallTree A' α'}
    (h : Similar calls answers post tree tree') {answer : α} (hends : Ends body tree answer) :
    ∃ answer', Ends body' tree' answer' ∧ post answer answer' := by
  obtain ⟨rounds, hrun⟩ := exists_run_iff_ends.2 hends
  have hrel := rel_run hbody h rounds
  rw [hrun] at hrel
  generalize hrun' : run body' rounds tree' .nil = found at hrel
  cases hrel with
  | some hpost => exact ⟨_, exists_run_iff_ends.1 ⟨rounds, hrun'⟩, hpost⟩

/-- The calls of a computation have corresponding ones, as long as their answers do, and so has its
own answer. -/
theorem CallTree.Similar.ensures {Q Q' : Type} {A : Q → Type} {A' : Q' → Type} {α α' : Type}
    {calls : Q → Q' → Prop} {answers : (q : Q) → (q' : Q') → A q → A' q' → Prop}
    {post : α → α' → Prop} {tree : CallTree A α} {tree' : CallTree A' α'}
    {pre : Q → Prop} {spec : (q : Q) → A q → Prop} (hpre : ∀ q q', calls q q' → pre q)
    (hspec : ∀ q q' given, calls q q' → spec q given → ∃ given', answers q q' given given')
    (h : Similar calls answers post tree tree') :
    tree.Ensures pre spec fun answer => ∃ answer', post answer answer' := by
  induction h with
  | done h => exact ⟨_, h⟩
  | call hcalls _ ih =>
    refine ⟨hpre _ _ hcalls, fun given hgiven => ?_⟩
    obtain ⟨given', hanswers⟩ := hspec _ _ given hcalls hgiven
    exact ih given given' hanswers
  | jump hcalls h =>
    refine ⟨hpre _ _ hcalls, fun given hgiven => ?_⟩
    obtain ⟨given', hanswers⟩ := hspec _ _ given hcalls hgiven
    exact ⟨_, h given given' hanswers⟩

namespace Routine.Likeness

variable {P σ σ' ε : Type} {R : P → Type} {α α' : Type} {like : Likeness σ σ' ε R}
  {body : (p : P) → Routine σ ε R (R p)} {body' : (p : P) → Routine σ' ε R (R p)}

theorem Similar.ends
    (hbody : ∀ p p', like.procedures p p' → like.Similar (like.results p p') (body p) (body' p'))
    {state : σ} {state' : σ'} (hstates : like.states state state') {values : α → α' → Prop}
    {step : Routine σ ε R α} {step' : Routine σ' ε R α'} (h : like.Similar values step step')
    {outcome : Outcome σ ε α} (hends : Ends body step state outcome) :
    ∃ outcome', Ends body' step' state' outcome' ∧ like.Outcomes values outcome outcome' :=
  CallTree.Similar.ends (fun _ _ hcalls => hbody _ _ hcalls.1 _ _ hcalls.2)
    (h state state' hstates) hends

end Routine.Likeness

end Lox
