/-
# Bodies that agree as far as they are followed

Two families of bodies may differ, and a computation still does the same with both: what matters are
the procedures that it comes to, and of their bodies what follows the answers that the calls really
get. `Follows` says that two computations agree as far as that, and only the answers of the first
family are looked at. If the bodies agree in this sense wherever the computation comes to, the
machine does the same with both families round by round (`Follows.run_eq`), and it comes to the same
calls, whether it ends or not (`Follows.comes_iff`).
-/

import Lox.Proofs.CallTree.Order
import Lox.Proofs.CallTree.Similar

namespace Lox

namespace CallTree

/-! ## The calls of similar computations -/

namespace Similar

variable {Q Q' : Type} {A : Q → Type} {A' : Q' → Type} {α α' : Type} {calls : Q → Q' → Prop}
  {answers : (q : Q) → (q' : Q') → A q → A' q' → Prop} {post : α → α' → Prop}
  {tree : CallTree A α} {tree' : CallTree A' α'}

theorem symm (h : Similar calls answers post tree tree') :
    Similar (fun q' q => calls q q') (fun q' q answer' answer => answers q q' answer answer')
      (fun answer' answer => post answer answer') tree' tree := by
  induction h with
  | done h => exact .done h
  | call hcalls _ ih => exact .call hcalls fun given' given => ih given given'
  | jump hcalls h => exact .jump hcalls fun given' given hgiven => h given given' hgiven

variable {body : (q : Q) → CallTree A (A q)} {body' : (q' : Q') → CallTree A' (A' q')}
  (hbody : ∀ q q', calls q q' → Similar calls answers (answers q q') (body q) (body' q'))
include hbody

/-- Similar computations make corresponding calls. -/
theorem makes (h : Similar calls answers post tree tree') {made : Q}
    (hmakes : Makes body tree made) :
    ∃ made', Makes body' tree' made' ∧ calls made made' := by
  induction hmakes generalizing α' with
  | call =>
    cases h with
    | call hcalls _ => exact ⟨_, .call, hcalls⟩
  | jump =>
    cases h with
    | jump hcalls _ => exact ⟨_, .jump, hcalls⟩
  | later hgiven _ ih =>
    cases h with
    | call hcalls hnext =>
      obtain ⟨given', hgiven', hanswers⟩ := (hbody _ _ hcalls).ends hbody hgiven
      obtain ⟨made', hmade', hcalls'⟩ := ih (hnext _ _ hanswers)
      exact ⟨made', .later hgiven' hmade', hcalls'⟩

/-- Similar computations come to corresponding calls. -/
theorem comes (h : Similar calls answers post tree tree') {made : Q}
    (hcomes : Comes body tree made) :
    ∃ made', Comes body' tree' made' ∧ calls made made' := by
  obtain ⟨first, hfirst, hreaches⟩ := hcomes
  induction hreaches with
  | refl =>
    obtain ⟨first', hfirst', hcalls⟩ := h.makes hbody hfirst
    exact ⟨first', hfirst'.comes, hcalls⟩
  | tail _ hmakes ih =>
    obtain ⟨q', hcomes', hcalls⟩ := ih
    obtain ⟨made', hmade', hcalls'⟩ := (hbody _ _ hcalls).makes hbody hmakes
    exact ⟨made', hcomes'.tail hmade', hcalls'⟩

end Similar

/-! ## Following one family of bodies -/

variable {Q : Type} {A : Q → Type} {α : Type} {body body' : (q : Q) → CallTree A (A q)}
  {met : Q → Prop} {tree tree' : CallTree A α}

/-- Two computations do the same where calls are answered as by `body`, and `met` are all calls that
they make. -/
def Follows (body : (q : Q) → CallTree A (A q)) (met : Q → Prop) (tree tree' : CallTree A α) :
    Prop :=
  Similar (fun q q' => q = q' ∧ met q)
    (fun q _ answer answer' => HEq answer answer' ∧ Answers body q answer)
    (fun answer answer' => HEq answer answer' ∧ Ends body tree answer) tree tree'

theorem follows_call {q : Q} {next next' : A q → CallTree A α} (hmet : met q)
    (hnext : ∀ given, Answers body q given → Follows body met (next given) (next' given)) :
    Follows body met (.call q next) (.call q next') := by
  refine .call ⟨rfl, hmet⟩ ?_
  rintro given given' ⟨hsame, hgiven⟩
  cases hsame
  refine Similar.mono (hnext given hgiven) ?_
  rintro answer answer' ⟨hsame, hends⟩
  exact ⟨hsame, ends_call.2 ⟨given, hgiven, hends⟩⟩

/-- A computation does the same as itself. -/
theorem follows_self (hmet : ∀ made, Makes body tree made → met made) :
    Follows body met tree tree := by
  induction tree with
  | done answer => exact .done ⟨.rfl, ends_done.2 rfl⟩
  | call q next ih =>
    exact follows_call (hmet q .call) fun given hgiven =>
      ih given fun made hmade => hmet made (.later hgiven hmade)
  | jump q fits =>
    refine .jump ⟨rfl, hmet q .jump⟩ ?_
    rintro given given' ⟨hsame, hgiven⟩
    cases hsame
    exact ⟨.rfl, ends_jump.2 ⟨given, hgiven, rfl⟩⟩

/-- What comes behind a computation need only agree for the answers that this really has. -/
theorem follows_bind {β : Type} {next next' : α → CallTree A β}
    (hmet : ∀ made, Makes body tree made → met made)
    (hnext : ∀ answer, Ends body tree answer → Follows body met (next answer) (next' answer)) :
    Follows body met (tree.bind next) (tree.bind next') := by
  induction tree with
  | done answer => exact hnext answer (ends_done.2 rfl)
  | call q rest ih =>
    exact follows_call (hmet q .call) fun given hgiven =>
      ih given (fun made hmade => hmet made (.later hgiven hmade)) fun answer hends =>
        hnext answer (ends_call.2 ⟨given, hgiven, hends⟩)
  | jump q fits =>
    exact follows_call (hmet q .jump) fun given hgiven =>
      hnext _ (ends_jump.2 ⟨given, hgiven, rfl⟩)

namespace Follows

variable (hbody : ∀ q, met q → Follows body met (body q) (body' q))
include hbody

private theorem similar_bodies (q q' : Q) (h : q = q' ∧ met q) :
    Similar (fun q q' => q = q' ∧ met q)
      (fun q _ answer answer' => HEq answer answer' ∧ Answers body q answer)
      (fun answer answer' => HEq answer answer' ∧ Answers body q answer) (body q) (body' q') := by
  obtain ⟨rfl, hmet⟩ := h
  exact hbody q hmet

/-- With both families the machine does the same round by round. -/
theorem run_eq (h : Follows body met tree tree') (rounds : Nat) :
    run body rounds tree .nil = run body' rounds tree' .nil := by
  have hrel := Similar.rel_run (similar_bodies hbody) h rounds
  generalize run body rounds tree .nil = found at hrel ⊢
  generalize run body' rounds tree' .nil = found' at hrel ⊢
  cases hrel with
  | none => rfl
  | some hsame => exact congrArg some (eq_of_heq hsame.1)

/-- With both families a computation comes to the same calls. -/
theorem comes_iff (h : Follows body met tree tree') {made : Q} :
    Comes body tree made ↔ Comes body' tree' made := by
  constructor
  · intro hcomes
    obtain ⟨made', hmade', rfl, -⟩ := Similar.comes (similar_bodies hbody) h hcomes
    exact hmade'
  · intro hcomes
    have hbodies := fun q' q hcalls => (similar_bodies hbody q q' hcalls).symm
    obtain ⟨made', hmade', rfl, -⟩ := Similar.comes hbodies h.symm hcomes
    exact hmade'

end Follows

end CallTree

namespace Routine

variable {P σ ε α β : Type} {R : P → Type} {body : (p : P) → Routine σ ε R (R p)}
  {met : P × σ → Prop} {state : σ}

/-- Behind a step, two others need only agree where the step really leads. -/
theorem follows_bind {first : Routine σ ε R α} {next next' : α → Routine σ ε R β}
    (hmet : ∀ made, Makes body first state made → met made)
    (hnext : ∀ answer reached, Ends body first state (.ok answer, reached) →
      CallTree.Follows (fun call : P × σ => body call.1 call.2) met (next answer reached)
        (next' answer reached)) :
    CallTree.Follows (fun call : P × σ => body call.1 call.2) met ((first >>= next) state)
      ((first >>= next') state) := by
  refine CallTree.follows_bind hmet ?_
  rintro ⟨problem | answer, reached⟩ hends
  · exact CallTree.follows_self fun made hmade => absurd hmade CallTree.not_makes_done
  · exact hnext answer reached hends

end Routine

end Lox
