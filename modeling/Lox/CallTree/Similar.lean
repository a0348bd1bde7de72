/-
# Computations that do the same

Two computations go side by side if they make corresponding calls, go on in step whenever the
answers of those correspond, and come to corresponding answers. If the bodies of all corresponding
procedures go side by side, then so does all that comes of them: the machine carries out both in the
same number of rounds, and comes to corresponding answers (`Similar.rel_run`).

For procedures over a state, `Likeness` says what corresponds to what, and each way of building a
`Routine` has its rule. The states of the two sides may be of different types: the same procedures
can be carried out on two ways of keeping what they work on. Or they are of one type, and whatever
does not matter to a program, be it the numbers that its accesses carry or the lines that its tokens
are on, is left out of the correspondence; the rules show that nothing comes of it.
-/

import Lox.CallTree.Routine

namespace Lox

namespace CallTree

variable {Q Q' : Type} {A : Q → Type} {A' : Q' → Type} {α α' β β' : Type}
  {calls : Q → Q' → Prop} {answers : (q : Q) → (q' : Q') → A q → A' q' → Prop}

/-- Two computations make corresponding calls and come to corresponding answers, as long as the
answers of their calls correspond. -/
inductive Similar (calls : Q → Q' → Prop)
    (answers : (q : Q) → (q' : Q') → A q → A' q' → Prop) (post : α → α' → Prop) :
    CallTree A α → CallTree A' α' → Prop where
  | done {answer : α} {answer' : α'} (h : post answer answer') :
      Similar calls answers post (.done answer) (.done answer')
  | call {q : Q} {q' : Q'} {next : A q → CallTree A α} {next' : A' q' → CallTree A' α'}
      (hcalls : calls q q')
      (hnext : ∀ given given', answers q q' given given' →
        Similar calls answers post (next given) (next' given')) :
      Similar calls answers post (.call q next) (.call q' next')
  | jump {q : Q} {q' : Q'} {fits : A q = α} {fits' : A' q' = α'} (hcalls : calls q q')
      (h : ∀ given given', answers q q' given given' →
        post (cast fits given) (cast fits' given')) :
      Similar calls answers post (.jump q fits) (.jump q' fits')

namespace Similar

theorem bind {middle : α → α' → Prop} {post : β → β' → Prop} {tree : CallTree A α}
    {tree' : CallTree A' α'} {next : α → CallTree A β} {next' : α' → CallTree A' β'}
    (h : Similar calls answers middle tree tree')
    (hnext : ∀ answer answer', middle answer answer' →
      Similar calls answers post (next answer) (next' answer')) :
    Similar calls answers post (tree.bind next) (tree'.bind next') := by
  induction h with
  | done h => exact hnext _ _ h
  | call hcalls _ ih => exact .call hcalls ih
  | jump hcalls h => exact .call hcalls fun given given' hgiven => hnext _ _ (h given given' hgiven)

theorem mono {post post' : α → α' → Prop} {tree : CallTree A α} {tree' : CallTree A' α'}
    (h : Similar calls answers post tree tree')
    (himp : ∀ answer answer', post answer answer' → post' answer answer') :
    Similar calls answers post' tree tree' := by
  induction h with
  | done h => exact .done (himp _ _ h)
  | call hcalls _ ih => exact .call hcalls ih
  | jump hcalls h => exact .jump hcalls fun given given' hgiven => himp _ _ (h given given' hgiven)

end Similar

/-! ## The machine does the same -/

/-- Work that waits for answers between which `post` holds goes on side by side, to final answers
between which `final` holds. -/
inductive Pending.Similar {ω ω' : Type} (calls : Q → Q' → Prop)
    (answers : (q : Q) → (q' : Q') → A q → A' q' → Prop) (final : ω → ω' → Prop) :
    {α α' : Type} → (post : α → α' → Prop) → Pending A ω α → Pending A' ω' α' → Prop
  | nil {post : ω → ω' → Prop} (h : ∀ answer answer', post answer answer' → final answer answer') :
      Pending.Similar calls answers final post .nil .nil
  | push {α α' β β' : Type} {post : α → α' → Prop} {later : β → β' → Prop} {next : α → CallTree A β}
      {next' : α' → CallTree A' β'} {rest : Pending A ω β} {rest' : Pending A' ω' β'}
      (hnext : ∀ answer answer', post answer answer' →
        CallTree.Similar calls answers later (next answer) (next' answer'))
      (hrest : Pending.Similar calls answers final later rest rest') :
      Pending.Similar calls answers final post (.push next rest) (.push next' rest')

theorem Pending.Similar.weaken {ω ω' : Type} {final : ω → ω' → Prop} {post post' : α → α' → Prop}
    {rest : Pending A ω α} {rest' : Pending A' ω' α'}
    (h : Pending.Similar calls answers final post rest rest')
    (himp : ∀ answer answer', post' answer answer' → post answer answer') :
    Pending.Similar calls answers final post' rest rest' := by
  cases h with
  | nil h => exact .nil fun answer answer' hpost => h _ _ (himp _ _ hpost)
  | push hnext hrest => exact .push (fun answer answer' hpost => hnext _ _ (himp _ _ hpost)) hrest

namespace Similar

section Bodies

variable {body : (q : Q) → CallTree A (A q)} {body' : (q' : Q') → CallTree A' (A' q')}
  (hbody : ∀ q q', calls q q' → Similar calls answers (answers q q') (body q) (body' q'))
include hbody

/-- Within any number of rounds the machine comes to corresponding answers, or to none alike: round
by round it does the same. -/
theorem rel_run_pending {ω ω' : Type} {final : ω → ω' → Prop} (rounds : Nat)
    {post : α → α' → Prop} {tree : CallTree A α} {tree' : CallTree A' α'} {rest : Pending A ω α}
    {rest' : Pending A' ω' α'} (h : Similar calls answers post tree tree')
    (hrest : Pending.Similar calls answers final post rest rest') :
    Option.Rel final (run body rounds tree rest) (run body' rounds tree' rest') := by
  induction rounds generalizing α α' with
  | zero => exact .none
  | succ rounds ih =>
    cases h with
    | done h =>
      cases hrest with
      | nil hfinal => exact .some (hfinal _ _ h)
      | push hnext hrest => exact ih (hnext _ _ h) hrest
    | call hcalls hnext => exact ih (hbody _ _ hcalls) (.push hnext hrest)
    | @jump q q' fits fits' hcalls h =>
      cases fits
      cases fits'
      exact ih (hbody _ _ hcalls) (hrest.weaken h)

variable {post : α → α' → Prop} {tree : CallTree A α} {tree' : CallTree A' α'}

theorem rel_run (h : Similar calls answers post tree tree') (rounds : Nat) :
    Option.Rel post (run body rounds tree .nil) (run body' rounds tree' .nil) :=
  rel_run_pending hbody rounds h (.nil fun _ _ hpost => hpost)

end Bodies

end Similar

end CallTree

/-- Two results correspond: both are successes, with corresponding answers, or both are failures. -/
inductive ResultAlike {ε ε' α α' : Type} (problems : ε → ε' → Prop) (values : α → α' → Prop) :
    Except ε α → Except ε' α' → Prop
  | ok {answer : α} {answer' : α'} (h : values answer answer') :
      ResultAlike problems values (.ok answer) (.ok answer')
  | error {problem : ε} {problem' : ε'} (h : problems problem problem') :
      ResultAlike problems values (.error problem) (.error problem')

theorem ResultAlike.mono {ε ε' α α' : Type} {problems problems' : ε → ε' → Prop}
    {values values' : α → α' → Prop} {result : Except ε α} {result' : Except ε' α'}
    (h : ResultAlike problems values result result')
    (hproblems : ∀ problem problem', problems problem problem' → problems' problem problem')
    (hvalues : ∀ answer answer', values answer answer' → values' answer answer') :
    ResultAlike problems' values' result result' := by
  cases h with
  | ok h => exact .ok (hvalues _ _ h)
  | error h => exact .error (hproblems _ _ h)

namespace Routine

variable {P σ σ' ε : Type} {R : P → Type} {α α' β β' : Type}

/-- What corresponds to what when two members of a procedure family are compared, of which one works
on states of type `σ` and the other on states of type `σ'`. -/
structure Likeness (σ σ' ε : Type) {P : Type} (R : P → Type) where
  /-- The procedures. -/
  procedures : P → P → Prop
  /-- What two procedures answer with. -/
  results : (p p' : P) → R p → R p' → Prop
  /-- The states. -/
  states : σ → σ' → Prop
  /-- The failures. -/
  problems : ε → ε → Prop

namespace Likeness

variable (like : Likeness σ σ' ε R)

/-- Two outcomes correspond: both are successes or both are failures, and the states correspond. -/
inductive Outcomes (values : α → α' → Prop) : Outcome σ ε α → Outcome σ' ε α' → Prop
  | ok {answer : α} {answer' : α'} {state : σ} {state' : σ'} (hvalues : values answer answer')
      (hstates : like.states state state') :
        Outcomes values (.ok answer, state) (.ok answer', state')
  | error {problem problem' : ε} {state : σ} {state' : σ'}
      (hproblems : like.problems problem problem') (hstates : like.states state state') :
      Outcomes values (.error problem, state) (.error problem', state')

variable {like} in
theorem Outcomes.states {values : α → α' → Prop} {outcome : Outcome σ ε α}
    {outcome' : Outcome σ' ε α'} (h : like.Outcomes values outcome outcome') :
    like.states outcome.2 outcome'.2 := by
  cases h with
  | ok _ hstates | error _ hstates => exact hstates

/-- Two steps go side by side from corresponding states. -/
def Similar (values : α → α' → Prop) (step : Routine σ ε R α) (step' : Routine σ' ε R α') : Prop :=
  ∀ state state', like.states state state' →
    CallTree.Similar
      (fun (call : P × σ) (call' : P × σ') =>
        like.procedures call.1 call'.1 ∧ like.states call.2 call'.2)
      (fun call call' => like.Outcomes (like.results call.1 call'.1)) (like.Outcomes values)
      (step state) (step' state')

variable {like} {values : α → α' → Prop} {values' : β → β' → Prop}

theorem similar_pure {answer : α} {answer' : α'} (h : values answer answer') :
    like.Similar values (Pure.pure answer) (Pure.pure answer') :=
  fun _ _ hstates => .done (.ok h hstates)

theorem similar_fail {problem problem' : ε} (h : like.problems problem problem') :
    like.Similar values (fail problem : Routine σ ε R α) (fail problem' : Routine σ' ε R α') :=
  fun _ _ hstates => .done (.error h hstates)

theorem similar_ofExcept {result : Except ε α} {result' : Except ε α'}
    (h : ResultAlike like.problems values result result') :
    like.Similar values (ofExcept result : Routine σ ε R α)
      (ofExcept result' : Routine σ' ε R α') := by
  intro state state' hstates
  cases h with
  | ok h => exact .done (.ok h hstates)
  | error h => exact .done (.error h hstates)

theorem similar_step {advance : σ → Outcome σ ε α} {advance' : σ' → Outcome σ' ε α'}
    (h : ∀ state state', like.states state state' →
      like.Outcomes values (advance state) (advance' state')) :
    like.Similar values (step advance : Routine σ ε R α) (step advance' : Routine σ' ε R α') :=
  fun state state' hstates => .done (h state state' hstates)

theorem similar_gets {read : σ → α} {read' : σ' → α'}
    (h : ∀ state state', like.states state state' → values (read state) (read' state')) :
    like.Similar values (gets read : Routine σ ε R α) (gets read' : Routine σ' ε R α') :=
  fun state state' hstates => .done (.ok (h state state' hstates) hstates)

theorem similar_modify {change : σ → σ} {change' : σ' → σ'} {values : Unit → Unit → Prop}
    (hvalues : values () ())
    (h : ∀ state state', like.states state state' → like.states (change state) (change' state')) :
    like.Similar values (modify change : Routine σ ε R Unit)
      (modify change' : Routine σ' ε R Unit) :=
  fun state state' hstates => .done (.ok hvalues (h state state' hstates))

theorem similar_call {p p' : P} (h : like.procedures p p') :
    like.Similar (like.results p p') (call p : Routine σ ε R (R p))
      (call p' : Routine σ' ε R (R p')) :=
  fun _ _ hstates => .call ⟨h, hstates⟩ fun _ _ hgiven => .done hgiven

theorem similar_jump {p p' : P} (h : like.procedures p p') :
    like.Similar (like.results p p') (jump p : Routine σ ε R (R p))
      (jump p' : Routine σ' ε R (R p')) :=
  fun _ _ hstates => .jump ⟨h, hstates⟩ fun _ _ hgiven => hgiven

theorem Similar.bind {first : Routine σ ε R α} {first' : Routine σ' ε R α'}
    {next : α → Routine σ ε R β} {next' : α' → Routine σ' ε R β'}
    (h : like.Similar values first first')
    (hnext : ∀ answer answer', values answer answer' →
      like.Similar values' (next answer) (next' answer')) :
    like.Similar values' (first >>= next) (first' >>= next') := by
  intro state state' hstates
  refine CallTree.Similar.bind (h state state' hstates) fun outcome outcome' houtcome => ?_
  cases houtcome with
  | ok hvalues hstates => exact hnext _ _ hvalues _ _ hstates
  | error hproblems hstates => exact .done (.error hproblems hstates)

theorem similar_map {step : Routine σ ε R α} {step' : Routine σ' ε R α'} {change : α → β}
    {change' : α' → β'} (h : like.Similar values step step')
    (hchange : ∀ answer answer', values answer answer' →
      values' (change answer) (change' answer')) :
    like.Similar values' (change <$> step) (change' <$> step') := by
  rw [map_eq_bind, map_eq_bind]
  exact h.bind fun answer answer' hvalues => similar_pure (hchange answer answer' hvalues)

theorem similar_attempt {inner : Routine σ ε R α} {inner' : Routine σ' ε R α'}
    (h : like.Similar values inner inner') :
    like.Similar (ResultAlike like.problems values) (attempt inner) (attempt inner') := by
  intro state state' hstates
  refine CallTree.Similar.bind (h state state' hstates) fun outcome outcome' houtcome => ?_
  cases houtcome with
  | ok hvalues hstates => exact .done (.ok (.ok hvalues) hstates)
  | error hproblems hstates => exact .done (.ok (.error hproblems) hstates)

theorem similar_within {τ τ' : Type} {save : σ → τ} {save' : σ' → τ'} {enter : σ → σ}
    {enter' : σ' → σ'}
    {restore : τ → σ → σ} {restore' : τ' → σ' → σ'} {inner : Routine σ ε R α}
    {inner' : Routine σ' ε R α'} (h : like.Similar values inner inner')
    (henter : ∀ state state', like.states state state' → like.states (enter state) (enter' state'))
    (hrestore : ∀ state state' reached reached', like.states state state' →
      like.states reached reached' →
        like.states (restore (save state) reached) (restore' (save' state') reached')) :
    like.Similar values (within save enter restore inner)
      (within save' enter' restore' inner') := by
  intro state state' hstates
  refine CallTree.Similar.bind (h _ _ (henter state state' hstates)) fun outcome outcome' h => ?_
  cases h with
  | ok hvalues hreached => exact .done (.ok hvalues (hrestore _ _ _ _ hstates hreached))
  | error hproblems hreached => exact .done (.error hproblems (hrestore _ _ _ _ hstates hreached))

section Bodies

variable {body : (p : P) → Routine σ ε R (R p)} {body' : (p : P) → Routine σ' ε R (R p)}
  (hbody : ∀ p p', like.procedures p p' → like.Similar (like.results p p') (body p) (body' p'))
  {state : σ} {state' : σ'} (hstates : like.states state state')
include hbody hstates

/-- Within any number of rounds, corresponding procedures come to corresponding outcomes, or to none
alike. -/
theorem rel_run {p p' : P} (h : like.procedures p p') (rounds : Nat) :
    Option.Rel (like.Outcomes (like.results p p')) (run body rounds p state)
      (run body' rounds p' state') :=
  CallTree.Similar.rel_run (fun _ _ hcalls => hbody _ _ hcalls.1 _ _ hcalls.2)
    (hbody p p' h state state' hstates) rounds

end Bodies

end Likeness

end Routine

end Lox
