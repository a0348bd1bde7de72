/-
# What steps over a state end with

The relations and the logic of `Lox.Proofs.CallTree.Ends`, for procedures that change a state and
may fail: an equivalence for each way in which `Routine` puts steps together. Reading a program and
executing it are both reasoned about with these, and neither ever opens a call tree.
-/

import Lox.Proofs.CallTree.Ends

namespace Lox.Routine

variable {P σ ε α β : Type} {R : P → Type} {body : (p : P) → Routine σ ε R (R p)}
  {state : σ}

/-- A step taken from a state ends in an outcome, however deep its calls nest. -/
def Ends (body : (p : P) → Routine σ ε R (R p)) (step : Routine σ ε R α) (state : σ)
    (outcome : Outcome σ ε α) : Prop :=
  CallTree.Ends (fun call : P × σ => body call.1 call.2) (step state) outcome

/-- The machine reaches exactly the outcomes that a procedure ends in. -/
theorem exists_run_iff_ends {p : P} {outcome : Outcome σ ε (R p)} :
    (∃ rounds, run body rounds p state = some outcome) ↔ Ends body (body p) state outcome :=
  CallTree.exists_run_iff_ends

theorem Ends.unique {step : Routine σ ε R α} {first second : Outcome σ ε α}
    (hfirst : Ends body step state first) (hsecond : Ends body step state second) :
    first = second :=
  CallTree.Ends.unique hfirst hsecond

theorem ends_pure {answer : α} {outcome : Outcome σ ε α} :
    Ends body (Pure.pure answer) state outcome ↔ outcome = (.ok answer, state) :=
  CallTree.ends_done.trans eq_comm

theorem ends_gets {read : σ → α} {outcome : Outcome σ ε α} :
    Ends body (gets read) state outcome ↔ outcome = (.ok (read state), state) :=
  CallTree.ends_done.trans eq_comm

theorem ends_step {advance : σ → Outcome σ ε α} {outcome : Outcome σ ε α} :
    Ends body (step advance) state outcome ↔ outcome = advance state :=
  CallTree.ends_done.trans eq_comm

theorem ends_modify {change : σ → σ} {outcome : Outcome σ ε Unit} :
    Ends body (modify change) state outcome ↔ outcome = (.ok (), change state) :=
  CallTree.ends_done.trans eq_comm

theorem ends_bind {first : Routine σ ε R α} {next : α → Routine σ ε R β}
    {outcome : Outcome σ ε β} :
    Ends body (first >>= next) state outcome ↔
      (∃ answer reached, Ends body first state (.ok answer, reached) ∧
        Ends body (next answer) reached outcome) ∨
      ∃ problem reached, Ends body first state (.error problem, reached) ∧
        outcome = (.error problem, reached) := by
  refine CallTree.ends_bind.trans ?_
  constructor
  · rintro ⟨⟨problem | answer, reached⟩, hfirst, hnext⟩
    · exact .inr ⟨problem, reached, hfirst, (CallTree.ends_done.1 hnext).symm⟩
    · exact .inl ⟨answer, reached, hfirst, hnext⟩
  · rintro (⟨answer, reached, hfirst, hnext⟩ | ⟨problem, reached, hfirst, rfl⟩)
    · exact ⟨_, hfirst, hnext⟩
    · exact ⟨_, hfirst, CallTree.ends_done.2 rfl⟩

theorem Ends.bind {first : Routine σ ε R α} {next : α → Routine σ ε R β} {answer : α}
    {reached : σ} {outcome : Outcome σ ε β} (hfirst : Ends body first state (.ok answer, reached))
    (hnext : Ends body (next answer) reached outcome) :
    Ends body (first >>= next) state outcome :=
  ends_bind.2 (.inl ⟨answer, reached, hfirst, hnext⟩)

theorem Ends.bind_error {first : Routine σ ε R α} {next : α → Routine σ ε R β} {problem : ε}
    {reached : σ} (hfirst : Ends body first state (.error problem, reached)) :
    Ends body (first >>= next) state (.error problem, reached) :=
  ends_bind.2 (.inr ⟨problem, reached, hfirst, rfl⟩)

theorem ends_call {p : P} {outcome : Outcome σ ε (R p)} :
    Ends body (call p) state outcome ↔ Ends body (body p) state outcome := by
  refine CallTree.ends_call.trans ?_
  constructor
  · rintro ⟨given, hgiven, hdone⟩
    exact CallTree.ends_done.1 hdone ▸ hgiven
  · exact fun h => ⟨outcome, h, CallTree.ends_done.2 rfl⟩

theorem ends_jump {p : P} {outcome : Outcome σ ε (R p)} :
    Ends body (jump p) state outcome ↔ Ends body (body p) state outcome := by
  refine CallTree.ends_jump.trans ?_
  constructor
  · rintro ⟨given, hgiven, rfl⟩
    exact hgiven
  · exact fun h => ⟨outcome, h, rfl⟩

theorem ends_attempt {inner : Routine σ ε R α} {outcome : Outcome σ ε (Except ε α)} :
    Ends body (attempt inner) state outcome ↔
      ∃ result reached, Ends body inner state (result, reached) ∧
        outcome = (.ok result, reached) := by
  refine CallTree.ends_bind.trans ?_
  constructor
  · rintro ⟨⟨result, reached⟩, hinner, hdone⟩
    exact ⟨result, reached, hinner, (CallTree.ends_done.1 hdone).symm⟩
  · rintro ⟨result, reached, hinner, rfl⟩
    exact ⟨_, hinner, CallTree.ends_done.2 rfl⟩

theorem ends_within {τ : Type} {save : σ → τ} {enter : σ → σ} {restore : τ → σ → σ}
    {inner : Routine σ ε R α} {outcome : Outcome σ ε α} :
    Ends body (within save enter restore inner) state outcome ↔
      ∃ result reached, Ends body inner (enter state) (result, reached) ∧
        outcome = (result, restore (save state) reached) := by
  refine CallTree.ends_bind.trans ?_
  constructor
  · rintro ⟨⟨result, reached⟩, hinner, hdone⟩
    exact ⟨result, reached, hinner, (CallTree.ends_done.1 hdone).symm⟩
  · rintro ⟨result, reached, hinner, rfl⟩
    exact ⟨_, hinner, CallTree.ends_done.2 rfl⟩

/-! ## Conditions and specifications -/

section Ensures

variable {pre : P × σ → Prop} {spec : (call : P × σ) → Outcome σ ε (R call.1) → Prop}
  {post : Outcome σ ε α → Prop}

/-- A step taken from a state makes only calls that satisfy `pre`, and its outcome satisfies
`post`, provided that the outcomes of the calls satisfy their `spec`. -/
def Ensures (pre : P × σ → Prop) (spec : (call : P × σ) → Outcome σ ε (R call.1) → Prop)
    (step : Routine σ ε R α) (state : σ) (post : Outcome σ ε α → Prop) : Prop :=
  (step state).Ensures pre spec post

theorem ensures_gets {read : σ → α} :
    Ensures pre spec (gets read) state post ↔ post (.ok (read state), state) :=
  Iff.rfl

theorem ensures_step {advance : σ → Outcome σ ε α} :
    Ensures pre spec (step advance) state post ↔ post (advance state) :=
  Iff.rfl

theorem ensures_bind {first : Routine σ ε R α} {next : α → Routine σ ε R β}
    {post : Outcome σ ε β → Prop} :
    Ensures pre spec (first >>= next) state post ↔
      Ensures pre spec first state fun
        | (.ok answer, reached) => Ensures pre spec (next answer) reached post
        | (.error problem, reached) => post (.error problem, reached) := by
  refine CallTree.ensures_bind.trans (iff_of_eq (congrArg _ ?_))
  funext reached
  obtain ⟨outcome, state⟩ := reached
  cases outcome <;> rfl

theorem ensures_call {p : P} {post : Outcome σ ε (R p) → Prop} :
    Ensures pre spec (call p) state post ↔
      pre (p, state) ∧ ∀ outcome, spec (p, state) outcome → post outcome :=
  Iff.rfl

theorem ensures_jump {p : P} {post : Outcome σ ε (R p) → Prop} :
    Ensures pre spec (jump p) state post ↔
      pre (p, state) ∧ ∀ outcome, spec (p, state) outcome → post outcome :=
  Iff.rfl

theorem ensures_attempt {inner : Routine σ ε R α} {post : Outcome σ ε (Except ε α) → Prop} :
    Ensures pre spec (attempt inner) state post ↔
      Ensures pre spec inner state fun outcome => post (.ok outcome.1, outcome.2) :=
  CallTree.ensures_bind

theorem ensures_within {τ : Type} {save : σ → τ} {enter : σ → σ} {restore : τ → σ → σ}
    {inner : Routine σ ε R α} :
    Ensures pre spec (within save enter restore inner) state post ↔
      Ensures pre spec inner (enter state) fun outcome =>
        post (outcome.1, restore (save state) outcome.2) :=
  CallTree.ensures_bind

theorem Ensures.mono {step : Routine σ ε R α} {post' : Outcome σ ε α → Prop}
    (h : Ensures pre spec step state post) (himp : ∀ outcome, post outcome → post' outcome) :
    Ensures pre spec step state post' :=
  CallTree.Ensures.mono h himp

/-- A call comes first: it has to satisfy the condition, a failure of it is one of the whole, and
after a success the rest goes on from the state reached. -/
theorem Ensures.call_bind {p : P} {next : R p → Routine σ ε R α} (hpre : pre (p, state))
    (herror : ∀ problem reached, spec (p, state) (.error problem, reached) →
      post (.error problem, reached))
    (hok : ∀ answer reached, spec (p, state) (.ok answer, reached) →
      Ensures pre spec (next answer) reached post) :
    Ensures pre spec (Routine.call p >>= next) state post := by
  rw [ensures_bind, ensures_call]
  refine ⟨hpre, ?_⟩
  rintro ⟨problem | answer, reached⟩ hspec
  · exact herror problem reached hspec
  · exact hok answer reached hspec

/-- If all bodies keep to their specification, so does every outcome of a procedure that satisfies
the condition. -/
theorem Ends.of_ensures
    (hbody : ∀ p state, pre (p, state) → Ensures pre spec (body p) state (spec (p, state)))
    {p : P} {outcome : Outcome σ ε (R p)} (hpre : pre (p, state))
    (h : Ends body (body p) state outcome) : spec (p, state) outcome := by
  have hbodies : ∀ call : P × σ, pre call → (body call.1 call.2).Ensures pre spec (spec call) :=
    fun call => hbody call.1 call.2
  exact CallTree.Answers.of_ensures hbodies hpre h

end Ensures

end Lox.Routine
