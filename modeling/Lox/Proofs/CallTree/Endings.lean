/-
# Computations that end alike

Two computations that go side by side make the same calls. Computations can also be compared by
what they end with alone, and then each may take calls of its own on the way. `SameEnds` says that
two steps always end the same, with one family of procedures: a call ends as what it calls does, and
steps can be replaced by such steps wherever they stand. `EndsAlike` says that whatever one of two
computations ends with, the other ends with something that corresponds; neither ends if the other
does not. Computations that go side by side end alike, and so does what is put together from
computations that end alike.
-/

import Lox.Proofs.CallTree.Developing

namespace Lox

namespace CallTree

variable {Q Q' : Type} {A : Q → Type} {A' : Q' → Type} {α α' β β' : Type}
  {body : (q : Q) → CallTree A (A q)} {body' : (q' : Q') → CallTree A' (A' q')}
  {post : α → α' → Prop} {tree : CallTree A α} {tree' : CallTree A' α'}

/-- Whatever one of two computations ends with, the other ends with something that corresponds. -/
structure EndsAlike (body : (q : Q) → CallTree A (A q)) (body' : (q' : Q') → CallTree A' (A' q'))
    (post : α → α' → Prop) (tree : CallTree A α) (tree' : CallTree A' α') : Prop where
  forth : ∀ answer, Ends body tree answer → ∃ answer', Ends body' tree' answer' ∧
    post answer answer'
  back : ∀ answer', Ends body' tree' answer' → ∃ answer, Ends body tree answer ∧ post answer answer'

theorem endsAlike_done {answer : α} {answer' : α'} (h : post answer answer') :
    EndsAlike body body' post (.done answer) (.done answer') := by
  constructor
  · intro found hends
    obtain rfl := ends_done.1 hends
    exact ⟨answer', ends_done.2 rfl, h⟩
  · intro found hends
    obtain rfl := ends_done.1 hends
    exact ⟨answer, ends_done.2 rfl, h⟩

namespace EndsAlike

theorem bind {later : β → β' → Prop} {next : α → CallTree A β} {next' : α' → CallTree A' β'}
    (h : EndsAlike body body' post tree tree')
    (hnext : ∀ answer answer', post answer answer' →
      EndsAlike body body' later (next answer) (next' answer')) :
    EndsAlike body body' later (tree.bind next) (tree'.bind next') := by
  constructor
  · intro last hends
    obtain ⟨answer, hfirst, hrest⟩ := ends_bind.1 hends
    obtain ⟨answer', hfirst', hpost⟩ := h.forth answer hfirst
    obtain ⟨last', hrest', hlater⟩ := (hnext answer answer' hpost).forth last hrest
    exact ⟨last', ends_bind.2 ⟨answer', hfirst', hrest'⟩, hlater⟩
  · intro last' hends'
    obtain ⟨answer', hfirst', hrest'⟩ := ends_bind.1 hends'
    obtain ⟨answer, hfirst, hpost⟩ := h.back answer' hfirst'
    obtain ⟨last, hrest, hlater⟩ := (hnext answer answer' hpost).back last' hrest'
    exact ⟨last, ends_bind.2 ⟨answer, hfirst, hrest⟩, hlater⟩

theorem mono {post' : α → α' → Prop} (h : EndsAlike body body' post tree tree')
    (himp : ∀ answer answer', post answer answer' → post' answer answer') :
    EndsAlike body body' post' tree tree' := by
  constructor
  · intro answer hends
    obtain ⟨answer', hends', hpost⟩ := h.forth answer hends
    exact ⟨answer', hends', himp _ _ hpost⟩
  · intro answer' hends'
    obtain ⟨answer, hends, hpost⟩ := h.back answer' hends'
    exact ⟨answer, hends, himp _ _ hpost⟩

end EndsAlike

/-- Computations that go side by side end alike. -/
theorem Similar.endsAlike {calls : Q → Q' → Prop}
    {answers : (q : Q) → (q' : Q') → A q → A' q' → Prop}
    (hbody : ∀ q q', calls q q' → Similar calls answers (answers q q') (body q) (body' q'))
    (h : Similar calls answers post tree tree') : EndsAlike body body' post tree tree' := by
  constructor
  · exact fun answer hends => h.ends hbody hends
  · intro answer' hends'
    obtain ⟨rounds, hrun'⟩ := exists_run_iff_ends.2 hends'
    have hrel := h.rel_run hbody rounds
    rw [hrun'] at hrel
    generalize hrun : run body rounds tree .nil = found at hrel
    cases hrel with
    | some hpost => exact ⟨_, exists_run_iff_ends.1 ⟨rounds, hrun⟩, hpost⟩

end CallTree

namespace Routine

variable {W P σ ε τ α α' β β' : Type} {R : P → Type} {body : (p : P) → Routine σ ε R (R p)}

/-! ## Steps that end the same -/

/-- Two steps end the same, from whatever state. -/
def SameEnds (body : (p : P) → Routine σ ε R (R p)) (step step' : Routine σ ε R α) : Prop :=
  ∀ state outcome, Ends body step state outcome ↔ Ends body step' state outcome

namespace SameEnds

theorem refl (step : Routine σ ε R α) : SameEnds body step step := fun _ _ => Iff.rfl

theorem trans {step step' step'' : Routine σ ε R α} (h : SameEnds body step step')
    (h' : SameEnds body step' step'') : SameEnds body step step'' :=
  fun state outcome => (h state outcome).trans (h' state outcome)

theorem bind {first first' : Routine σ ε R α} {next next' : α → Routine σ ε R β}
    (h : SameEnds body first first')
    (hnext : ∀ answer, SameEnds body (next answer) (next' answer)) :
    SameEnds body (first >>= next) (first' >>= next') := by
  intro state outcome
  simp only [ends_bind, h _ _, hnext _ _ _]

theorem within {save : σ → τ} {enter : σ → σ} {restore : τ → σ → σ} {inner inner' : Routine σ ε R α}
    (h : SameEnds body inner inner') :
    SameEnds body (within save enter restore inner) (within save enter restore inner') := by
  intro state outcome
  simp only [ends_within, h _ _]

end SameEnds

theorem sameEnds_call (p : P) : SameEnds body (call p) (body p) := fun _ _ => ends_call

theorem sameEnds_jump (p : P) : SameEnds body (jump p) (body p) := fun _ _ => ends_jump

/-! ## Steps between which more and more corresponds -/

namespace Development

variable [Preorder W] (dev : Development W σ ε R) (body body' : (p : P) → Routine σ ε R (R p))

/-- Two steps end alike from states that correspond in a world. -/
def EndsAlike (w : W) (values : W → α → α' → Prop) (step : Routine σ ε R α)
    (step' : Routine σ ε R α') : Prop :=
  ∀ state state', dev.states w state state' →
    CallTree.EndsAlike (fun call : P × σ => body call.1 call.2)
      (fun call : P × σ => body' call.1 call.2) (dev.Outcomes w values) (step state) (step' state')

variable {dev body body'} {w inner : W} {values : W → α → α' → Prop} {later : W → β → β' → Prop}
  {step step₁ : Routine σ ε R α} {step' : Routine σ ε R α'}

theorem Similar.endsAlike
    (hbody : ∀ w p p', dev.procedures w p p' →
      dev.Similar w (fun w => dev.results w p p') (body p) (body' p'))
    (h : dev.Similar w values step step') : dev.EndsAlike body body' w values step step' := by
  intro state state' hstates
  refine CallTree.Similar.endsAlike (fun call call' hcalls => ?_) (h state state' hstates)
  obtain ⟨w, hcall⟩ := hcalls
  exact CallTree.Similar.forall ⟨w, hcall⟩ fun start => hbody start.1 _ _ start.2.1 _ _ start.2.2

theorem endsAlike_pure {answer : α} {answer' : α'} (h : values w answer answer') :
    dev.EndsAlike body body' w values (Pure.pure answer) (Pure.pure answer') :=
  fun _ _ hstates => CallTree.endsAlike_done (.ok le_rfl h hstates)

namespace EndsAlike

/-- What ends the same as a step ends like whatever the step ends like. -/
theorem replace (h : dev.EndsAlike body body' w values step step')
    (hsame : SameEnds body step₁ step) : dev.EndsAlike body body' w values step₁ step' := by
  intro state state' hstates
  have halike := h state state' hstates
  constructor
  · exact fun outcome hends => halike.forth outcome ((hsame state outcome).1 hends)
  · intro outcome' hends'
    obtain ⟨outcome, hends, hpost⟩ := halike.back outcome' hends'
    exact ⟨outcome, (hsame state outcome).2 hends, hpost⟩

theorem bind {next : α → Routine σ ε R β} {next' : α' → Routine σ ε R β'}
    (h : dev.EndsAlike body body' w values step step')
    (hnext : ∀ reached, w ≤ reached → ∀ answer answer', values reached answer answer' →
      dev.EndsAlike body body' reached later (next answer) (next' answer')) :
    dev.EndsAlike body body' w later (step >>= next) (step' >>= next') := by
  intro state state' hstates
  refine CallTree.EndsAlike.bind (h state state' hstates) fun outcome outcome' houtcome => ?_
  cases houtcome with
  | ok hle hvalues hstates =>
    have hrest := hnext _ hle _ _ hvalues _ _ hstates
    exact hrest.mono fun _ _ hafter => hafter.earlier hle
  | error hle hproblems hstates => exact CallTree.endsAlike_done (.error hle hproblems hstates)

/-- Steps within changed states begin in a world of their own. What they lead to there has to be
understood from the world outside once the states are put back. -/
theorem within {save : σ → τ} {enter enter' : σ → σ} {restore : τ → σ → σ}
    (h : dev.EndsAlike body body' inner values step step')
    (henter : ∀ state state', dev.states w state state' →
      dev.states inner (enter state) (enter' state'))
    (hrestore : ∀ state state' reached last last', dev.states w state state' → inner ≤ reached →
      dev.states reached last last' → ∃ outer, w ≤ outer ∧
        dev.states outer (restore (save state) last) (restore (save state') last') ∧
        ∀ answer answer', values reached answer answer' → values outer answer answer') :
    dev.EndsAlike body body' w values (Routine.within save enter restore step)
      (Routine.within save enter' restore step') := by
  intro state state' hstates
  refine CallTree.EndsAlike.bind (h _ _ (henter state state' hstates)) fun outcome outcome' h => ?_
  cases h with
  | ok hle hvalues hlast =>
    obtain ⟨outer, houter, hstates', hvalues'⟩ := hrestore _ _ _ _ _ hstates hle hlast
    exact CallTree.endsAlike_done (.ok houter (hvalues' _ _ hvalues) hstates')
  | error hle hproblems hlast =>
    obtain ⟨outer, houter, hstates', -⟩ := hrestore _ _ _ _ _ hstates hle hlast
    exact CallTree.endsAlike_done (.error houter hproblems hstates')

/-- Only the first step is within a changed state, and what it leads to can be understood from
outside once its state is put back. -/
theorem within_left {save : σ → τ} {enter : σ → σ} {restore : τ → σ → σ}
    (h : dev.EndsAlike body body' inner values step step')
    (henter : ∀ state state', dev.states w state state' → dev.states inner (enter state) state')
    (hrestore : ∀ state state' reached last result last', dev.states w state state' →
      inner ≤ reached → dev.states reached last last' → Ends body' step' state' (result, last') →
      ∃ outer, w ≤ outer ∧ dev.states outer (restore (save state) last) last' ∧
        ∀ answer answer', values reached answer answer' → values outer answer answer') :
    dev.EndsAlike body body' w values (Routine.within save enter restore step) step' := by
  intro state state' hstates
  have halike := h _ _ (henter state state' hstates)
  have hput : ∀ outcome outcome', Ends body' step' state' outcome' →
      dev.Outcomes inner values outcome outcome' →
      dev.Outcomes w values (outcome.1, restore (save state) outcome.2) outcome' := by
    intro outcome outcome' hends' houtcome
    cases houtcome with
    | ok hle hvalues hlast =>
      obtain ⟨outer, houter, hstates', hvalues'⟩ := hrestore _ _ _ _ _ _ hstates hle hlast hends'
      exact .ok houter (hvalues' _ _ hvalues) hstates'
    | error hle hproblems hlast =>
      obtain ⟨outer, houter, hstates', -⟩ := hrestore _ _ _ _ _ _ hstates hle hlast hends'
      exact .error houter hproblems hstates'
  constructor
  · intro outcome hends
    obtain ⟨result, last, hinner, rfl⟩ := ends_within.1 hends
    obtain ⟨outcome', hends', houtcome⟩ := halike.forth _ hinner
    exact ⟨outcome', hends', hput _ _ hends' houtcome⟩
  · intro outcome' hends'
    obtain ⟨⟨result, last⟩, hinner, houtcome⟩ := halike.back outcome' hends'
    exact ⟨_, ends_within.2 ⟨result, last, hinner, rfl⟩, hput _ _ hends' houtcome⟩

end EndsAlike

end Development

end Routine

end Lox
