/-
# Procedures that change a state and may fail

Both halves of the interpreter that recurse without bound, reading a program and executing it, are
families of procedures over one state whose calls may fail. `Routine` is the monad in which their
bodies are written. A failure ends the calling body as well, and the state reached up to the failure
is kept: a reader resumes behind a malformed statement, and what a program has printed stays
printed.
-/

import Lox.CallTree.Machine

namespace Lox

variable {P σ ε α β : Type} {R : P → Type}

/-- What a fallible step over a state leaves behind: an outcome and the state reached. -/
abbrev Outcome (σ ε α : Type) : Type := Except ε α × σ

/-- A step of a procedure family: `p : P` names a procedure, `R p` is what it answers with when it
succeeds, and each call takes the current state along. -/
def Routine (σ ε : Type) (R : P → Type) (α : Type) : Type :=
  σ → CallTree (fun call : P × σ => Outcome σ ε (R call.1)) (Outcome σ ε α)

namespace Routine

/-- Succeed without doing anything. -/
def pure (answer : α) : Routine σ ε R α := fun state => .done (.ok answer, state)

/-- Do one step and, if it succeeds, the next. -/
def bind (first : Routine σ ε R α) (next : α → Routine σ ε R β) : Routine σ ε R β :=
  fun state => (first state).bind fun
    | (.ok answer, state) => next answer state
    | (.error problem, state) => .done (.error problem, state)

instance : Monad (Routine σ ε R) where
  pure := pure
  bind := bind

theorem bind_assoc {γ : Type} (first : Routine σ ε R α) (next : α → Routine σ ε R β)
    (last : β → Routine σ ε R γ) :
    first >>= next >>= last = first >>= fun answer => next answer >>= last := by
  funext state
  refine (CallTree.bind_assoc (first state) _ _).trans (congrArg _ ?_)
  funext reached
  obtain ⟨outcome, state⟩ := reached
  cases outcome <;> rfl

theorem pure_bind (answer : α) (next : α → Routine σ ε R β) :
    (Pure.pure answer : Routine σ ε R α) >>= next = next answer := rfl

theorem map_eq_bind (change : α → β) (step : Routine σ ε R α) :
    change <$> step = step >>= fun answer => Pure.pure (change answer) := rfl

/-- Fail, keeping the state as it is. -/
def fail (problem : ε) : Routine σ ε R α := fun state => .done (.error problem, state)

/-- Succeed or fail as an outcome computed beforehand says. -/
def ofExcept (outcome : Except ε α) : Routine σ ε R α := fun state => .done (outcome, state)

/-- A value read off the state. -/
def gets (read : σ → α) : Routine σ ε R α := fun state => .done (.ok (read state), state)

/-- A step that moves on in the state and answers with what it found there. -/
def step (advance : σ → Outcome σ ε α) : Routine σ ε R α := fun state => .done (advance state)

/-- Change the state. -/
def modify (change : σ → σ) : Routine σ ε R Unit := fun state => .done (.ok (), change state)

/-- Call a procedure. -/
def call (p : P) : Routine σ ε R (R p) := fun state => .call (p, state) .done

/-- Let a procedure answer in place of the present one. -/
def jump (p : P) : Routine σ ε R (R p) := fun state => .jump (p, state) rfl

/-- Do a step and answer with its outcome, so that a failure of the step is not one of the
caller. -/
def attempt (inner : Routine σ ε R α) : Routine σ ε R (Except ε α) :=
  fun state => (inner state).bind fun (outcome, state) => .done (.ok outcome, state)

/-- Do a step in a changed state, and afterwards, whether it succeeded or failed, put back what was
`saved` beforehand. -/
def within {τ : Type} (save : σ → τ) (enter : σ → σ) (restore : τ → σ → σ)
    (inner : Routine σ ε R α) : Routine σ ε R α :=
  fun state =>
    let saved := save state
    (inner (enter state)).bind fun (outcome, state) => .done (outcome, restore saved state)

/-- Carry out a procedure from a state, in at most `rounds` rounds of the machine. -/
def run (body : (p : P) → Routine σ ε R (R p)) (rounds : Nat) (p : P) (state : σ) :
    Option (Outcome σ ε (R p)) :=
  CallTree.run (fun call => body call.1 call.2) rounds (body p state) .nil

/-! ## How many rounds a step takes -/

section Budget

variable {price : P × σ → Nat}
  {pays : (call : P × σ) → Outcome σ ε (R call.1) → Nat → Prop}
  {state : σ} {budget : Nat} {post : Outcome σ ε α → Nat → Prop}

/-- A step can be carried out from a state on a budget, and what it leaves satisfies `post`. -/
def Affordable (price : P × σ → Nat) (pays : (call : P × σ) → Outcome σ ε (R call.1) → Nat → Prop)
    (step : Routine σ ε R α) (state : σ) (budget : Nat) (post : Outcome σ ε α → Nat → Prop) :
    Prop :=
  (step state).Affordable price pays budget post

theorem affordable_pure {answer : α} :
    Affordable price pays (Pure.pure answer : Routine σ ε R α) state budget post ↔
      post (.ok answer, state) budget :=
  Iff.rfl

theorem affordable_fail {problem : ε} :
    Affordable price pays (fail problem : Routine σ ε R α) state budget post ↔
      post (.error problem, state) budget :=
  Iff.rfl

theorem affordable_gets {read : σ → α} :
    Affordable price pays (gets read : Routine σ ε R α) state budget post ↔
      post (.ok (read state), state) budget :=
  Iff.rfl

theorem affordable_step {advance : σ → Outcome σ ε α} :
    Affordable price pays (step advance : Routine σ ε R α) state budget post ↔
      post (advance state) budget :=
  Iff.rfl

theorem affordable_modify {change : σ → σ} {post : Outcome σ ε Unit → Nat → Prop} :
    Affordable price pays (modify change : Routine σ ε R Unit) state budget post ↔
      post (.ok (), change state) budget :=
  Iff.rfl

theorem affordable_bind {first : Routine σ ε R α} {next : α → Routine σ ε R β}
    {post : Outcome σ ε β → Nat → Prop} :
    Affordable price pays (first >>= next) state budget post ↔
      Affordable price pays first state budget fun
        | (.ok answer, state), left => Affordable price pays (next answer) state left post
        | (.error problem, state), left => post (.error problem, state) left := by
  refine CallTree.affordable_bind.trans (iff_of_eq (congrArg _ ?_))
  funext reached left
  obtain ⟨outcome, state⟩ := reached
  cases outcome <;> rfl

theorem affordable_attempt {inner : Routine σ ε R α}
    {post : Outcome σ ε (Except ε α) → Nat → Prop} :
    Affordable price pays (attempt inner) state budget post ↔
      Affordable price pays inner state budget fun (outcome, state) left =>
        post (.ok outcome, state) left :=
  CallTree.affordable_bind

theorem affordable_call {p : P} {post : Outcome σ ε (R p) → Nat → Prop} :
    Affordable price pays (call p : Routine σ ε R (R p)) state budget post ↔
      price (p, state) + 1 ≤ budget ∧ ∀ answer left, pays (p, state) answer left →
        post answer (budget - (price (p, state) + 1) + left) :=
  Iff.rfl

theorem affordable_jump {p : P} {post : Outcome σ ε (R p) → Nat → Prop} :
    Affordable price pays (jump p : Routine σ ε R (R p)) state budget post ↔
      price (p, state) + 1 ≤ budget ∧ ∀ answer left, pays (p, state) answer left →
        post answer (budget - (price (p, state) + 1) + left) :=
  Iff.rfl

/-- If every body can afford what it does, a procedure that is given its price has its outcome. -/
theorem exists_run_eq_some {body : (p : P) → Routine σ ε R (R p)}
    (hbody : ∀ p state, Affordable price pays (body p) state (price (p, state))
      fun outcome left => 1 ≤ left ∧ pays (p, state) outcome (left - 1))
    (p : P) (state : σ) {rounds : Nat} (hrounds : price (p, state) < rounds) :
    ∃ outcome, run body rounds p state = some outcome ∧
      ∃ left, pays (p, state) outcome left :=
  have hbodies : ∀ call : P × σ, (body call.1 call.2).Affordable price pays (price call)
      fun outcome left => 1 ≤ left ∧ pays call outcome (left - 1) :=
    fun call => hbody call.1 call.2
  CallTree.exists_run_eq_some hbodies (p, state) hrounds

end Budget

end Routine

end Lox
