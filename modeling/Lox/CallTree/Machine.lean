/-
# Carrying out calls on an explicit stack

`CallTree.run` keeps the work that waits for an answer in a list of its own. Each round does one
thing: enter the procedure that is called, or give an answer to the work that waits for it. The
number of rounds is bounded by an argument, so the machine is total; whoever runs a program passes a
bound that no run can reach, and whoever knows how long a procedure takes can pass that.

`Affordable` is how one knows: a procedure is given a budget, pays one unit for each round, and
hands back what is left. If every body can afford what it does on the price of its procedure, the
machine answers within that many rounds (`exists_run_eq_some`).
-/

import Lox.CallTree.Basic

namespace Lox.CallTree

variable {Q : Type} {A : Q → Type} {α ω : Type}

/-- Work that waits for an `α` and, once it has that, will answer with an `ω`. -/
inductive Pending (A : Q → Type) (ω : Type) : Type → Type 1 where
  /-- Nothing is left to do: the value waited for is the final answer. -/
  | nil : Pending A ω ω
  /-- First go on with `next`, then with the work that waits for its answer. -/
  | push {α β : Type} (next : α → CallTree A β) (rest : Pending A ω β) : Pending A ω α

/-- Carry out a computation and then the pending work, in at most `rounds` rounds. -/
def run (body : (q : Q) → CallTree A (A q)) :
    {α : Type} → (rounds : Nat) → CallTree A α → Pending A ω α → Option ω
  | _, 0, _, _ => none
  | _, _ + 1, .done answer, .nil => some answer
  | _, rounds + 1, .done answer, .push next rest => run body rounds (next answer) rest
  | _, rounds + 1, .call procedure next, rest => run body rounds (body procedure) (.push next rest)
  | _, rounds + 1, .jump procedure answers, rest =>
    run body rounds (body procedure) (cast (congrArg (Pending A ω) answers.symm) rest)

/-- More rounds do not change an answer. -/
theorem run_succ {body : (q : Q) → CallTree A (A q)} {rounds : Nat} {tree : CallTree A α}
    {rest : Pending A ω α} {final : ω} (h : run body rounds tree rest = some final) :
    run body (rounds + 1) tree rest = some final := by
  induction rounds generalizing α with
  | zero => simp [run] at h
  | succ rounds ih =>
    cases tree with
    | done answer =>
      cases rest with
      | nil => simpa [run] using h
      | push next rest => exact ih (by simpa [run] using h)
    | call q next => exact ih (by simpa [run] using h)
    | jump q answers => exact ih (by simpa [run] using h)

/-! ## How many rounds a computation takes -/

section Budget

variable {body : (q : Q) → CallTree A (A q)} {price : Q → Nat} {pays : (q : Q) → A q → Nat → Prop}

/-- A computation can be carried out on a budget, and its answer and what it leaves of the budget
satisfy `post`. A call of `q` costs one round and `price q`; it hands back `left` units with an
answer only if `pays q answer left`. -/
def Affordable (price : Q → Nat) (pays : (q : Q) → A q → Nat → Prop) :
    CallTree A α → (budget : Nat) → (post : α → Nat → Prop) → Prop
  | .done answer, budget, post => post answer budget
  | .call q next, budget, post =>
    price q + 1 ≤ budget ∧ ∀ answer left, pays q answer left →
      (next answer).Affordable price pays (budget - (price q + 1) + left) post
  | .jump q answers, budget, post =>
    price q + 1 ≤ budget ∧ ∀ answer left, pays q answer left →
      post (cast answers answer) (budget - (price q + 1) + left)

theorem affordable_bind {β : Type} {tree : CallTree A α} {next : α → CallTree A β} {budget : Nat}
    {post : β → Nat → Prop} :
    (tree.bind next).Affordable price pays budget post ↔
      tree.Affordable price pays budget fun answer left =>
        (next answer).Affordable price pays left post := by
  induction tree generalizing budget with
  | done answer => rfl
  | call q rest ih => simp only [bind, Affordable, ih]
  | jump q answers => simp only [bind, Affordable]

theorem Affordable.mono {tree : CallTree A α} {budget : Nat} {post post' : α → Nat → Prop}
    (h : tree.Affordable price pays budget post)
    (himp : ∀ answer left, post answer left → post' answer left) :
    tree.Affordable price pays budget post' := by
  induction tree generalizing budget with
  | done answer => exact himp _ _ h
  | call q rest ih => exact ⟨h.1, fun answer left hpays => ih answer (h.2 answer left hpays)⟩
  | jump q answers => exact ⟨h.1, fun answer left hpays => himp _ _ (h.2 answer left hpays)⟩

/-- A larger budget leaves more. -/
theorem Affordable.add {tree : CallTree A α} {budget : Nat} {post : α → Nat → Prop}
    (h : tree.Affordable price pays budget post) (extra : Nat) :
    tree.Affordable price pays (budget + extra) fun answer left =>
      ∃ rest, left = rest + extra ∧ post answer rest := by
  induction tree generalizing budget with
  | done answer => exact ⟨budget, rfl, h⟩
  | call q rest ih =>
    refine ⟨Nat.le_trans h.1 (Nat.le_add_right _ _), fun answer left hpays => ?_⟩
    have step := ih answer (h.2 answer left hpays)
    have enough := h.1
    rwa [show budget + extra - (price q + 1) + left = budget - (price q + 1) + left + extra by
      omega]
  | jump q answers =>
    refine ⟨Nat.le_trans h.1 (Nat.le_add_right _ _), fun answer left hpays => ?_⟩
    have enough := h.1
    exact ⟨budget - (price q + 1) + left, by omega, h.2 answer left hpays⟩

/-- If every body affords its work on the price of its procedure, with a unit to spare for handing
over the answer, then the machine carries out a computation and the pending work whenever the
pending work can be carried out on what the computation leaves. -/
theorem exists_run_eq_some_of_pending
    (hbody : ∀ q, (body q).Affordable price pays (price q) fun answer left =>
      1 ≤ left ∧ pays q answer (left - 1))
    {good : ω → Prop} (budget : Nat) :
    ∀ {α : Type} (tree : CallTree A α) (rest : Pending A ω α) (post : α → Nat → Prop),
      tree.Affordable price pays budget post →
      (∀ answer left, left ≤ budget → post answer left →
        ∃ final, run body (left + 1) (.done answer) rest = some final ∧ good final) →
      ∃ final, run body (budget + 1) tree rest = some final ∧ good final := by
  induction budget using Nat.strongRecOn with
  | _ budget ih =>
    intro α tree rest post hafford hrest
    cases tree with
    | done answer => exact hrest answer budget (Nat.le_refl _) hafford
    | call q next =>
      obtain ⟨henough, hnext⟩ := hafford
      obtain ⟨spare, rfl⟩ : ∃ spare, budget = price q + spare + 1 :=
        ⟨budget - (price q + 1), by omega⟩
      refine ih (price q + spare) (by omega) (body q) (.push next rest) _
        ((hbody q).add spare) ?_
      rintro answer left hleft ⟨kept, rfl, hkept, hpays⟩
      have hgo := hnext answer (kept - 1) hpays
      rw [show price q + spare + 1 - (price q + 1) + (kept - 1) = kept + spare - 1 by omega] at hgo
      obtain ⟨final, hfinal, hgood⟩ := ih (kept + spare - 1) (by omega) (next answer) rest post hgo
        fun answer' left' hleft' hpost => hrest answer' left' (by omega) hpost
      rw [show kept + spare - 1 + 1 = kept + spare by omega] at hfinal
      exact ⟨final, hfinal, hgood⟩
    | jump q answers =>
      cases answers
      obtain ⟨henough, hnext⟩ := hafford
      obtain ⟨spare, rfl⟩ : ∃ spare, budget = price q + spare + 1 :=
        ⟨budget - (price q + 1), by omega⟩
      refine ih (price q + spare) (by omega) (body q) rest _ ((hbody q).add spare) ?_
      rintro answer left hleft ⟨kept, rfl, hkept, hpays⟩
      obtain ⟨final, hfinal, hgood⟩ :=
        hrest answer (spare + (kept - 1)) (by omega) (by
          have hpost := hnext answer (kept - 1) hpays
          rwa [show price q + spare + 1 - (price q + 1) + (kept - 1) = spare + (kept - 1) by
            omega] at hpost)
      rw [show spare + (kept - 1) + 1 = kept + spare by omega] at hfinal
      exact ⟨final, run_succ hfinal, hgood⟩

/-- Under the same condition, a procedure that is given its price has its answer. -/
theorem exists_run_eq_some
    (hbody : ∀ q, (body q).Affordable price pays (price q) fun answer left =>
      1 ≤ left ∧ pays q answer (left - 1))
    (q : Q) {rounds : Nat} (hrounds : price q < rounds) :
    ∃ answer, run body rounds (body q) .nil = some answer ∧ ∃ left, pays q answer left := by
  obtain ⟨extra, rfl⟩ : ∃ extra, rounds = price q + extra + 1 := ⟨rounds - (price q + 1), by omega⟩
  refine exists_run_eq_some_of_pending hbody (price q + extra) (body q) .nil _
    ((hbody q).add extra) ?_
  rintro answer left - ⟨kept, -, -, hpays⟩
  exact ⟨answer, rfl, kept - 1, hpays⟩

end Budget

end Lox.CallTree
