/-
# Computations that call procedures

A procedure body is written as a tree: either it is finished, or it calls a procedure and says how
to go on with each possible answer, or it hands its whole remaining work to another procedure. The
tree says nothing about how calls are carried out, so one body serves two readings. `CallTree.solve`
carries calls out by recursion on a bound for their nesting, which is the reading to reason with.
The machine of `Lox.CallTree.Machine` carries them out one at a time on an explicit stack, which is
the reading to run: nesting then costs memory, never stack.
-/

namespace Lox

/-- A computation of an `α` that may call procedures named by `Q`, of which `q` answers with an
`A q`. -/
inductive CallTree {Q : Type} (A : Q → Type) (α : Type) : Type where
  /-- The computation is finished. -/
  | done (answer : α)
  /-- Call a procedure and go on with its answer. -/
  | call (procedure : Q) (next : A procedure → CallTree A α)
  /-- Let a procedure answer in place of this computation. Nothing of the caller is left to do, so
  a loop that repeats itself this way takes no space for the rounds that are over. -/
  | jump (procedure : Q) (answers : A procedure = α)

namespace CallTree

variable {Q : Type} {A : Q → Type} {α β : Type}

/-- Run one computation and then another that depends on its answer. -/
def bind (tree : CallTree A α) (next : α → CallTree A β) : CallTree A β :=
  match tree with
  | .done answer => next answer
  | .call procedure rest => .call procedure fun answer => (rest answer).bind next
  | .jump procedure answers => .call procedure fun answer => next (cast answers answer)

theorem bind_assoc {γ : Type} (tree : CallTree A α) (next : α → CallTree A β)
    (last : β → CallTree A γ) :
    (tree.bind next).bind last = tree.bind fun answer => (next answer).bind last := by
  induction tree with
  | done answer => rfl
  | call procedure rest ih => simp only [bind, ih]
  | jump procedure answers => rfl

/-- The answer of a computation whose calls get the answers that `reply` gives; `none` as soon as
one call gets none. -/
def eval (reply : (q : Q) → Option (A q)) : CallTree A α → Option α
  | .done answer => some answer
  | .call procedure next => (reply procedure).bind fun answer => (next answer).eval reply
  | .jump procedure answers => (reply procedure).map (cast answers)

/-- The answer of a procedure whose calls nest less than `depth` deep; `none` if they nest deeper
or never end. -/
def solve (body : (q : Q) → CallTree A (A q)) : Nat → (q : Q) → Option (A q)
  | 0, _ => none
  | depth + 1, q => (body q).eval (solve body depth)

end CallTree

end Lox
