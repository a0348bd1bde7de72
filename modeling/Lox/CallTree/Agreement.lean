/-
# The two readings of a procedure agree

Calls can be carried out by recursion on how deep they nest, or one at a time on a stack. Both find
the same answers: a computation has an answer by recursion for some depth exactly if the machine
reaches that answer within some number of rounds (`exists_run_eq_some_iff`). So whatever is shown of
bodies by recursion holds of what is run.
-/

import Lox.CallTree.Machine

namespace Lox.CallTree

variable {Q : Type} {A : Q → Type} {α ω : Type} {body : (q : Q) → CallTree A (A q)}

/-- A computation that has an answer keeps it when more calls get one. -/
theorem eval_mono {reply reply' : (q : Q) → Option (A q)}
    (himp : ∀ q answer, reply q = some answer → reply' q = some answer)
    {tree : CallTree A α} {answer : α} (h : tree.eval reply = some answer) :
    tree.eval reply' = some answer := by
  induction tree with
  | done => exact h
  | call q next ih =>
    obtain ⟨given, hgiven, hnext⟩ := Option.bind_eq_some_iff.1 h
    exact Option.bind_eq_some_iff.2 ⟨given, himp q given hgiven, ih given hnext⟩
  | jump q answers =>
    obtain ⟨given, hgiven, hcast⟩ := Option.map_eq_some_iff.1 h
    exact Option.map_eq_some_iff.2 ⟨given, himp q given hgiven, hcast⟩

/-- An answer that is found at some depth is found at every greater one. -/
theorem solve_mono {depth depth' : Nat} (hle : depth ≤ depth') {q : Q} {answer : A q}
    (h : solve body depth q = some answer) : solve body depth' q = some answer := by
  induction depth generalizing depth' q with
  | zero => simp [solve] at h
  | succ depth ih =>
    obtain ⟨further, rfl⟩ : ∃ further, depth' = further + 1 := ⟨depth' - 1, by omega⟩
    exact eval_mono (fun q answer hq => ih (by omega) hq) h

theorem eval_solve_mono {depth depth' : Nat} (hle : depth ≤ depth') {tree : CallTree A α}
    {answer : α} (h : tree.eval (solve body depth) = some answer) :
    tree.eval (solve body depth') = some answer :=
  eval_mono (fun _ _ hq => solve_mono hle hq) h

/-- If the machine ends with an answer, then the computation it started with has one, which the
machine passes to the pending work on the way. -/
theorem exists_eval_of_run {rounds : Nat} {tree : CallTree A α} {rest : Pending A ω α} {final : ω}
    (h : run body rounds tree rest = some final) :
    ∃ depth answer left, tree.eval (solve body depth) = some answer ∧ left ≤ rounds ∧
      run body left (.done answer) rest = some final := by
  induction rounds using Nat.strongRecOn generalizing α with
  | _ rounds ih =>
    obtain ⟨rounds, rfl⟩ : ∃ before, rounds = before + 1 := by
      cases rounds with
      | zero => simp [run] at h
      | succ before => exact ⟨before, rfl⟩
    cases tree with
    | done answer => exact ⟨0, answer, rounds + 1, rfl, Nat.le_refl _, h⟩
    | call q next =>
      obtain ⟨depth, given, left, heval, hleft, hrun⟩ :=
        ih rounds (by omega) (by simpa [run] using h)
      obtain ⟨left, rfl⟩ : ∃ before, left = before + 1 := by
        cases left with
        | zero => simp [run] at hrun
        | succ left => exact ⟨left, rfl⟩
      obtain ⟨depth', answer, left', heval', hleft', hrun'⟩ :=
        ih left (by omega) (by simpa [run] using hrun)
      refine ⟨depth + 1 + depth', answer, left', ?_, by omega, hrun'⟩
      have hgiven : solve body (depth + 1) q = some given := heval
      exact Option.bind_eq_some_iff.2
        ⟨given, solve_mono (by omega) hgiven, eval_solve_mono (by omega) heval'⟩
    | jump q answers =>
      cases answers
      obtain ⟨depth, given, left, heval, hleft, hrun⟩ :=
        ih rounds (by omega) (by simpa [run] using h)
      exact ⟨depth + 1, given, left, Option.map_eq_some_iff.2 ⟨given, heval, rfl⟩, by omega, hrun⟩

/-- If a computation has an answer, then the machine passes it to the pending work. -/
theorem exists_run_of_eval {depth : Nat} {tree : CallTree A α} {answer : α}
    (h : tree.eval (solve body depth) = some answer) :
    ∃ rounds, ∀ {ω : Type} (rest : Pending A ω α) (left : Nat) (final : ω),
      run body left (.done answer) rest = some final →
        run body (rounds + left) tree rest = some final := by
  induction depth generalizing α with
  | zero =>
    cases tree with
    | done found =>
      cases h
      exact ⟨0, fun rest left final hrun => by simpa using hrun⟩
    | call q next => cases h
    | jump q answers => cases h
  | succ depth ihd =>
    induction tree with
    | done found =>
      cases h
      exact ⟨0, fun rest left final hrun => by simpa using hrun⟩
    | call q next ih =>
      obtain ⟨given, hgiven, hnext⟩ := Option.bind_eq_some_iff.1 h
      obtain ⟨inner, hinner⟩ := ihd hgiven
      obtain ⟨outer, houter⟩ := ih given hnext
      refine ⟨inner + outer + 2, fun rest left final hrun => ?_⟩
      rw [show inner + outer + 2 + left = (inner + (outer + left + 1)) + 1 by omega]
      exact hinner (.push next rest) (outer + left + 1) final (houter rest left final hrun)
    | jump q answers =>
      cases answers
      obtain ⟨given, hgiven, rfl⟩ := Option.map_eq_some_iff.1 h
      obtain ⟨inner, hinner⟩ := ihd hgiven
      refine ⟨inner + 1, fun rest left final hrun => ?_⟩
      rw [show inner + 1 + left = (inner + left) + 1 by omega]
      exact hinner rest left final hrun

/-- A computation has an answer by recursion exactly if the machine reaches it. -/
theorem exists_run_eq_some_iff {tree : CallTree A α} {answer : α} :
    (∃ rounds, run body rounds tree .nil = some answer) ↔
      ∃ depth, tree.eval (solve body depth) = some answer := by
  constructor
  · rintro ⟨rounds, h⟩
    obtain ⟨depth, found, left, heval, -, hrun⟩ := exists_eval_of_run h
    obtain ⟨left, rfl⟩ : ∃ before, left = before + 1 := by
      cases left with
      | zero => simp [run] at hrun
      | succ left => exact ⟨left, rfl⟩
    cases hrun
    exact ⟨depth, heval⟩
  · rintro ⟨depth, h⟩
    obtain ⟨rounds, hrun⟩ := exists_run_of_eval h
    exact ⟨rounds + 1, hrun .nil 1 answer rfl⟩

end Lox.CallTree
