/-
# What a computation ends with, and what it does on the way

The recursive reading of call trees bounds how deep calls nest. Here the bound is forgotten:
`Ends` relates a computation to the answer it has at some depth, `Answers` a procedure to the answer
of its calls, and `Reaches` a call to those that are made while it is carried out, whether it ever
ends or not.

A computation that only makes calls with answers ends (`exists_ends_of_makes`), and calls that only
make smaller ones have answers (`exists_answers_of_makes`).

`Ensures` is the logic to reason with. Each call has to satisfy a condition, each answer of a call
can be relied on to satisfy a specification, and in return the answer of the whole computation
satisfies a claim. If all bodies keep to this, then every answer meets its specification
(`Answers.of_ensures`). `Watched` is the same for conditions that hold only of the calls really
made; these are satisfied by every call that is reached (`Reaches.of_watched`).
-/

import Lox.CallTree.Agreement
import Lox.CallTree.Routine
import Mathlib.Logic.Relation

namespace Lox.CallTree

variable {Q : Type} {A : Q → Type} {α β : Type} {body : (q : Q) → CallTree A (A q)}

/-- A computation ends with an answer, however deep its calls nest. -/
def Ends (body : (q : Q) → CallTree A (A q)) (tree : CallTree A α) (answer : α) : Prop :=
  ∃ depth, tree.eval (solve body depth) = some answer

/-- A call of a procedure ends with an answer. -/
def Answers (body : (q : Q) → CallTree A (A q)) (q : Q) (answer : A q) : Prop :=
  Ends body (body q) answer

theorem answers_iff {q : Q} {answer : A q} :
    Answers body q answer ↔ ∃ depth, solve body depth q = some answer := by
  constructor
  · rintro ⟨depth, h⟩
    exact ⟨depth + 1, h⟩
  · rintro ⟨depth | depth, h⟩
    · cases h
    · exact ⟨depth, h⟩

/-- The machine reaches exactly the answers that a computation ends with. -/
theorem exists_run_iff_ends {tree : CallTree A α} {answer : α} :
    (∃ rounds, run body rounds tree .nil = some answer) ↔ Ends body tree answer :=
  exists_run_eq_some_iff

theorem ends_done {answer found : α} : Ends body (.done answer) found ↔ answer = found := by
  constructor
  · rintro ⟨depth, h⟩
    exact Option.some.inj h
  · rintro rfl
    exact ⟨0, rfl⟩

theorem ends_call {q : Q} {next : A q → CallTree A α} {answer : α} :
    Ends body (.call q next) answer ↔
      ∃ given, Answers body q given ∧ Ends body (next given) answer := by
  constructor
  · rintro ⟨depth, h⟩
    obtain ⟨given, hgiven, hnext⟩ := Option.bind_eq_some_iff.1 h
    exact ⟨given, answers_iff.2 ⟨depth, hgiven⟩, depth, hnext⟩
  · rintro ⟨given, hgiven, depth', hnext⟩
    obtain ⟨depth, hgiven⟩ := answers_iff.1 hgiven
    exact ⟨depth + depth', Option.bind_eq_some_iff.2
      ⟨given, solve_mono (by omega) hgiven, eval_solve_mono (by omega) hnext⟩⟩

theorem ends_jump {q : Q} {answers : A q = α} {answer : α} :
    Ends body (.jump q answers) answer ↔
      ∃ given, Answers body q given ∧ cast answers given = answer := by
  constructor
  · rintro ⟨depth, h⟩
    obtain ⟨given, hgiven, hcast⟩ := Option.map_eq_some_iff.1 h
    exact ⟨given, answers_iff.2 ⟨depth, hgiven⟩, hcast⟩
  · rintro ⟨given, hgiven, hcast⟩
    obtain ⟨depth, hgiven⟩ := answers_iff.1 hgiven
    exact ⟨depth, Option.map_eq_some_iff.2 ⟨given, hgiven, hcast⟩⟩

theorem ends_bind {tree : CallTree A α} {next : α → CallTree A β} {answer : β} :
    Ends body (tree.bind next) answer ↔
      ∃ given, Ends body tree given ∧ Ends body (next given) answer := by
  induction tree with
  | done found => simp [bind, ends_done]
  | call q rest ih =>
    simp only [bind, ends_call, ih]
    constructor
    · rintro ⟨first, hfirst, given, hgiven, hanswer⟩
      exact ⟨given, ⟨first, hfirst, hgiven⟩, hanswer⟩
    · rintro ⟨given, ⟨first, hfirst, hgiven⟩, hanswer⟩
      exact ⟨first, hfirst, given, hgiven, hanswer⟩
  | jump q answers =>
    simp only [bind, ends_call, ends_jump]
    constructor
    · rintro ⟨given, hgiven, hanswer⟩
      exact ⟨_, ⟨given, hgiven, rfl⟩, hanswer⟩
    · rintro ⟨_, ⟨given, hgiven, rfl⟩, hanswer⟩
      exact ⟨given, hgiven, hanswer⟩

/-- A computation ends with at most one answer. -/
theorem Ends.unique {tree : CallTree A α} {first second : α} (hfirst : Ends body tree first)
    (hsecond : Ends body tree second) : first = second := by
  obtain ⟨depth, hfirst⟩ := hfirst
  obtain ⟨depth', hsecond⟩ := hsecond
  have h := eval_solve_mono (Nat.le_add_right depth depth') hfirst
  rw [eval_solve_mono (Nat.le_add_left depth' depth) hsecond] at h
  exact (Option.some.inj h).symm

/-! ## Calls made on the way -/

/-- A computation comes to call a procedure, once the calls before have had their answers. -/
inductive Makes (body : (q : Q) → CallTree A (A q)) : CallTree A α → Q → Prop where
  | call {q : Q} {next : A q → CallTree A α} : Makes body (.call q next) q
  | jump {q : Q} {answers : A q = α} : Makes body (.jump q answers) q
  | later {q made : Q} {next : A q → CallTree A α} {answer : A q} (hgiven : Answers body q answer)
      (hmakes : Makes body (next answer) made) : Makes body (.call q next) made

/-- Carrying out one call comes to making another, directly or through calls in between. -/
def Reaches (body : (q : Q) → CallTree A (A q)) : Q → Q → Prop :=
  Relation.ReflTransGen fun q made => Makes body (body q) made

/-- If every call that a computation makes has an answer, it has one itself. -/
theorem exists_ends_of_makes {tree : CallTree A α}
    (h : ∀ made, Makes body tree made → ∃ given, Answers body made given) :
    ∃ answer, Ends body tree answer := by
  induction tree with
  | done answer => exact ⟨answer, ends_done.2 rfl⟩
  | call q next ih =>
    obtain ⟨given, hgiven⟩ := h q .call
    obtain ⟨answer, hends⟩ := ih given fun made hmade => h made (.later hgiven hmade)
    exact ⟨answer, ends_call.2 ⟨given, hgiven, hends⟩⟩
  | jump q answers =>
    obtain ⟨given, hgiven⟩ := h q .jump
    exact ⟨_, ends_jump.2 ⟨given, hgiven, rfl⟩⟩

/-- Calls that only make smaller ones have answers. The order need not be one on all calls: `pre`
holds of those that come to be made. -/
theorem exists_answers_of_makes {lt : Q → Q → Prop} (hlt : WellFounded lt) {pre : Q → Prop}
    (h : ∀ q made, pre q → Makes body (body q) made → pre made ∧ lt made q) {q : Q} (hpre : pre q) :
    ∃ answer, Answers body q answer := by
  induction q using hlt.induction with
  | h q ih =>
    refine exists_ends_of_makes fun made hmade => ?_
    obtain ⟨hpre', hsmaller⟩ := h q made hpre hmade
    exact ih made hsmaller hpre'

private theorem solve_of_makes {tree : CallTree A α} {answer : α} {depth : Nat}
    (heval : tree.eval (solve body depth) = some answer) {made : Q} (h : Makes body tree made) :
    ∃ given, solve body depth made = some given := by
  induction h with
  | call =>
    obtain ⟨given, hgiven, -⟩ := Option.bind_eq_some_iff.1 heval
    exact ⟨given, hgiven⟩
  | jump =>
    obtain ⟨given, hgiven, -⟩ := Option.map_eq_some_iff.1 heval
    exact ⟨given, hgiven⟩
  | later hgiven hmakes ih =>
    obtain ⟨given, hsolve, hnext⟩ := Option.bind_eq_some_iff.1 heval
    obtain rfl := Ends.unique (answers_iff.2 ⟨depth, hsolve⟩) hgiven
    exact ih hnext

/-- What holds of the answer of a call whenever it holds of those of the calls made on the way holds
of all answers. -/
theorem Answers.induction {spec : (q : Q) → A q → Prop}
    (h : ∀ q answer, Answers body q answer →
      (∀ made given, Makes body (body q) made → Answers body made given → spec made given) →
      spec q answer)
    {q : Q} {answer : A q} (hanswers : Answers body q answer) : spec q answer := by
  obtain ⟨depth, hsolve⟩ := answers_iff.1 hanswers
  induction depth generalizing q with
  | zero => cases hsolve
  | succ depth ih =>
    refine h q answer hanswers fun made given hmade hgiven => ih hgiven ?_
    obtain ⟨given', hsolve'⟩ := solve_of_makes hsolve hmade
    obtain rfl := Ends.unique (answers_iff.2 ⟨depth, hsolve'⟩) hgiven
    exact hsolve'

/-! ## Conditions and specifications -/

section Ensures

variable {pre : Q → Prop} {spec : (q : Q) → A q → Prop}

/-- All calls of a computation satisfy `pre` and its answer satisfies `post`, provided that the
answers of the calls satisfy their `spec`. -/
def Ensures (pre : Q → Prop) (spec : (q : Q) → A q → Prop) :
    CallTree A α → (post : α → Prop) → Prop
  | .done answer, post => post answer
  | .call q next, post => pre q ∧ ∀ answer, spec q answer → (next answer).Ensures pre spec post
  | .jump q answers, post => pre q ∧ ∀ answer, spec q answer → post (cast answers answer)

theorem ensures_bind {tree : CallTree A α} {next : α → CallTree A β} {post : β → Prop} :
    (tree.bind next).Ensures pre spec post ↔
      tree.Ensures pre spec fun answer => (next answer).Ensures pre spec post := by
  induction tree with
  | done answer => rfl
  | call q rest ih => simp only [bind, Ensures, ih]
  | jump q answers => rfl

theorem Ensures.mono {tree : CallTree A α} {post post' : α → Prop}
    (h : tree.Ensures pre spec post) (himp : ∀ answer, post answer → post' answer) :
    tree.Ensures pre spec post' := by
  induction tree with
  | done answer => exact himp answer h
  | call q next ih => exact ⟨h.1, fun answer hspec => ih answer (h.2 answer hspec)⟩
  | jump q answers => exact ⟨h.1, fun answer hspec => himp _ (h.2 answer hspec)⟩

theorem Ensures.weaken {pre' : Q → Prop} {tree : CallTree A α} {post : α → Prop}
    (h : tree.Ensures pre spec post) (himp : ∀ q, pre q → pre' q) :
    tree.Ensures pre' spec post := by
  induction tree with
  | done answer => exact h
  | call q next ih => exact ⟨himp q h.1, fun answer hspec => ih answer (h.2 answer hspec)⟩
  | jump q answers => exact ⟨himp q h.1, h.2⟩

theorem Ensures.strengthen {spec' : (q : Q) → A q → Prop} {tree : CallTree A α} {post : α → Prop}
    (h : tree.Ensures pre spec post) (himp : ∀ q answer, spec' q answer → spec q answer) :
    tree.Ensures pre spec' post := by
  induction tree with
  | done answer => exact h
  | call q next ih =>
    exact ⟨h.1, fun answer hspec => ih answer (h.2 answer (himp q answer hspec))⟩
  | jump q answers => exact ⟨h.1, fun answer hspec => h.2 answer (himp q answer hspec)⟩

/-- A computation ends, with other bodies, in what the answers of its calls there lead to. -/
theorem ensures_ends {body' : (q : Q) → CallTree A (A q)} (tree : CallTree A α)
    (hspec : ∀ q answer, spec q answer → Answers body' q answer) :
    tree.Ensures (fun _ => True) spec (Ends body' tree) := by
  induction tree with
  | done answer => exact ends_done.2 rfl
  | call q next ih =>
    refine ⟨trivial, fun given hgiven => (ih given).mono fun answer hends => ?_⟩
    exact ends_call.2 ⟨given, hspec q given hgiven, hends⟩
  | jump q answers =>
    exact ⟨trivial, fun given hgiven => ends_jump.2 ⟨given, hspec q given hgiven, rfl⟩⟩

private theorem eval_of_ensures {reply : (q : Q) → Option (A q)}
    (hreply : ∀ q answer, pre q → reply q = some answer → spec q answer)
    {tree : CallTree A α} {post : α → Prop} {answer : α} (h : tree.Ensures pre spec post)
    (heval : tree.eval reply = some answer) : post answer := by
  induction tree with
  | done found =>
    cases heval
    exact h
  | call q next ih =>
    obtain ⟨given, hgiven, hnext⟩ := Option.bind_eq_some_iff.1 heval
    exact ih given (h.2 given (hreply q given h.1 hgiven)) hnext
  | jump q answers =>
    obtain ⟨given, hgiven, rfl⟩ := Option.map_eq_some_iff.1 heval
    exact h.2 given (hreply q given h.1 hgiven)

variable (hbody : ∀ q, pre q → (body q).Ensures pre spec (spec q))
include hbody

/-- If all bodies keep to their specification, so does every answer of a call that satisfies the
condition. -/
theorem Answers.of_ensures {q : Q} {answer : A q} (hpre : pre q) (h : Answers body q answer) :
    spec q answer := by
  obtain ⟨depth, hsolve⟩ := answers_iff.1 h
  clear h
  induction depth generalizing q with
  | zero => cases hsolve
  | succ depth ih =>
    have heval : (body q).eval (solve body depth) = some answer := hsolve
    refine eval_of_ensures ?_ (hbody q hpre) heval
    exact fun q' answer' hpre' hreply => ih hpre' hreply

/-- If all bodies keep to their specification, a computation ends as claimed. -/
theorem Ends.of_ensures {tree : CallTree A α} {answer : α} {post : α → Prop}
    (htree : tree.Ensures pre spec post) (h : Ends body tree answer) : post answer := by
  obtain ⟨depth, heval⟩ := h
  refine eval_of_ensures (fun q found hpre hsolve => ?_) htree heval
  exact Answers.of_ensures hbody hpre (answers_iff.2 ⟨depth, hsolve⟩)

end Ensures

/-! ## Conditions that depend on what is called -/

section Watched

variable {pre : Q → Prop} {spec : (q : Q) → A q → Prop}

/-- All calls that a computation really makes satisfy `pre` and its answer satisfies `post`,
provided that the answers really given to the calls satisfy their `spec`. -/
def Watched (body : (q : Q) → CallTree A (A q)) (pre : Q → Prop) (spec : (q : Q) → A q → Prop)
    (tree : CallTree A α) (post : α → Prop) : Prop :=
  tree.Ensures (fun made => Makes body tree made → pre made)
    (fun made answer => spec made answer ∧ Answers body made answer) post

private theorem eval_of_watched {reply : (q : Q) → Option (A q)} {tree : CallTree A α}
    {pre' : Q → Prop} {post : α → Prop}
    (hreply : ∀ q answer, pre q → reply q = some answer → spec q answer ∧ Answers body q answer)
    (h : tree.Ensures pre' (fun made answer => spec made answer ∧ Answers body made answer) post)
    (hmakes : ∀ made, Makes body tree made → pre' made → pre made) {answer : α}
    (heval : tree.eval reply = some answer) : post answer := by
  induction tree with
  | done found =>
    cases heval
    exact h
  | call q next ih =>
    obtain ⟨given, hgiven, hnext⟩ := Option.bind_eq_some_iff.1 heval
    have hspec := hreply q given (hmakes q .call h.1) hgiven
    exact ih given (h.2 given hspec) (fun made h => hmakes made (.later hspec.2 h)) hnext
  | jump q answers =>
    obtain ⟨given, hgiven, rfl⟩ := Option.map_eq_some_iff.1 heval
    exact h.2 given (hreply q given (hmakes q .jump h.1) hgiven)

variable (hbody : ∀ q, pre q → Watched body pre spec (body q) (spec q))
include hbody

theorem Answers.of_watched {q : Q} {answer : A q} (hpre : pre q) (h : Answers body q answer) :
    spec q answer := by
  obtain ⟨depth, hsolve⟩ := answers_iff.1 h
  clear h
  induction depth generalizing q with
  | zero => cases hsolve
  | succ depth ih =>
    have heval : (body q).eval (solve body depth) = some answer := hsolve
    refine eval_of_watched ?_ (hbody q hpre) (fun made hmade hpre => hpre hmade) heval
    exact fun q' answer' hpre' hreply => ⟨ih hpre' hreply, answers_iff.2 ⟨depth, hreply⟩⟩

theorem Ends.of_watched {tree : CallTree A α} {answer : α} {post : α → Prop}
    (htree : Watched body pre spec tree post) (h : Ends body tree answer) : post answer := by
  obtain ⟨depth, heval⟩ := h
  refine eval_of_watched ?_ htree (fun made hmade hpre => hpre hmade) heval
  intro q given hpre hreply
  have hgiven := answers_iff.2 ⟨depth, hreply⟩
  exact ⟨Answers.of_watched hbody hpre hgiven, hgiven⟩

private theorem makes_of_watched {pre' : Q → Prop} {tree : CallTree A α} {post : α → Prop}
    (h : tree.Ensures pre' (fun made answer => spec made answer ∧ Answers body made answer) post)
    (hmakes : ∀ made, Makes body tree made → pre' made → pre made) {made : Q}
    (hmade : Makes body tree made) : pre made := by
  induction hmade with
  | call => exact hmakes _ .call h.1
  | jump => exact hmakes _ .jump h.1
  | later hgiven hmade ih =>
    have hspec := Answers.of_watched hbody (hmakes _ .call h.1) hgiven
    exact ih (h.2 _ ⟨hspec, hgiven⟩) fun made h => hmakes made (.later hgiven h)

theorem Makes.of_watched {tree : CallTree A α} {made : Q} {post : α → Prop}
    (htree : Watched body pre spec tree post) (h : Makes body tree made) : pre made :=
  makes_of_watched hbody htree (fun _ hmade hpre => hpre hmade) h

theorem Reaches.of_watched {q made : Q} (hpre : pre q) (h : Reaches body q made) : pre made := by
  induction h with
  | refl => exact hpre
  | tail hreach hmakes ih => exact Makes.of_watched hbody (hbody _ ih) hmakes

end Watched

end Lox.CallTree
