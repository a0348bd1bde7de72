/-
# The order in which calls are made

`Comes` relates a computation to every call that is made while it is carried out, directly or within
other calls. Any two of them stand in an order: one is made within the other, or one is over before
the other is made.

Where no step goes back behind the state it starts from, in some order of states, time and state
agree: a call that is over before another is made ends in a state that the other one starts from or
that lies before it (`Comes.ordered`). `Rises` says so of a step, and it is shown piece by piece.
-/

import Lox.Proofs.CallTree.Steps
import Mathlib.Order.Defs.Unbundled

namespace Lox

namespace CallTree

variable {Q : Type} {A : Q → Type} {α β : Type} {body : (q : Q) → CallTree A (A q)}

/-- A computation comes to a call, which it makes itself or within another call. -/
def Comes (body : (q : Q) → CallTree A (A q)) (tree : CallTree A α) (q : Q) : Prop :=
  ∃ made, Makes body tree made ∧ Reaches body made q

theorem Makes.comes {tree : CallTree A α} {q : Q} (h : Makes body tree q) : Comes body tree q :=
  ⟨q, h, .refl⟩

/-- What is made within a call that a computation comes to is come to as well. -/
theorem Comes.tail {tree : CallTree A α} {q made : Q} (h : Comes body tree q)
    (hmakes : Makes body (body q) made) : Comes body tree made := by
  obtain ⟨first, hfirst, hreaches⟩ := h
  exact ⟨first, hfirst, hreaches.tail hmakes⟩

/-- If whatever a computation comes to keeps to its specification, the computation ends as
claimed. -/
theorem Ends.of_comes {tree : CallTree A α} {spec : (q : Q) → A q → Prop} {post : α → Prop}
    (hbody : ∀ q, Comes body tree q → (body q).Ensures (fun _ => True)
      (fun made answer => spec made answer ∧ Answers body made answer) (spec q))
    (htree : tree.Ensures (fun _ => True)
      (fun made answer => spec made answer ∧ Answers body made answer) post)
    {answer : α} (h : Ends body tree answer) : post answer := by
  have hbodies : ∀ q, Comes body tree q → Watched body (Comes body tree) spec (body q) (spec q) :=
    fun q hq => (hbody q hq).weaken fun made _ hmakes => hq.tail hmakes
  have hwatched : Watched body (Comes body tree) spec tree post :=
    htree.weaken fun made _ hmakes => hmakes.comes
  exact Ends.of_watched hbodies hwatched h

/-- If all bodies keep to their specification, every call that a computation comes to satisfies the
condition. -/
theorem Comes.of_ensures {tree : CallTree A α} {pre : Q → Prop} {spec : (q : Q) → A q → Prop}
    {post : α → Prop} (hbody : ∀ q, pre q → (body q).Ensures pre spec (spec q))
    (htree : tree.Ensures pre spec post) {q : Q} (h : Comes body tree q) : pre q := by
  have hwatched : ∀ {β : Type} {tree : CallTree A β} {post : β → Prop},
      tree.Ensures pre spec post → Watched body pre spec tree post := by
    intro β tree post h
    unfold Watched
    refine Ensures.strengthen (Ensures.weaken h ?_) ?_
    · exact fun _ hpre _ => hpre
    · exact fun _ _ hspec => hspec.1
  have hbodies : ∀ q, pre q → Watched body pre spec (body q) (spec q) :=
    fun q hpre => hwatched (hbody q hpre)
  obtain ⟨made, hmakes, hreaches⟩ := h
  exact Reaches.of_watched hbodies (Makes.of_watched hbodies (hwatched htree) hmakes) hreaches

theorem not_makes_done {answer : α} {q : Q} : ¬ Makes body (.done answer) q := by
  intro h
  cases h

theorem makes_bind {tree : CallTree A α} {next : α → CallTree A β} {q : Q} :
    Makes body (tree.bind next) q ↔
      Makes body tree q ∨ ∃ answer, Ends body tree answer ∧ Makes body (next answer) q := by
  constructor
  · intro h
    induction tree with
    | done answer => exact .inr ⟨answer, ends_done.2 rfl, h⟩
    | call p rest ih =>
      cases h with
      | call => exact .inl .call
      | later hgiven hmakes =>
        rcases ih _ hmakes with h | ⟨answer, hends, h⟩
        · exact .inl (.later hgiven h)
        · exact .inr ⟨answer, ends_call.2 ⟨_, hgiven, hends⟩, h⟩
    | jump p answers =>
      cases h with
      | call => exact .inl .jump
      | later hgiven hmakes => exact .inr ⟨_, ends_jump.2 ⟨_, hgiven, rfl⟩, hmakes⟩
  · rintro (h | ⟨answer, hends, h⟩)
    · induction h with
      | call => exact .call
      | jump => exact .call
      | later hgiven hmakes ih => exact .later hgiven ih
    · induction tree with
      | done found => exact (ends_done.1 hends) ▸ h
      | call p rest ih =>
        obtain ⟨given, hgiven, hends⟩ := ends_call.1 hends
        exact .later hgiven (ih given hends)
      | jump p answers =>
        obtain ⟨given, hgiven, rfl⟩ := ends_jump.1 hends
        exact .later hgiven h

end CallTree

namespace Routine

variable {P σ ε α β : Type} {R : P → Type} {state : σ}

/-! ## The calls that a step makes -/

section Makes

variable {body : (p : P) → Routine σ ε R (R p)} {made : P × σ}

/-- A step taken from a state comes to call a procedure. -/
def Makes (body : (p : P) → Routine σ ε R (R p)) (step : Routine σ ε R α) (state : σ)
    (made : P × σ) : Prop :=
  CallTree.Makes (fun call : P × σ => body call.1 call.2) (step state) made

theorem not_makes_pure {answer : α} : ¬ Makes body (Pure.pure answer) state made :=
  CallTree.not_makes_done

theorem not_makes_fail {problem : ε} : ¬ Makes body (fail problem : Routine σ ε R α) state made :=
  CallTree.not_makes_done

theorem not_makes_ofExcept {result : Except ε α} : ¬ Makes body (ofExcept result) state made :=
  CallTree.not_makes_done

theorem not_makes_gets {read : σ → α} : ¬ Makes body (gets read) state made :=
  CallTree.not_makes_done

theorem not_makes_step {advance : σ → Outcome σ ε α} : ¬ Makes body (step advance) state made :=
  CallTree.not_makes_done

theorem not_makes_modify {change : σ → σ} : ¬ Makes body (modify change) state made :=
  CallTree.not_makes_done

theorem makes_call {p : P} : Makes body (call p) state made ↔ made = (p, state) := by
  constructor
  · rintro (h | h | ⟨-, h⟩)
    · rfl
    · cases h
  · rintro rfl
    exact .call

theorem makes_jump {p : P} : Makes body (jump p) state made ↔ made = (p, state) := by
  constructor
  · rintro (h | h)
    rfl
  · rintro rfl
    exact .jump

theorem makes_bind {first : Routine σ ε R α} {next : α → Routine σ ε R β} :
    Makes body (first >>= next) state made ↔
      Makes body first state made ∨
        ∃ answer reached, Ends body first state (.ok answer, reached) ∧
          Makes body (next answer) reached made := by
  refine CallTree.makes_bind.trans (or_congr_right ?_)
  constructor
  · rintro ⟨⟨problem | answer, reached⟩, hends, hmakes⟩
    · exact absurd hmakes CallTree.not_makes_done
    · exact ⟨answer, reached, hends, hmakes⟩
  · rintro ⟨answer, reached, hends, hmakes⟩
    exact ⟨_, hends, hmakes⟩

theorem makes_within {τ : Type} {save : σ → τ} {enter : σ → σ} {restore : τ → σ → σ}
    {inner : Routine σ ε R α} :
    Makes body (within save enter restore inner) state made ↔
      Makes body inner (enter state) made := by
  refine CallTree.makes_bind.trans ⟨?_, .inl⟩
  rintro (h | ⟨_, -, h⟩)
  · exact h
  · exact absurd h CallTree.not_makes_done

end Makes

/-! ## States before and after -/

section Keeps

variable {rel : σ → σ → Prop} [IsPreorder σ rel]

/-- The states before and after a step stand in a relation, if those before and after each of its
calls do. -/
def Keeps (rel : σ → σ → Prop) (step : Routine σ ε R α) : Prop :=
  ∀ state, Ensures (fun _ => True) (fun call outcome => rel call.2 outcome.2) step state
    fun outcome => rel state outcome.2

theorem keeps_pure {answer : α} : Keeps rel (Pure.pure answer : Routine σ ε R α) :=
  fun state => refl_of rel state

theorem keeps_fail {problem : ε} : Keeps rel (fail problem : Routine σ ε R α) :=
  fun state => refl_of rel state

theorem keeps_ofExcept {result : Except ε α} : Keeps rel (ofExcept result : Routine σ ε R α) :=
  fun state => refl_of rel state

theorem keeps_gets {read : σ → α} : Keeps rel (gets read : Routine σ ε R α) :=
  fun state => refl_of rel state

omit [IsPreorder σ rel] in
theorem keeps_step {advance : σ → Outcome σ ε α} (h : ∀ state, rel state (advance state).2) :
    Keeps rel (step advance : Routine σ ε R α) :=
  h

omit [IsPreorder σ rel] in
theorem keeps_modify {change : σ → σ} (h : ∀ state, rel state (change state)) :
    Keeps rel (modify change : Routine σ ε R Unit) :=
  h

omit [IsPreorder σ rel] in
theorem keeps_call {p : P} : Keeps rel (call p : Routine σ ε R (R p)) :=
  fun _ => ⟨trivial, fun _ h => h⟩

omit [IsPreorder σ rel] in
theorem keeps_jump {p : P} : Keeps rel (jump p : Routine σ ε R (R p)) :=
  fun _ => ⟨trivial, fun _ h => h⟩

theorem Keeps.bind {first : Routine σ ε R α} {next : α → Routine σ ε R β}
    (hfirst : Keeps rel first) (hnext : ∀ answer, Keeps rel (next answer)) :
    Keeps rel (first >>= next) := by
  intro state
  refine ensures_bind.2 ((hfirst state).mono ?_)
  rintro ⟨problem | answer, reached⟩ hle
  · exact hle
  · exact (hnext answer reached).mono fun outcome hle' => trans_of rel hle hle'

omit [IsPreorder σ rel] in
theorem keeps_within {τ : Type} {save : σ → τ} {enter : σ → σ} {restore : τ → σ → σ}
    {inner : Routine σ ε R α} (hinner : Keeps rel inner)
    (hrestore : ∀ state reached, rel (enter state) reached →
      rel state (restore (save state) reached)) :
    Keeps rel (within save enter restore inner) :=
  fun state => ensures_within.2 ((hinner (enter state)).mono fun outcome hle =>
    hrestore state outcome.2 hle)

omit [IsPreorder σ rel] in
/-- If every body keeps a relation, so does whatever a step ends in. -/
theorem rel_of_ends {body : (p : P) → Routine σ ε R (R p)} (hbody : ∀ p, Keeps rel (body p))
    {step : Routine σ ε R α} (hstep : Keeps rel step) {outcome : Outcome σ ε α}
    (h : Ends body step state outcome) : rel state outcome.2 := by
  have hbodies : ∀ call : P × σ, True → (body call.1 call.2).Ensures (fun _ => True)
      (fun call outcome => rel call.2 outcome.2) fun outcome => rel call.2 outcome.2 :=
    fun call _ => hbody call.1 call.2
  have hend := CallTree.Ends.of_ensures hbodies (hstep state) h
  exact hend

end Keeps

/-! ## Steps that never go back -/

section Order

variable {le : σ → σ → Prop}

/-- A computation never goes back: each call starts where the answer before it has led or after it,
as long as calls do not go back themselves, and so does the end. -/
def Climbs (le : σ → σ → Prop) (reached : α → σ) :
    (low : σ) → CallTree (fun call : P × σ => Outcome σ ε (R call.1)) α → Prop
  | low, .done answer => le low (reached answer)
  | low, .call q next =>
    le low q.2 ∧ ∀ answer, le q.2 answer.2 → Climbs le reached answer.2 (next answer)
  | low, .jump q answers =>
    le low q.2 ∧ ∀ answer, le q.2 answer.2 → le answer.2 (reached (cast answers answer))

theorem Climbs.bind {tree : CallTree (fun call : P × σ => Outcome σ ε (R call.1)) α}
    {next : α → CallTree (fun call : P × σ => Outcome σ ε (R call.1)) β} {reached : α → σ}
    {reached' : β → σ} {low : σ} (htree : Climbs le reached low tree)
    (hnext : ∀ low answer, le low (reached answer) → Climbs le reached' low (next answer)) :
    Climbs le reached' low (tree.bind next) := by
  induction tree generalizing low with
  | done answer => exact hnext low answer htree
  | call q rest ih => exact ⟨htree.1, fun answer hle => ih answer (htree.2 answer hle)⟩
  | jump q answers => exact ⟨htree.1, fun answer hle => hnext _ _ (htree.2 answer hle)⟩

/-- A step never goes back behind the state it is taken from. -/
def Rises (le : σ → σ → Prop) (step : Routine σ ε R α) : Prop :=
  ∀ low state, le low state → Climbs le (·.2) low (step state)

theorem rises_pure {answer : α} : Rises le (Pure.pure answer : Routine σ ε R α) :=
  fun _ _ hle => hle

theorem rises_fail {problem : ε} : Rises le (fail problem : Routine σ ε R α) :=
  fun _ _ hle => hle

theorem rises_ofExcept {result : Except ε α} : Rises le (ofExcept result : Routine σ ε R α) :=
  fun _ _ hle => hle

theorem rises_gets {read : σ → α} : Rises le (gets read : Routine σ ε R α) :=
  fun _ _ hle => hle

theorem Rises.bind {first : Routine σ ε R α} {next : α → Routine σ ε R β}
    (hfirst : Rises le first) (hnext : ∀ answer, Rises le (next answer)) :
    Rises le (first >>= next) := by
  intro low state hle
  refine Climbs.bind (hfirst low state hle) ?_
  rintro low ⟨problem | answer, reached⟩ hle
  · exact hle
  · exact hnext answer low reached hle

variable [IsPreorder σ le]

theorem rises_step {advance : σ → Outcome σ ε α} (h : ∀ state, le state (advance state).2) :
    Rises le (step advance : Routine σ ε R α) :=
  fun _ state hle => trans_of le hle (h state)

theorem rises_modify {change : σ → σ} (h : ∀ state, le state (change state)) :
    Rises le (modify change : Routine σ ε R Unit) :=
  fun _ state hle => trans_of le hle (h state)

theorem rises_within {τ : Type} {save : σ → τ} {enter : σ → σ} {restore : τ → σ → σ}
    {inner : Routine σ ε R α} (hinner : Rises le inner) (henter : ∀ state, le state (enter state))
    (hrestore : ∀ saved state, le state (restore saved state)) :
    Rises le (within save enter restore inner) := by
  intro low state hle
  refine Climbs.bind (hinner low (enter state) (trans_of le hle (henter state))) ?_
  exact fun low outcome hle => trans_of le hle (hrestore _ outcome.2)

theorem rises_call {p : P} : Rises le (call p : Routine σ ε R (R p)) :=
  fun _ _ hle => ⟨hle, fun answer _ => refl_of le answer.2⟩

theorem rises_jump {p : P} : Rises le (jump p : Routine σ ε R (R p)) :=
  fun _ _ hle => ⟨hle, fun answer _ => refl_of le answer.2⟩

variable {body : (call : P × σ) → CallTree (fun call : P × σ => Outcome σ ε (R call.1))
  (Outcome σ ε (R call.1))}
  {tree : CallTree (fun call : P × σ => Outcome σ ε (R call.1)) α} {reached : α → σ} {low : σ}

theorem Climbs.ensures (h : Climbs le reached low tree) :
    tree.Ensures (fun _ => True) (fun call answer => le call.2 answer.2)
      fun answer => le low (reached answer) := by
  induction tree generalizing low with
  | done answer => exact h
  | call q next ih =>
    refine ⟨trivial, fun answer hle => (ih answer (h.2 answer hle)).mono fun found hfound => ?_⟩
    exact trans_of le h.1 (trans_of le hle hfound)
  | jump q answers =>
    exact ⟨trivial, fun answer hle => trans_of le h.1 (trans_of le hle (h.2 answer hle))⟩

variable (hbody : ∀ call, Climbs le (·.2) call.2 (body call))
include hbody

/-- A call never ends behind the state it starts from. -/
theorem le_of_answers {call : P × σ} {answer : Outcome σ ε (R call.1)}
    (h : CallTree.Answers body call answer) : le call.2 answer.2 :=
  h.of_ensures (fun call _ => (hbody call).ensures) trivial

theorem le_of_ends {answer : α} (htree : Climbs le reached low tree)
    (h : CallTree.Ends body tree answer) : le low (reached answer) := by
  have hend := CallTree.Ends.of_ensures (fun call _ => (hbody call).ensures) htree.ensures h
  exact hend

/-- No call starts behind the state its computation starts from. -/
theorem le_of_makes {made : P × σ} (htree : Climbs le reached low tree)
    (h : CallTree.Makes body tree made) : le low made.2 := by
  induction h generalizing low with
  | call => exact htree.1
  | jump => exact htree.1
  | later hgiven hmakes ih =>
    have hle := le_of_answers hbody hgiven
    exact trans_of le htree.1 (trans_of le hle (ih (htree.2 _ hle)))

theorem le_of_reaches {call made : P × σ} (h : CallTree.Reaches body call made) :
    le call.2 made.2 := by
  induction h with
  | refl => exact refl_of le _
  | tail hreaches hmakes ih => exact trans_of le ih (le_of_makes hbody (hbody _) hmakes)

/-- If a computation ends, so does every call it makes, before the computation does. -/
theorem answers_of_makes {made : P × σ} {answer : α} (htree : Climbs le reached low tree)
    (hends : CallTree.Ends body tree answer) (h : CallTree.Makes body tree made) :
    ∃ given, CallTree.Answers body made given ∧ le given.2 (reached answer) := by
  induction h generalizing low with
  | call =>
    obtain ⟨given, hgiven, hends⟩ := CallTree.ends_call.1 hends
    have hle := le_of_answers hbody hgiven
    exact ⟨given, hgiven, le_of_ends hbody (htree.2 given hle) hends⟩
  | jump =>
    obtain ⟨given, hgiven, rfl⟩ := CallTree.ends_jump.1 hends
    exact ⟨given, hgiven, htree.2 given (le_of_answers hbody hgiven)⟩
  | later hgiven hmakes ih =>
    obtain ⟨given, hgiven', hends⟩ := CallTree.ends_call.1 hends
    obtain rfl := hgiven.unique hgiven'
    exact ih (htree.2 _ (le_of_answers hbody hgiven)) hends

theorem answers_of_reaches {call made : P × σ} {answer : Outcome σ ε (R call.1)}
    (hanswers : CallTree.Answers body call answer) (h : CallTree.Reaches body call made) :
    ∃ given, CallTree.Answers body made given ∧ le given.2 answer.2 := by
  induction h with
  | refl => exact ⟨answer, hanswers, refl_of le _⟩
  | tail hreaches hmakes ih =>
    obtain ⟨given, hgiven, hle⟩ := ih
    obtain ⟨given', hgiven', hle'⟩ := answers_of_makes hbody (hbody _) hgiven hmakes
    exact ⟨given', hgiven', trans_of le hle' hle⟩

/-- If a computation ends, so does every call it comes to, before the computation does. -/
theorem answers_of_comes {made : P × σ} {answer : α} (htree : Climbs le reached low tree)
    (hends : CallTree.Ends body tree answer) (h : CallTree.Comes body tree made) :
    ∃ given, CallTree.Answers body made given ∧ le given.2 (reached answer) := by
  obtain ⟨first, hfirst, hreaches⟩ := h
  obtain ⟨given, hgiven, hle⟩ := answers_of_makes hbody htree hends hfirst
  obtain ⟨given', hgiven', hle'⟩ := answers_of_reaches hbody hgiven hreaches
  exact ⟨given', hgiven', trans_of le hle' hle⟩

theorem le_of_comes {made : P × σ} (htree : Climbs le reached low tree)
    (h : CallTree.Comes body tree made) : le low made.2 := by
  obtain ⟨first, hfirst, hreaches⟩ := h
  exact trans_of le (le_of_makes hbody htree hfirst) (le_of_reaches hbody hreaches)

/-- Of two calls that a computation makes one is over before the other is made. -/
theorem makes_ordered {made made' : P × σ} (htree : Climbs le reached low tree)
    (h : CallTree.Makes body tree made) (h' : CallTree.Makes body tree made') :
    made = made' ∨ (∃ given, CallTree.Answers body made given ∧ le given.2 made'.2) ∨
      ∃ given, CallTree.Answers body made' given ∧ le given.2 made.2 := by
  induction h generalizing low with
  | call =>
    cases h' with
    | call => exact .inl rfl
    | later hgiven hmakes =>
      have hnext := htree.2 _ (le_of_answers hbody hgiven)
      exact .inr (.inl ⟨_, hgiven, le_of_makes hbody hnext hmakes⟩)
  | jump =>
    cases h' with
    | jump => exact .inl rfl
  | later hgiven hmakes ih =>
    have hnext := htree.2 _ (le_of_answers hbody hgiven)
    cases h' with
    | call => exact .inr (.inr ⟨_, hgiven, le_of_makes hbody hnext hmakes⟩)
    | later hgiven' hmakes' =>
      obtain rfl := hgiven.unique hgiven'
      exact ih hnext hmakes'

/-- What is made within a call that is over before another is over before that one, too. -/
theorem before_of_reaches {call call' made made' : P × σ}
    {given : Outcome σ ε (R call.1)} (hgiven : CallTree.Answers body call given)
    (hle : le given.2 call'.2) (h : CallTree.Reaches body call made)
    (h' : CallTree.Reaches body call' made') :
    ∃ given, CallTree.Answers body made given ∧ le given.2 made'.2 := by
  obtain ⟨found, hfound, hle'⟩ := answers_of_reaches hbody hgiven h
  exact ⟨found, hfound, trans_of le hle' (trans_of le hle (le_of_reaches hbody h'))⟩

theorem reaches_ordered {call made made' : P × σ} (h : CallTree.Reaches body call made)
    (h' : CallTree.Reaches body call made') :
    CallTree.Reaches body made made' ∨ CallTree.Reaches body made' made ∨
      (∃ given, CallTree.Answers body made given ∧ le given.2 made'.2) ∨
        ∃ given, CallTree.Answers body made' given ∧ le given.2 made.2 := by
  induction h using Relation.ReflTransGen.head_induction_on with
  | refl => exact .inl h'
  | head hmakes hreaches ih =>
    rcases h'.cases_head with rfl | ⟨first', hmakes', hreaches'⟩
    · exact .inr (.inl (.head hmakes hreaches))
    · rcases makes_ordered hbody (hbody _) hmakes hmakes' with rfl | ⟨_, hgiven, hle⟩ |
        ⟨_, hgiven, hle⟩
      · exact ih hreaches'
      · exact .inr (.inr (.inl (before_of_reaches hbody hgiven hle hreaches hreaches')))
      · exact .inr (.inr (.inr (before_of_reaches hbody hgiven hle hreaches' hreaches)))

/-- Of two calls that a computation comes to one is made within the other, or one is over before the
other is made. -/
theorem comes_ordered {made made' : P × σ} (htree : Climbs le reached low tree)
    (h : CallTree.Comes body tree made) (h' : CallTree.Comes body tree made') :
    CallTree.Reaches body made made' ∨ CallTree.Reaches body made' made ∨
      (∃ given, CallTree.Answers body made given ∧ le given.2 made'.2) ∨
        ∃ given, CallTree.Answers body made' given ∧ le given.2 made.2 := by
  obtain ⟨first, hfirst, hreaches⟩ := h
  obtain ⟨first', hfirst', hreaches'⟩ := h'
  rcases makes_ordered hbody htree hfirst hfirst' with rfl | ⟨_, hgiven, hle⟩ | ⟨_, hgiven, hle⟩
  · exact reaches_ordered hbody hreaches hreaches'
  · exact .inr (.inr (.inl (before_of_reaches hbody hgiven hle hreaches hreaches')))
  · exact .inr (.inr (.inr (before_of_reaches hbody hgiven hle hreaches' hreaches)))

end Order

end Routine

end Lox
