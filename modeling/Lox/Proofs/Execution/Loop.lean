/-
# What a `for` loop means

`Loop.run` says in so many words what a `for` loop does: if it has an initializer, it opens one
frame that all its rounds share and executes the initializer there; then, round by round, it
evaluates the condition, executes the body, and evaluates the increment if the body has ended
normally. A loop that is told how many rounds to take may have to stop in between; `Loop.Ends` is
what it ends with, however many rounds this takes.

A `for` loop is read as a `while` loop, with the increment in a block behind the body. This block
opens a frame of its own in each round, which the loop said in words does not. Nothing is declared
in this frame, so that both do the same but for frames without variables (`Loop.endsAlike_run`).
-/

import Lox.Proofs.Execution.Recast
import Lox.Proofs.Grammar.Basic

namespace Lox

/-- The parts of a `for` loop. -/
structure Loop where
  /-- The initializer. -/
  first : Option Stmt
  /-- The condition. -/
  condition : Option Expr
  /-- The increment. -/
  increment : Option Expr
  /-- The body. -/
  body : Stmt

namespace Loop

/-- The statement that a loop is read as. -/
def tree (loop : Loop) : Stmt :=
  Grammar.loop loop.first loop.condition loop.increment loop.body

/-! ## What a loop does -/

/-- Whether a loop goes on. It always does if it has no condition. -/
def decision (loop : Loop) : Code.Step Bool :=
  match loop.condition with
  | none => pure true
  | some condition => do
    let decision ← Code.value condition
    pure decision.isTruthy

/-- The increment, if there is one. -/
def advance (loop : Loop) : Code.Step Unit :=
  match loop.increment with
  | none => pure ()
  | some increment => do
    let _ ← Code.value increment
    pure ()

/-- The body, and then the increment. The answer is how the loop has ended, if it does not go on. -/
def turn (loop : Loop) : Code.Step (Option Completion) := do
  let completion ← (Routine.call (Code.statement loop.body) : Code.Step Completion)
  match completion with
  | .normal =>
    loop.advance
    pure none
  | .returned value => pure (some (.returned value))

/-- One round, as long as the condition holds. -/
def round (loop : Loop) : Code.Step (Option Completion) := do
  let goesOn ← loop.decision
  if goesOn then loop.turn else pure (some .normal)

/-- At most so many rounds. -/
def rounds (loop : Loop) : Nat → Code.Step (Option Completion)
  | 0 => pure none
  | n + 1 => do
    let ended ← loop.round
    match ended with
    | none => loop.rounds n
    | some completion => pure (some completion)

/-- A loop, for at most so many rounds. With an initializer it has one frame of its own. -/
def run (loop : Loop) (n : Nat) : Code.Step (Option Completion) :=
  match loop.first with
  | none => loop.rounds n
  | some first => Code.enclosed (fun state => state.enter state.environment) id do
    let _ ← (Routine.call (Code.statement first) : Code.Step Completion)
    loop.rounds n

/-- What a loop ends with. -/
def Ends (loop : Loop) (setting : Setting) (state : State)
    (outcome : Outcome State Fault Completion) : Prop :=
  ∃ n, Routine.Ends (Code.execute setting) (loop.run n) state (outcome.1.map some, outcome.2)

end Loop

namespace Code

open Routine (SameEnds sameEnds_call sameEnds_jump)

variable {setting : Setting} {α β : Type}

/-! ## Blocks -/

theorem sameEnds_bind_pure {step : Step α} {next : α → Step α}
    (h : ∀ answer, SameEnds (execute setting) (next answer) (pure answer)) :
    SameEnds (execute setting) (step >>= next) step := by
  intro state outcome
  simp only [Routine.ends_bind, h _ _ _, Routine.ends_pure]
  obtain ⟨result, reached⟩ := outcome
  constructor
  · rintro (⟨answer, _, hends, heq⟩ | ⟨fault, _, hends, heq⟩)
    · cases heq
      exact hends
    · cases heq
      exact hends
  · intro hends
    cases result with
    | ok answer => exact .inl ⟨answer, reached, hends, rfl⟩
    | error fault => exact .inr ⟨fault, reached, hends, rfl⟩

/-- A single statement is executed as the statement it is. -/
theorem sameEnds_single (s : Stmt) :
    SameEnds (execute setting) (execute setting (body [s])) (Routine.call (statement s)) := by
  apply sameEnds_bind_pure
  intro completion
  cases completion with
  | normal => exact sameEnds_jump (body [])
  | returned value => exact .refl _

/-- What is made of an answer can be made of it before the frame is left. -/
theorem sameEnds_enclosed_bind {enter leave : State → State} {inner : Step α} (make : α → β) :
    SameEnds (execute setting) (enclosed enter leave inner >>= fun answer => pure (make answer))
      (enclosed enter leave (inner >>= fun answer => pure (make answer))) := by
  intro state outcome
  simp only [enclosed, Routine.ends_bind, Routine.ends_within, Routine.ends_pure]
  constructor
  · rintro (⟨answer, _, ⟨_, reached, hinner, heq⟩, rfl⟩
    | ⟨fault, _, ⟨_, reached, hinner, heq⟩, rfl⟩)
    · cases heq
      exact ⟨_, reached, .inl ⟨answer, reached, hinner, rfl⟩, rfl⟩
    · cases heq
      exact ⟨_, reached, .inr ⟨fault, reached, hinner, rfl⟩, rfl⟩
  · rintro ⟨_, reached, (⟨answer, _, hinner, heq⟩ | ⟨fault, _, hinner, heq⟩), rfl⟩
    · cases heq
      exact .inl ⟨answer, _, ⟨_, reached, hinner, rfl⟩, rfl⟩
    · cases heq
      exact .inr ⟨fault, _, ⟨_, reached, hinner, rfl⟩, rfl⟩

end Code

namespace Loop

open Routine (SameEnds sameEnds_call sameEnds_jump)

variable {setting : Setting} {loop : Loop} {state : State}
  {outcome : Outcome State Fault Completion}

/-! ## Loops as they are read -/

/-- The loop as it is read: always with a condition, and with the increment in a block behind the
body. -/
def plain (loop : Loop) : Loop where
  first := loop.first
  condition := some (loop.condition.getD (.literal (.bool true)))
  increment := none
  body := Grammar.round loop.body loop.increment

/-- A `while` loop is one round, and then the loop again. -/
theorem executeStatement_while (first : Option Stmt) (condition : Expr) (s : Stmt) :
    Code.executeStatement (.while condition s) =
      round ⟨first, some condition, none, s⟩ >>= fun ended => match ended with
        | none => Routine.jump (Code.statement (.while condition s))
        | some completion => pure completion := by
  unfold round decision turn advance
  rw [Routine.bind_assoc, Routine.bind_assoc]
  refine congrArg (Code.value condition >>= ·) (funext fun decision => ?_)
  rw [Routine.pure_bind]
  cases decision.isTruthy with
  | true =>
    refine Eq.trans ?_ (Routine.bind_assoc _ _ _).symm
    refine congrArg (Routine.call (Code.statement s) >>= ·) (funext fun completion => ?_)
    cases completion <;> rfl
  | false => rfl

/-- A loop that takes some number of rounds, if the code is one, ends as the code has. -/
private def Unrolled (setting : Setting) (first : Option Stmt) :
    (code : Code) → State → Outcome State Fault code.Result → Prop
  | .statement (.while condition s), state, outcome =>
    ∃ n, Routine.Ends (Code.execute setting) (rounds ⟨first, some condition, none, s⟩ n) state
      (outcome.1.map some, outcome.2)
  | _, _, _ => True

private theorem unrolled (first : Option Stmt) {code : Code}
    {outcome : Outcome State Fault code.Result}
    (h : Routine.Ends (Code.execute setting) (Code.execute setting code) state outcome) :
    Unrolled setting first code state outcome := by
  refine Code.ends_induction (fun code state outcome ih hends => ?_) h
  cases code with
  | statement s =>
    cases s with
    | «while» condition s =>
      have hloop : Routine.Ends (Code.execute setting)
          (Code.executeStatement (.while condition s)) state outcome := hends
      rw [executeStatement_while first] at hloop
      rcases Routine.ends_bind.1 hloop with ⟨ended, middle, hround, hrest⟩ |
        ⟨fault, reached, hround, rfl⟩
      · cases ended with
        | none =>
          -- What the round jumps to is the loop again, executed within the loop.
          have hmakes : Routine.Makes (Code.execute setting)
              (Code.executeStatement (.while condition s)) state
              (.statement (.while condition s), middle) := by
            rw [executeStatement_while first]
            exact Routine.makes_bind.2 (.inr ⟨none, middle, hround, Routine.makes_jump.2 rfl⟩)
          obtain ⟨n, hrounds⟩ := ih _ outcome hmakes (Routine.ends_jump.1 hrest)
          exact ⟨n + 1, hround.bind hrounds⟩
        | some completion =>
          cases Routine.ends_pure.1 hrest
          exact ⟨1, hround.bind (Routine.ends_pure.2 rfl)⟩
      · exact ⟨1, hround.bind_error⟩
    | _ => trivial
  | _ => trivial

/-- A `while` loop ends as it does when it takes enough rounds. -/
theorem ends_rounds_iff (first : Option Stmt) (condition : Expr) (s : Stmt) :
    (∃ n, Routine.Ends (Code.execute setting) (rounds ⟨first, some condition, none, s⟩ n) state
      (outcome.1.map some, outcome.2)) ↔
      Routine.Ends (Code.execute setting) (Code.executeStatement (.while condition s)) state
        outcome := by
  constructor
  · rintro ⟨n, hends⟩
    induction n generalizing state with
    | zero =>
      obtain ⟨result, reached⟩ := outcome
      cases result <;> cases Routine.ends_pure.1 hends
    | succ n ih =>
      rw [executeStatement_while first]
      rcases Routine.ends_bind.1 hends with ⟨ended, middle, hround, hrest⟩ |
        ⟨fault, reached, hround, heq⟩
      · refine hround.bind ?_
        cases ended with
        | none => exact Routine.ends_jump.2 (ih hrest)
        | some completion =>
          obtain ⟨result, reached⟩ := outcome
          cases result <;> cases Routine.ends_pure.1 hrest
          exact Routine.ends_pure.2 rfl
      · obtain ⟨result, reached⟩ := outcome
        cases result <;> cases heq
        exact hround.bind_error
  · exact fun hends => @unrolled setting state first (.statement (.while condition s)) outcome hends

/-- An initializer ends normally, if at all. -/
def Plain : (first : Stmt) → Prop
  | .expression _ | .var _ _ => True
  | _ => False

private theorem eq_normal_of_ends {α : Type} {step : Code.Step α} {completion : Completion}
    {reached : State} (hends : Routine.Ends (Code.execute setting) (step >>= fun _ => pure .normal)
      state (.ok completion, reached)) : completion = .normal := by
  rcases Routine.ends_bind.1 hends with ⟨_, _, -, hpure⟩ | ⟨_, _, -, heq⟩
  · cases Routine.ends_pure.1 hpure
    rfl
  · cases heq

theorem Plain.eq_normal {first : Stmt} (h : Plain first) {completion : Completion} {reached : State}
    (hends : Routine.Ends (Code.execute setting) (Routine.call (Code.statement first)) state
      (.ok completion, reached)) : completion = .normal := by
  have hstatement := Routine.ends_call.1 hends
  cases first with
  | expression e => exact eq_normal_of_ends hstatement
  | var name initializer =>
    cases initializer with
    | none => exact eq_normal_of_ends hstatement
    | some e =>
      rcases Routine.ends_bind.1 hstatement with ⟨_, _, -, hdefine⟩ | ⟨_, _, -, heq⟩
      · exact eq_normal_of_ends hdefine
      · cases heq
  | _ => exact h.elim

/-- Behind its initializer, a loop takes as many rounds as it needs. -/
private theorem ends_initialized_iff {first : Stmt} (hfirst : Plain first) (condition : Expr)
    (s : Stmt) :
    (∃ n, Routine.Ends (Code.execute setting)
      ((Routine.call (Code.statement first) : Code.Step Completion) >>= fun _ =>
        rounds ⟨first, some condition, none, s⟩ n) state (outcome.1.map some, outcome.2)) ↔
      Routine.Ends (Code.execute setting)
        (Code.execute setting (.body [first, .while condition s])) state outcome := by
  have hrest : ∀ middle, Routine.Ends (Code.execute setting)
      (Routine.jump (Code.body [.while condition s])) middle outcome ↔
      ∃ n, Routine.Ends (Code.execute setting) (rounds ⟨first, some condition, none, s⟩ n) middle
        (outcome.1.map some, outcome.2) := by
    intro middle
    rw [ends_rounds_iff, Routine.ends_jump, Code.sameEnds_single, Routine.ends_call]
    rfl
  constructor
  · rintro ⟨n, hends⟩
    rcases Routine.ends_bind.1 hends with ⟨completion, middle, hbefore, hrounds⟩ |
      ⟨fault, reached, hbefore, heq⟩
    · obtain rfl := hfirst.eq_normal hbefore
      exact hbefore.bind ((hrest middle).2 ⟨n, hrounds⟩)
    · obtain ⟨result, last⟩ := outcome
      cases result <;> cases heq
      exact hbefore.bind_error
  · intro hends
    rcases Routine.ends_bind.1 hends with ⟨completion, middle, hbefore, hjump⟩ |
      ⟨fault, reached, hbefore, rfl⟩
    · obtain rfl := hfirst.eq_normal hbefore
      obtain ⟨n, hrounds⟩ := (hrest middle).1 hjump
      exact ⟨n, hbefore.bind hrounds⟩
    · exact ⟨0, hbefore.bind_error⟩

/-- The statement that a loop is read as ends as the loop as it is read. -/
theorem ends_tree_iff (hfirst : ∀ first ∈ loop.first, Plain first) :
    Routine.Ends (Code.execute setting) (Code.executeStatement loop.tree) state outcome ↔
      loop.plain.Ends setting state outcome := by
  obtain ⟨first, condition, increment, s⟩ := loop
  cases first with
  | none => exact (ends_rounds_iff none _ _).symm
  | some first =>
    have hplain : Plain first := hfirst first rfl
    let condition' := condition.getD (.literal (.bool true))
    let s' := Grammar.round s increment
    have hbody := fun state result reached =>
      @ends_initialized_iff setting state (result, reached) first hplain condition' s'
    have htree : Code.executeStatement (tree ⟨some first, condition, increment, s⟩) =
        Code.enclosed (fun state => state.enter state.environment) id
          (Routine.call (.body [first, .while condition' s'])) := rfl
    have hrun : ∀ n, run (plain ⟨some first, condition, increment, s⟩) n =
        Code.enclosed (fun state => state.enter state.environment) id
          ((Routine.call (Code.statement first) : Code.Step Completion) >>= fun _ =>
            rounds ⟨first, some condition', none, s'⟩ n) := fun _ => rfl
    unfold Ends
    simp only [htree, hrun, Code.enclosed, Routine.ends_within, Routine.ends_call]
    constructor
    · rintro ⟨result, reached, hends, rfl⟩
      obtain ⟨n, hends⟩ := (hbody _ result reached).2 hends
      exact ⟨n, _, reached, hends, rfl⟩
    · rintro ⟨n, _, reached, hends, heq⟩
      obtain ⟨result, last⟩ := outcome
      cases heq
      exact ⟨result, reached, (hbody _ result reached).1 ⟨n, hends⟩, rfl⟩

/-- How a loop ends in a body that completes so, if it does not go on. -/
def ending? : Completion → Option Completion
  | .normal => none
  | .returned value => some (.returned value)

/-- With an increment, what is read as body and increment opens a frame for them. -/
theorem sameEnds_turn_plain {increment : Expr} (hincrement : loop.increment = some increment) :
    SameEnds (Code.execute setting) loop.plain.turn
      (Code.enclosed (fun state => state.enter state.environment) id loop.turn) := by
  obtain ⟨first, condition, _, s⟩ := loop
  cases hincrement
  have hplain : turn (plain ⟨first, condition, some increment, s⟩) =
      Routine.call (Code.statement (.block [s, .expression increment])) >>= fun completion =>
        pure (ending? completion) := by
    refine congrArg (Routine.call (Code.statement _) >>= ·) (funext fun completion => ?_)
    cases completion <;> rfl
  rw [hplain]
  refine ((sameEnds_call _).bind fun _ => .refl _).trans
    ((Code.sameEnds_enclosed_bind ending?).trans (SameEnds.within ?_))
  refine ((sameEnds_call (Code.body [s, .expression increment])).bind fun _ => .refl _).trans ?_
  rw [Code.execute, Routine.bind_assoc]
  refine (SameEnds.refl _).bind fun completion => ?_
  cases completion with
  | returned value => exact .refl _
  | normal =>
    have hlast : SameEnds (Code.execute setting) (Routine.jump (Code.body [.expression increment]))
        (Code.executeStatement (.expression increment)) :=
      (sameEnds_jump _).trans ((Code.sameEnds_single _).trans (sameEnds_call _))
    refine (hlast.bind fun _ => .refl _).trans ?_
    unfold advance
    rw [Code.executeStatement, Routine.bind_assoc, Routine.bind_assoc]
    exact .refl _

theorem keeps_turn (loop : Loop) : Routine.Keeps State.SameScope loop.turn := by
  apply Routine.Keeps.bind Routine.keeps_call
  intro completion
  cases completion with
  | returned value => exact Routine.keeps_pure
  | normal =>
    refine Routine.Keeps.bind ?_ fun _ => Routine.keeps_pure
    unfold advance
    cases loop.increment with
    | none => exact Routine.keeps_pure
    | some increment => exact Routine.Keeps.bind Routine.keeps_call fun _ => Routine.keeps_pure

/-! ## Loops that are recast -/

section Recast

variable (r : Recasting)

/-- The marks of the scopes around body and increment, if the rounds of the loop are in scopes with
some marks: the block that is read around them is missing in the loop as it is said in words. -/
def turnMarks (loop : Loop) (marks : List Bool) : List Bool :=
  match loop.increment with
  | none => marks
  | some _ => true :: marks

/-- In rounds of two loops the parts of the second are those of the first recast. -/
structure RoundsRecast (marks : List Bool) (loop loop' : Loop) : Prop where
  condition : Option.Rel (Expr.Recast r marks) loop.condition loop'.condition
  increment : Option.Rel (Expr.Recast r (loop.turnMarks marks)) loop.increment loop'.increment
  body : loop.body.Recast r (loop.turnMarks marks) loop'.body

/-- The marks of the scopes that the rounds of a loop are in. -/
def roundMarks (loop : Loop) (marks : List Bool) : List Bool :=
  match loop.first with
  | none => marks
  | some _ => false :: marks

/-- The parts of the second loop are those of the first recast. -/
structure Recast (marks : List Bool) (loop loop' : Loop) : Prop where
  first : Option.Rel (Stmt.Recast r (false :: marks)) loop.first loop'.first
  rounds : loop.RoundsRecast r (loop.roundMarks marks) loop'

end Recast

section EndsAlike

open Routine.Development hiding similar_call similar_jump

variable {r : Recasting} {setting' : Setting} (hsetting : setting.Recasts r setting')
  {loop' : Loop} {markings : Markings}
include hsetting

/-- An omitted condition holds, as does the one that is read in its place. -/
theorem endsAlike_decision (h : Option.Rel (Expr.Recast r markings.scopes) loop.condition
      loop'.condition) :
    (Code.recast r).EndsAlike (Code.execute setting) (Code.execute setting') markings
      (fun _ => Eq) loop.plain.decision loop'.decision := by
  obtain ⟨first, condition, increment, s⟩ := loop
  obtain ⟨first', condition', increment', s'⟩ := loop'
  cases h with
  | none =>
    have htrue : SameEnds (Code.execute setting)
        (plain ⟨first, none, increment, s⟩).decision (pure true) :=
      (sameEnds_call _).bind fun _ => .refl _
    exact (endsAlike_pure rfl).replace htrue
  | some h =>
    apply Code.endsAlike_of_similar hsetting
    apply Similar.bind (Code.similar_value_recast le_rfl h.bare)
    intro later hle decision decision' hdecision
    exact similar_pure hdecision.indistinct.isTruthy_eq

theorem endsAlike_turn
    (hincrement : Option.Rel (Expr.Recast r markings.scopes) loop.increment loop'.increment)
    (hbody : loop.body.Recast r markings.scopes loop'.body) :
    (Code.recast r).EndsAlike (Code.execute setting) (Code.execute setting') markings
      (fun markings => Option.Rel (Completion.Recast r markings.frames)) loop.turn loop'.turn := by
  apply Code.endsAlike_of_similar hsetting
  apply Similar.bind (Code.similar_statement_recast le_rfl hbody)
  intro later hle completion completion' hcompletion
  cases hcompletion with
  | returned hvalue => exact similar_pure (.some (.returned hvalue))
  | normal =>
    obtain ⟨first, condition, increment, s⟩ := loop
    obtain ⟨first', condition', increment', s'⟩ := loop'
    cases hincrement with
    | none => exact similar_pure .none
    | some h =>
      unfold advance
      rw [Routine.bind_assoc, Routine.bind_assoc]
      exact Similar.bind (Code.similar_value_recast hle h.bare) fun _ _ _ _ _ => similar_pure .none

/-- In each turn of the loop as it is read there is at most one frame more, without variables. -/
theorem endsAlike_turn_plain (h : loop.RoundsRecast r markings.scopes loop') :
    (Code.recast r).EndsAlike (Code.execute setting) (Code.execute setting') markings
      (fun markings => Option.Rel (Completion.Recast r markings.frames)) loop.plain.turn
      loop'.turn := by
  obtain ⟨-, hincrement, hbody⟩ := h
  obtain ⟨first, condition, increment, s⟩ := loop
  cases increment with
  | none =>
    have hplain : turn (plain ⟨first, condition, none, s⟩) = turn ⟨first, condition, none, s⟩ := by
      refine congrArg (Routine.call (Code.statement s) >>= ·) (funext fun completion => ?_)
      cases completion <;> rfl
    rw [hplain]
    exact endsAlike_turn hsetting hincrement hbody
  | some increment =>
    have hturn := @endsAlike_turn _ ⟨first, condition, some increment, s⟩ _ _ hsetting loop'
      (markings.enter true markings.scopes) hincrement hbody
    refine EndsAlike.replace ?_ (sameEnds_turn_plain rfl)
    apply hturn.within_left
    · exact fun _ _ hstates => State.Recast.enter_missing hstates
    · intro state state' later reached result reached' hstates hlater hreached hends
      have hflags : markings.frames <+: later.frames := (List.prefix_append _ _).trans hlater.1
      have hscope := Code.sameScope_of_ends loop'.keeps_turn hends
      have henvironment := hstates.environment.mono hflags
      rw [← hscope.1] at henvironment
      exact ⟨⟨later.frames, markings.scopes⟩, ⟨hflags, rfl⟩, ⟨hreached.store, henvironment,
        hreached.callDepth, hreached.clockReadings, hreached.output⟩, fun _ _ hvalues => hvalues⟩

theorem endsAlike_round (h : loop.RoundsRecast r markings.scopes loop') :
    (Code.recast r).EndsAlike (Code.execute setting) (Code.execute setting') markings
      (fun markings => Option.Rel (Completion.Recast r markings.frames)) loop.plain.round
      loop'.round := by
  apply EndsAlike.bind (endsAlike_decision hsetting h.condition)
  rintro later hle goesOn _ rfl
  cases goesOn with
  | true =>
    rw [← hle.2] at h
    exact endsAlike_turn_plain hsetting h
  | false => exact endsAlike_pure (.some .normal)

theorem endsAlike_rounds (h : loop.RoundsRecast r markings.scopes loop') (n : Nat) :
    (Code.recast r).EndsAlike (Code.execute setting) (Code.execute setting') markings
      (fun markings => Option.Rel (Completion.Recast r markings.frames)) (loop.plain.rounds n)
      (loop'.rounds n) := by
  induction n generalizing markings with
  | zero => exact endsAlike_pure .none
  | succ n ih =>
    apply EndsAlike.bind (endsAlike_round hsetting h)
    intro later hle ended ended' hended
    cases hended with
    | none =>
      rw [← hle.2] at h
      exact ih h
    | some hcompletion => exact endsAlike_pure (.some hcompletion)

omit hsetting in
/-- Steps in a frame of their own on both sides. -/
theorem endsAlike_enclosed {α α' : Type} {values : List Bool → α → α' → Prop} {step : Code.Step α}
    {step' : Code.Step α'}
    (h : (Code.recast r).EndsAlike (Code.execute setting) (Code.execute setting')
      (markings.enter false markings.scopes) (fun markings => values markings.frames) step step') :
    (Code.recast r).EndsAlike (Code.execute setting) (Code.execute setting') markings
      (fun markings => values markings.frames)
      (Code.enclosed (fun state => state.enter state.environment) id step)
      (Code.enclosed (fun state => state.enter state.environment) id step') := by
  apply EndsAlike.within h
  · exact fun _ _ hstates => State.Recast.enter hstates hstates.environment
  · intro state state' later reached reached' hstates hlater hreached
    have hflags : markings.frames <+: later.frames := (List.prefix_append _ _).trans hlater.1
    exact ⟨⟨later.frames, markings.scopes⟩, ⟨hflags, rfl⟩,
      State.Recast.restore hstates hflags hreached, fun _ _ hvalues => hvalues⟩

/-- Within any number of rounds a loop comes to the same as the statement that it is read as, in
frames that may be missing. -/
theorem endsAlike_run (h : loop.Recast r markings.scopes loop') (n : Nat) :
    (Code.recast r).EndsAlike (Code.execute setting) (Code.execute setting') markings
      (fun markings => Option.Rel (Completion.Recast r markings.frames)) (loop.plain.run n)
      (loop'.run n) := by
  obtain ⟨hfirst, hrounds⟩ := h
  obtain ⟨first, condition, increment, s⟩ := loop
  obtain ⟨first', condition', increment', s'⟩ := loop'
  cases hfirst with
  | none => exact endsAlike_rounds hsetting hrounds n
  | @some first first' hfirst =>
    have hrun : (Code.recast r).EndsAlike (Code.execute setting) (Code.execute setting')
        (markings.enter false markings.scopes)
        (fun markings => Option.Rel (Completion.Recast r markings.frames))
        ((Routine.call (Code.statement first) : Code.Step Completion) >>= fun _ =>
          rounds (plain ⟨some first, condition, increment, s⟩) n)
        ((Routine.call (Code.statement first') : Code.Step Completion) >>= fun _ =>
          rounds ⟨some first', condition', increment', s'⟩ n) := by
      have hstart : (Code.recast r).Similar (markings.enter false markings.scopes)
          (fun markings => Completion.Recast r markings.frames)
          (Routine.call (Code.statement first) : Code.Step Completion)
          (Routine.call (Code.statement first')) := Code.similar_statement_recast le_rfl hfirst
      apply EndsAlike.bind (Code.endsAlike_of_similar hsetting hstart)
      intro later hle _ _ _
      have hscopes : later.scopes = false :: markings.scopes := hle.2
      have hrounds : RoundsRecast r (false :: markings.scopes)
          ⟨some first, condition, increment, s⟩ ⟨some first', condition', increment', s'⟩ := hrounds
      rw [← hscopes] at hrounds
      exact endsAlike_rounds hsetting hrounds n
    exact @endsAlike_enclosed _ r _ markings _ _
      (fun flags => Option.Rel (Completion.Recast r flags))
      _ _ hrun

section Trees

variable (hfirst : ∀ first ∈ loop.first, Plain first) (h : loop.Recast r markings.scopes loop')
  {state' : State} (hstates : state.Recast r markings state')
include hfirst h hstates

/-- Whatever the statement ends with that a loop is read as, the loop ends with what corresponds. -/
theorem ends_of_ends_tree
    (hends : Routine.Ends (Code.execute setting) (Code.executeStatement loop.tree) state outcome) :
    ∃ outcome', loop'.Ends setting' state' outcome' ∧ (Code.recast r).Outcomes markings
      (fun markings => Completion.Recast r markings.frames) outcome outcome' := by
  obtain ⟨n, hrun⟩ := (ends_tree_iff hfirst).1 hends
  obtain ⟨⟨result', last'⟩, hrun', houtcome⟩ :=
    (endsAlike_run hsetting h n state state' hstates).forth _ hrun
  obtain ⟨result, last⟩ := outcome
  cases result with
  | ok completion =>
    cases houtcome with
    | ok hle hvalues hlast =>
      cases hvalues with
      | @some _ completion' hcompletion =>
        exact ⟨(.ok completion', last'), ⟨n, hrun'⟩, .ok hle hcompletion hlast⟩
  | error fault =>
    cases houtcome with
    | @error _ _ fault' _ _ hle hproblems hlast =>
      exact ⟨(.error fault', last'), ⟨n, hrun'⟩, .error hle hproblems hlast⟩

/-- Whatever a loop ends with, the statement that it is read as ends with what corresponds. -/
theorem ends_tree_of_ends {outcome' : Outcome State Fault Completion}
    (hends : loop'.Ends setting' state' outcome') :
    ∃ outcome, Routine.Ends (Code.execute setting) (Code.executeStatement loop.tree) state outcome ∧
      (Code.recast r).Outcomes markings (fun markings => Completion.Recast r markings.frames)
        outcome outcome' := by
  obtain ⟨n, hrun'⟩ := hends
  obtain ⟨⟨result, last⟩, hrun, houtcome⟩ :=
    (endsAlike_run hsetting h n state state' hstates).back _ hrun'
  obtain ⟨result', last'⟩ := outcome'
  cases result' with
  | ok completion' =>
    cases houtcome with
    | ok hle hvalues hlast =>
      cases hvalues with
      | @some completion _ hcompletion =>
        exact ⟨(.ok completion, last), (ends_tree_iff hfirst).2 ⟨n, hrun⟩,
          .ok hle hcompletion hlast⟩
  | error fault' =>
    cases houtcome with
    | @error _ fault _ _ _ hle hproblems hlast =>
      exact ⟨(.error fault, last), (ends_tree_iff hfirst).2 ⟨n, hrun⟩,
        .error hle hproblems hlast⟩

end Trees

end EndsAlike

end Loop

end Lox
