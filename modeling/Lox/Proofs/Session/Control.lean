/-
# Control is given back

Executing code moves into frames and begins calls, and whichever way it ends, it gives back what it
took: the same can be seen as before, and as many calls are under way. On the way no more calls are
ever under way than at the start or than the limit allows. And code that no call has led to does not
return from one, so a program that has ended, or that was stopped, leaves the interpreter as idle as
it was before the first program.

None of this depends on where the code or the depths of its accesses come from.
-/

import Lox.Proofs.Session.Layout

namespace Lox

namespace Code

variable {setting : Setting} {state : State}

/-- Execute statements with an environment of their own. -/
def inside (environment : Environment) (ss : List Stmt) : Step Completion :=
  enclosed (fun state => { state with environment }) id (Routine.call (body ss))

theorem keeps_inside (environment : Environment) (ss : List Stmt) :
    Routine.Keeps State.SameScope (inside environment ss) := by
  unfold inside enclosed
  exact Routine.keeps_within Routine.keeps_call fun _ _ h => ⟨rfl, h.2⟩

theorem makes_inside {environment : Environment} {ss : List Stmt} {made : Code × State} :
    Routine.Makes (execute setting) (inside environment ss) state made ↔
      made = (body ss, { state with environment }) := by
  unfold inside enclosed
  exact Routine.makes_within.trans Routine.makes_call

/-! ## How many calls are under way -/

/-- What code comes to directly has at most one more call under way, and only within the limit. -/
theorem callDepth_le_of_makes {code : Code} {made : Code × State}
    (h : Routine.Makes (execute setting) (execute setting code) state made) :
    made.2.callDepth ≤ max state.callDepth setting.config.maxCallDepth := by
  let late : State → Code × State → Prop :=
    fun state made => made.2.callDepth ≤ max state.callDepth setting.config.maxCallDepth
  have hsame : ∀ state made, state.SameScope made.2 → late state made :=
    fun state made hscope => Nat.le_trans (Nat.le_of_eq hscope.2) (Nat.le_max_left _ _)
  have hcomposed : Composed setting (fun step => Routine.Keeps State.SameScope step ∧
      ∀ state made, Routine.Makes (execute setting) step state made → late state made) := by
    apply composed_makes
    · exact hsame
    · intro state reached made hscope hlate
      exact Nat.le_trans hlate (Nat.le_of_eq (congrArg (max · _) hscope.2))
    · exact fun state ss => Nat.le_max_left _ _
  refine (hcomposed.execute (fun callee paren es =>
    ⟨inherited_keeps.evaluateCall callee paren es, fun state made hmakes => ?_⟩) code).2 state
      made h
  let run : Run := ⟨setting, [], state⟩
  have hcall : run.Makes (.expression (.call callee paren es)) state made := hmakes
  rcases Run.makes_call hcall with rfl | ⟨identity, called, reached, hcallee, h⟩
  · exact hsame _ _ (refl_of State.SameScope state)
  · rcases h with rfl | ⟨passed, reached', declaration, closure, -, -, -, hdepth, rfl⟩
    · exact hsame _ _ hcallee.sameScope
    · show (reached'.beginCall closure _).callDepth ≤ _
      rw [State.callDepth_beginCall]
      exact Nat.le_trans hdepth (Nat.le_max_right _ _)

/-- However far an execution has got, no more calls are under way than at its start or than the
limit allows. -/
theorem callDepth_le_of_reaches {call made : Code × State}
    (h : CallTree.Reaches (fun call : Code × State => execute setting call.1 call.2) call made) :
    made.2.callDepth ≤ max call.2.callDepth setting.config.maxCallDepth := by
  induction h with
  | refl => exact Nat.le_max_left _ _
  | tail _ hmakes ih =>
    have hstep := callDepth_le_of_makes hmakes
    exact Nat.le_trans hstep (Nat.max_le.2 ⟨ih, Nat.le_max_right _ _⟩)

/-! ## Returning only from calls -/

/-- Code does not end with a value to return from a call. -/
def Stays : (code : Code) → Except Fault code.Result → Prop
  | expression _, _ => True
  | arguments _, _ => True
  | statement _, result => ∀ value, result ≠ .ok (.returned value)
  | body _, result => ∀ value, result ≠ .ok (.returned value)

/-- What is relied on of the code that is executed on the way. -/
def staysOutside (setting : Setting) (call : Code × State)
    (outcome : Outcome State Fault call.1.Result) : Prop :=
  (call.2.callDepth = 0 → call.1.Stays outcome.1) ∧
    Routine.Ends (execute setting) (execute setting call.1) call.2 outcome

namespace staysOutside

variable {code : Code} {outcome : Outcome State Fault code.Result}

theorem callDepth_eq (h : staysOutside setting (code, state) outcome) :
    outcome.2.callDepth = state.callDepth :=
  (sameScope_of_ends (keeps_execute code) h.2).2

end staysOutside

/-- A step as far as it is relied on. -/
theorem ensures_of_forall {α : Type} {step : Step α} {post : Outcome State Fault α → Prop}
    (h : ∀ outcome, post outcome) :
    Routine.Ensures (fun _ => True) (staysOutside setting) step state post :=
  Routine.Ensures.mono (CallTree.ensures_ends (step state) fun _ _ hspec => hspec.2)
    fun outcome _ => h outcome

private theorem ensures_call_bind {code : Code} {next : code.Result → Step Completion}
    (hzero : state.callDepth = 0)
    (hnext : ∀ answer reached, reached.callDepth = 0 →
      staysOutside setting (code, state) (.ok answer, reached) →
        Routine.Ensures (fun _ => True) (staysOutside setting) (next answer) reached
          fun outcome => ∀ value, outcome.1 ≠ .ok (.returned value)) :
    Routine.Ensures (fun _ => True) (staysOutside setting) (Routine.call code >>= next) state
      fun outcome => ∀ value, outcome.1 ≠ .ok (.returned value) := by
  apply Routine.Ensures.call_bind trivial
  · intro fault reached _ value h
    cases h
  · intro answer reached hspec
    exact hnext answer reached (hspec.callDepth_eq.trans hzero) hspec

private theorem ensures_normal :
    Routine.Ensures (fun _ => True) (staysOutside setting)
      (pure .normal : Step Completion) state
        fun outcome => ∀ value, outcome.1 ≠ .ok (.returned value) := by
  intro value h
  cases h

private theorem ensures_jump {code : Code} (hzero : state.callDepth = 0)
    {post : Outcome State Fault code.Result → Prop}
    (h : ∀ outcome, code.Stays outcome.1 → post outcome) :
    Routine.Ensures (fun _ => True) (staysOutside setting) (Routine.jump code : Step code.Result)
      state post :=
  ⟨trivial, fun outcome hspec => h outcome (hspec.1 hzero)⟩

/-- Outside all calls a statement goes on with what follows, unless it is stopped by a fault: only a
return statement begins to return, and it looks first whether a call is under way. -/
theorem stays_executeStatement (s : Stmt) (hzero : state.callDepth = 0) :
    Routine.Ensures (fun _ => True) (staysOutside setting) (executeStatement s) state
      fun outcome => ∀ value, outcome.1 ≠ .ok (.returned value) := by
  cases s with
  | expression e => exact ensures_call_bind hzero fun _ _ _ _ => ensures_normal
  | print keyword e => exact ensures_call_bind hzero fun _ _ _ _ => ensures_normal
  | var name initializer =>
    cases initializer with
    | none => exact ensures_normal
    | some e => exact ensures_call_bind hzero fun _ _ _ _ => ensures_normal
  | block ss =>
    unfold executeStatement enclosed
    rw [Routine.ensures_within, Routine.ensures_call]
    exact ⟨trivial, fun outcome hspec => hspec.1 hzero⟩
  | ifThen condition whenTrue =>
    refine ensures_call_bind hzero fun decision reached hreached _ => ?_
    split
    · exact ensures_jump hreached fun _ hstays => hstays
    · exact ensures_normal
  | ifElse condition whenTrue whenFalse =>
    refine ensures_call_bind hzero fun decision reached hreached _ => ?_
    exact ensures_jump hreached fun _ hstays => hstays
  | «while» condition s =>
    refine ensures_call_bind hzero fun decision reached hreached _ => ?_
    split
    · refine ensures_call_bind hreached fun completion last hlast hspec => ?_
      cases completion with
      | normal => exact ensures_jump hlast fun _ hstays => hstays
      | returned value => exact absurd rfl (hspec.1 hreached value)
    · exact ensures_normal
  | function name parameters ss => exact ensures_normal
  | «return» keyword e =>
    refine Routine.ensures_bind.2 (Routine.ensures_gets.2 ?_)
    show Routine.Ensures _ _ (if state.callDepth = 0 then _ else _) state _
    rw [if_pos hzero]
    intro value h
    cases h

/-- Code that is executed outside all calls does not return from one. -/
theorem stays_of_ends {code : Code} {outcome : Outcome State Fault code.Result}
    (hzero : state.callDepth = 0)
    (h : Routine.Ends (execute setting) (execute setting code) state outcome) :
    code.Stays outcome.1 := by
  let spec (call : Code × State) (outcome : Outcome State Fault call.1.Result) : Prop :=
    call.2.callDepth = 0 → call.1.Stays outcome.1
  have hbody : ∀ call : Code × State, True →
      CallTree.Watched (fun call : Code × State => execute setting call.1 call.2) (fun _ => True)
        spec (execute setting call.1 call.2) (spec call) := by
    rintro ⟨code, state⟩ -
    suffices Routine.Ensures (fun _ => True) (staysOutside setting) (execute setting code) state
        (spec (code, state)) from CallTree.Ensures.weaken this fun _ _ _ => trivial
    by_cases hzero : state.callDepth = 0
    · cases code with
      | expression e => exact ensures_of_forall fun _ _ => trivial
      | arguments es => exact ensures_of_forall fun _ _ => trivial
      | statement s => exact (stays_executeStatement s hzero).mono fun _ hstays _ => hstays
      | body ss =>
        refine Routine.Ensures.mono ?_ fun _ hstays _ => hstays
        cases ss with
        | nil => exact ensures_normal
        | cons s ss =>
          refine ensures_call_bind hzero fun completion reached hreached hspec => ?_
          cases completion with
          | normal => exact ensures_jump hreached fun _ hstays => hstays
          | returned value => exact absurd rfl (hspec.1 hzero value)
    · exact ensures_of_forall fun _ hzero' => absurd hzero' hzero
  have hanswers : CallTree.Answers (fun call : Code × State => execute setting call.1 call.2)
      (code, state) outcome := h
  exact CallTree.Answers.of_watched hbody trivial hanswers hzero

end Code

/-! ## Between programs -/

/-- The states that an interpreter can be in between programs. It begins in the first one; whatever
programs and blocks are executed then, with whatever depths, and what was printed can be taken
away. -/
inductive State.Idle : State → Prop where
  | initial : Idle .initial
  | program {setting : Setting} {rounds : Nat} {program : List Stmt} {state state' : State}
      {result : Except Fault Unit} (h : Idle state)
      (hexecute : Program.execute setting rounds program state = some (result, state')) :
      Idle state'
  | block {setting : Setting} {environment : Environment} {ss : List Stmt} {state : State}
      {outcome : Outcome State Fault Completion} (h : Idle state)
      (hends : Routine.Ends (Code.execute setting) (Code.inside environment ss) state outcome) :
      Idle outcome.2
  | drained {state : State} (h : Idle state) : Idle { state with output := "" }

/-- Nothing of what was under way is left between programs. -/
theorem State.Idle.settled {state : State} (h : state.Idle) :
    state.environment = Store.globals ∧ state.callDepth = 0 := by
  induction h with
  | initial => exact ⟨rfl, rfl⟩
  | @program setting rounds program state state' result _ hexecute ih =>
    obtain ⟨reached, hends, rfl⟩ := Program.ends_of_execute hexecute
    cases result with
    | ok =>
      have hscope : state.SameScope reached :=
        Code.sameScope_of_ends (Run.keeps_steps program) hends
      exact ⟨hscope.1.trans ih.1, hscope.2.trans ih.2⟩
    | error fault => exact ⟨rfl, rfl⟩
  | block _ hends ih =>
    have hscope := Code.sameScope_of_ends (Code.keeps_inside _ _) hends
    exact ⟨hscope.1.trans ih.1, hscope.2.trans ih.2⟩
  | drained _ ih => exact ih

open Code in
/-- Control is given back on every way out. Whatever code is executed in whatever state and setting,
also statements inside any environment: if it ends, in a fault or not, the same can be seen as
before and as many calls are under way; until then no more calls are under way than at the start or
than the limit allows, whether it ever ends or not; and a statement outside all calls does not end
with a value to return. So whenever a program that is executed between programs is over, what can be
seen are the global variables and no call is under way, and each of its statements that did not end
in a fault has ended normally. -/
theorem Code.gives_back_control (setting : Setting) (state : State) :
    (∀ code outcome, Routine.Ends (execute setting) (execute setting code) state outcome →
      outcome.2.environment = state.environment ∧ outcome.2.callDepth = state.callDepth) ∧
    (∀ environment ss outcome,
      Routine.Ends (execute setting) (inside environment ss) state outcome →
        outcome.2.environment = state.environment ∧ outcome.2.callDepth = state.callDepth) ∧
    (∀ code made,
      CallTree.Reaches (fun call : Code × State => execute setting call.1 call.2) (code, state)
        made → made.2.callDepth ≤ max state.callDepth setting.config.maxCallDepth) ∧
    (∀ environment ss made,
      CallTree.Comes (fun call : Code × State => execute setting call.1 call.2)
        (inside environment ss state) made →
          made.2.callDepth ≤ max state.callDepth setting.config.maxCallDepth) ∧
    (state.callDepth = 0 → ∀ s value reached,
      ¬ Routine.Ends (execute setting) (execute setting (statement s)) state
        (.ok (.returned value), reached)) ∧
    (state.Idle → ∀ rounds program result last,
      Program.execute setting rounds program state = some (result, last) →
        last.environment = Store.globals ∧ last.callDepth = 0 ∧
        ∀ before s after reached completion reached', program = before ++ s :: after →
          Program.execute setting rounds before state = some (.ok (), reached) →
          Routine.run (execute setting) rounds (statement s) reached =
            some (.ok completion, reached') → completion = .normal) := by
  refine ⟨fun code outcome h => sameScope_of_ends (keeps_execute code) h,
    fun environment ss outcome h => sameScope_of_ends (keeps_inside environment ss) h,
    fun code made h => callDepth_le_of_reaches h, fun environment ss made h => ?_,
    fun hzero s value reached h => stays_of_ends hzero h value rfl,
    fun hidle rounds program result last hexecute => ?_⟩
  · obtain ⟨first, hfirst, hreaches⟩ := h
    obtain rfl := makes_inside.1 hfirst
    exact callDepth_le_of_reaches hreaches
  · have hlast := (State.Idle.program hidle hexecute).settled
    refine ⟨hlast.1, hlast.2, fun before s after reached completion reached' _ hbefore hrun => ?_⟩
    have hreached := (State.Idle.program hidle hbefore).settled
    have hends := Routine.exists_run_iff_ends.1 ⟨rounds, hrun⟩
    cases completion with
    | normal => rfl
    | returned value => exact absurd rfl (stays_of_ends hreached.2 hends value)

/-- A fault within a block within a call stops the program, and neither the block nor the call is
left behind. -/
theorem Code.gives_back_control_in_call :
    State.initial.Idle ∧ ∃ fault last, Program.execute
      ⟨.default, ∅, ⟨fun _ => .unset, fun _ => 0⟩⟩ 30
      [.function (.identifier "f" 1) [] [.block [.expression
          (.call (.literal .nil) ⟨.rightParen, ")", none, 1⟩ [])]],
        .expression (.call (.read 0 (.identifier "f" 2)) ⟨.rightParen, ")", none, 2⟩ [])] .initial =
        some (.error fault, last) ∧ last.environment = Store.globals ∧ last.callDepth = 0 := by
  have hexecute : ∃ fault last, Program.execute ⟨.default, ∅, ⟨fun _ => .unset, fun _ => 0⟩⟩ 30
      [.function (.identifier "f" 1) [] [.block [.expression
          (.call (.literal .nil) ⟨.rightParen, ")", none, 1⟩ [])]],
        .expression (.call (.read 0 (.identifier "f" 2)) ⟨.rightParen, ")", none, 2⟩ [])] .initial =
        some (.error fault, last) := ⟨_, _, rfl⟩
  obtain ⟨fault, last, hexecute⟩ := hexecute
  obtain ⟨-, -, -, -, -, hinterpret⟩ :=
    gives_back_control ⟨.default, ∅, ⟨fun _ => .unset, fun _ => 0⟩⟩ .initial
  obtain ⟨hglobals, hdepth, -⟩ := hinterpret .initial 30 _ _ last hexecute
  exact ⟨.initial, fault, last, hexecute, hglobals, hdepth⟩

end Lox
