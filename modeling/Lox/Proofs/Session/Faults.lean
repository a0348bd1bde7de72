/-
# Where faults come from

A run that is stopped by a fault has come to some code that raised it: the fault is not one of a
part of that code. `Run.Raises` lists the ways in which code does so, with what has been computed on
the way (`Run.exists_raises`). And nothing ever catches a fault: as soon as some code ends in one,
the run does (`Run.Comes.ends_error`).
-/

import Lox.Proofs.Session.Functions

namespace Lox

namespace Run

/-- Code raises a fault of its own when it is executed in a run. -/
inductive Raises (run : Run) : Code → State → Fault → Prop where
  | read {id : AccessId} {name : Token} {state : State} {fault : Fault}
      (hlookup : state.lookup run.setting id name = .error fault) :
      Raises run (.expression (.read id name)) state fault
  | assign {id : AccessId} {name : Token} {e : Expr} {state reached : State} {value : Value}
      {fault : Fault} (hvalue : run.Answers (.expression e) state (.ok value, reached))
      (hlookup : reached.lookup run.setting id name = .error fault) :
      Raises run (.expression (.assign id name e)) state fault
  | unary {operator : Token} {e : Expr} {state reached : State} {operand : Value} {fault : Fault}
      (hoperand : run.Answers (.expression e) state (.ok operand, reached))
      (hoperator : Operator.unary operator operand = .error fault) :
      Raises run (.expression (.unary operator e)) state fault
  | binary {operator : Token} {e f : Expr} {state middle reached : State} {left right : Value}
      {fault : Fault} (hleft : run.Answers (.expression e) state (.ok left, middle))
      (hright : run.Answers (.expression f) middle (.ok right, reached))
      (hoperator : Operator.binary operator left right = .error fault) :
      Raises run (.expression (.binary e operator f)) state fault
  | notCallable {callee : Expr} {paren : Token} {es : List Expr} {state reached : State}
      {value : Value} (hcallee : run.Answers (.expression callee) state (.ok value, reached))
      (hdata : value.IsData) :
      Raises run (.expression (.call callee paren es)) state ⟨paren, .notCallable value.type⟩
  | wrongArity {callee : Expr} {paren : Token} {es : List Expr} {state middle reached : State}
      {identity : Nat} {called : Callable} {passed : List Value}
      (hcallee : run.Answers (.expression callee) state (.ok (.callable identity called), middle))
      (hpassed : run.Answers (.arguments es) middle (.ok passed, reached))
      (harity : passed.length ≠ called.arity) :
      Raises run (.expression (.call callee paren es)) state
        ⟨paren, .wrongArity called.name called.arity passed.length⟩
  | stackOverflow {callee : Expr} {paren : Token} {es : List Expr} {state middle reached : State}
      {identity : Nat} {called : Callable} {passed : List Value}
      (hcallee : run.Answers (.expression callee) state (.ok (.callable identity called), middle))
      (hpassed : run.Answers (.arguments es) middle (.ok passed, reached))
      (harity : passed.length = called.arity)
      (hdepth : run.setting.config.maxCallDepth ≤ reached.callDepth) :
      Raises run (.expression (.call callee paren es)) state
        ⟨paren, .stackOverflow run.setting.config.maxCallDepth⟩
  | builtin {callee : Expr} {paren : Token} {es : List Expr} {state middle reached : State}
      {identity : Nat} {builtin : Builtin} {passed : List Value} {time : Int64}
      {failure : Builtin.Failure}
      (hcallee : run.Answers (.expression callee) state
        (.ok (.callable identity (.builtin builtin)), middle))
      (hpassed : run.Answers (.arguments es) middle (.ok passed, reached))
      (hfailure : builtin.invoke time passed = .error failure) :
      Raises run (.expression (.call callee paren es)) state
        ⟨.identifier (Code.calledName callee (.builtin builtin)) paren.line,
          .builtin builtin.name failure⟩
  | host {keyword : Token} {e : Expr} {state reached : State} {code : Value}
      {failure : Host.Failure} (hcode : run.Answers (.expression e) state (.ok code, reached))
      (hfailure : run.setting.host.obey run.setting.config.allowHost code.display =
        .error failure) :
      Raises run (.expression (.host keyword e)) state ⟨keyword, .host failure⟩
  | return {keyword : Token} {e : Option Expr} {state : State} (hdepth : state.callDepth = 0) :
      Raises run (.statement (.return keyword e)) state ⟨keyword, .returnOutsideFunction⟩

/-! ## Faults are raised -/

/-- An outcome is a fault only if the fault is as claimed. -/
def Blames {α : Type} (claim : Fault → Prop) (outcome : Outcome State Fault α) : Prop :=
  ∀ fault, outcome.1 = .error fault → claim fault

theorem blames_ok {α : Type} {claim : Fault → Prop} {answer : α} {state : State} :
    Blames claim (.ok answer, state) := by
  intro fault h
  cases h

theorem blames_error {α : Type} {claim : Fault → Prop} {fault : Fault} {state : State}
    (h : claim fault) : Blames (α := α) claim (.error fault, state) := by
  intro fault' h'
  cases h'
  exact h

/-- Steps end in a fault only if it is as claimed, provided that what they come to does. -/
def Traces (run : Run) (claim : Fault → Prop) {α : Type} (step : Code.Step α) (state : State) :
    Prop :=
  Routine.Ensures (fun _ => True)
    (fun made outcome => Blames claim outcome ∧ run.Answers made.1 made.2 outcome) step state
    (Blames claim)

namespace Traces

variable {α : Type} {run : Run} {claim : Fault → Prop} {state : State} {code : Code}

theorem call_bind {next : code.Result → Code.Step α}
    (hnext : ∀ answer reached, run.Answers code state (.ok answer, reached) →
      Traces run claim (next answer) reached) :
    Traces run claim (Routine.call code >>= next) state := by
  apply Routine.Ensures.call_bind
  · trivial
  · exact fun fault reached hspec => blames_error (hspec.1 fault rfl)
  · exact fun answer reached hspec => hnext answer reached hspec.2

theorem jump : Traces run claim (Routine.jump code) state :=
  Routine.ensures_jump.2 ⟨trivial, fun _ hspec => hspec.1⟩

theorem bind {β : Type} {first : Code.Step β} {next : β → Code.Step α}
    (hfirst : Traces run claim first state)
    (hnext : ∀ answer reached, Traces run claim (next answer) reached) :
    Traces run claim (first >>= next) state := by
  apply Routine.ensures_bind.2
  apply Routine.Ensures.mono hfirst
  rintro ⟨fault | answer, reached⟩ hblames
  · exact blames_error (hblames fault rfl)
  · exact hnext answer reached

/-- The statements of a block or a function are executed within a frame of their own. -/
theorem enclosed {enter leave : State → State} {ss : List Stmt} :
    Traces run claim (Code.enclosed enter leave (Routine.call (Code.body ss))) state := by
  apply Routine.ensures_within.2
  exact Routine.ensures_call.2 ⟨trivial, fun _ hspec => hspec.1⟩

end Traces

section Origin

variable {run : Run} {claim : Fault → Prop} {state : State}

theorem traces_evaluateCall {callee : Expr} {paren : Token} {es : List Expr}
    (hraise : ∀ fault, run.Raises (.expression (.call callee paren es)) state fault →
      claim fault) :
    Traces run claim (Code.evaluateCall run.setting callee paren es) state := by
  apply Traces.call_bind
  intro function middle hcallee
  cases function with
  | callable identity called =>
    apply Traces.call_bind
    intro passed reached hpassed
    apply Routine.ensures_bind.2
    apply Routine.ensures_gets.2
    dsimp only
    split
    · rename_i harity
      exact blames_error (hraise _ (.wrongArity hcallee hpassed harity))
    · rename_i harity
      split
      · rename_i hdepth
        exact blames_error
          (hraise _ (.stackOverflow hcallee hpassed (Decidable.not_not.1 harity) hdepth))
      · cases called with
        | function declaration closure =>
          apply Traces.bind Traces.enclosed
          intro completion last
          cases completion <;> exact blames_ok
        | builtin builtin =>
          have hblames : ∀ (time : Int64) (last : State), Blames claim
              (Code.invoked (.identifier (Code.calledName callee (.builtin builtin)) paren.line)
                builtin passed time, last) := by
            intro time last
            unfold Code.invoked
            cases hinvoke : builtin.invoke time passed with
            | error failure => exact blames_error (hraise _ (.builtin hcallee hpassed hinvoke))
            | ok value => exact blames_ok
          rw [Code.perform_builtin]
          split
          · apply Routine.ensures_bind.2
            exact hblames _ _
          · exact hblames 0 reached
  | nil | bool | number | string =>
    exact blames_error (hraise _ (.notCallable hcallee fun h => by cases h))

theorem traces_evaluate {e : Expr}
    (hraise : ∀ fault, run.Raises (.expression e) state fault → claim fault) :
    Traces run claim (Code.evaluate run.setting e) state := by
  cases e with
  | literal constant => exact blames_ok
  | read id name =>
    intro fault hfault
    apply hraise
    apply Raises.read
    unfold State.get at hfault
    cases hlookup : state.lookup run.setting id name with
    | error fault' =>
      rw [hlookup] at hfault
      cases hfault
      rfl
    | ok found =>
      rw [hlookup] at hfault
      cases hfault
  | assign id name e =>
    apply Traces.call_bind
    intro value reached hvalue fault hfault
    apply hraise
    apply Raises.assign hvalue
    unfold State.assign at hfault
    cases hlookup : reached.lookup run.setting id name with
    | error fault' =>
      rw [hlookup] at hfault
      cases hfault
      rfl
    | ok found =>
      rw [hlookup] at hfault
      cases hfault
  | unary operator e =>
    apply Traces.call_bind
    intro operand reached hoperand fault hfault
    exact hraise fault (.unary hoperand hfault)
  | binary e operator f =>
    apply Traces.call_bind
    intro left middle hleft
    apply Traces.call_bind
    intro right reached hright fault hfault
    exact hraise fault (.binary hleft hright hfault)
  | logical e operator f =>
    apply Traces.call_bind
    intro left reached hleft
    have hdecide : ∀ decided : Bool, Traces run claim
        (if decided then pure left else Routine.jump (Code.expression f)) reached := by
      intro decided
      split
      · exact blames_ok
      · exact Traces.jump
    split <;> exact hdecide _
  | conditional condition whenTrue whenFalse =>
    apply Traces.call_bind
    intro decision reached hdecision
    exact Traces.jump
  | call callee paren es => exact traces_evaluateCall hraise
  | group e => exact Traces.jump
  | host keyword e =>
    apply Traces.call_bind
    intro code reached hcode
    split
    · exact blames_ok
    · rename_i failure hfailure
      exact blames_error (hraise _ (.host hcode hfailure))

theorem traces_executeStatement {s : Stmt}
    (hraise : ∀ fault, run.Raises (.statement s) state fault → claim fault) :
    Traces run claim (Code.executeStatement s) state := by
  cases s with
  | expression e => exact Traces.call_bind fun _ _ _ => blames_ok
  | print keyword e => exact Traces.call_bind fun _ _ _ => blames_ok
  | var name initializer =>
    cases initializer with
    | none => exact blames_ok
    | some e => exact Traces.call_bind fun _ _ _ => blames_ok
  | block ss => exact Traces.enclosed
  | ifThen condition whenTrue =>
    apply Traces.call_bind
    intro decision reached hdecision
    split
    · exact Traces.jump
    · exact blames_ok
  | ifElse condition whenTrue whenFalse =>
    apply Traces.call_bind
    intro decision reached hdecision
    exact Traces.jump
  | «while» condition s =>
    apply Traces.call_bind
    intro decision reached hdecision
    split
    · apply Traces.call_bind
      intro completion last hcompletion
      cases completion with
      | normal => exact Traces.jump
      | returned value => exact blames_ok
    · exact blames_ok
  | function name parameters ss => exact blames_ok
  | «return» keyword e =>
    apply Routine.ensures_bind.2
    apply Routine.ensures_gets.2
    dsimp only
    split
    · rename_i hdepth
      exact blames_error (hraise _ (.return hdepth))
    · cases e with
      | none => exact blames_ok
      | some e => exact Traces.call_bind fun _ _ _ => blames_ok

theorem traces_execute {code : Code}
    (hraise : ∀ fault, run.Raises code state fault → claim fault) :
    Traces run claim (Code.execute run.setting code) state := by
  cases code with
  | expression e => exact traces_evaluate hraise
  | arguments es =>
    cases es with
    | nil => exact blames_ok
    | cons e es => exact Traces.call_bind fun _ _ _ => Traces.call_bind fun _ _ _ => blames_ok
  | statement s => exact traces_executeStatement hraise
  | body ss =>
    cases ss with
    | nil => exact blames_ok
    | cons s ss =>
      apply Traces.call_bind
      intro completion reached hcompletion
      cases completion with
      | normal => exact Traces.jump
      | returned value => exact blames_ok

/-- A fault that stops a run was raised by some code that the run came to. -/
theorem exists_raises {fault : Fault} {reached : State} (h : run.Ends (.error fault) reached) :
    ∃ code state, run.Comes (code, state) ∧ run.Raises code state fault := by
  let claim : Fault → Prop :=
    fun fault => ∃ code state, run.Comes (code, state) ∧ run.Raises code state fault
  have hsteps : ∀ (program : List Stmt) (state : State),
      Traces run claim (Program.steps program) state := by
    intro program
    induction program with
    | nil => exact fun _ => blames_ok
    | cons s ss ih => exact fun _ => Traces.call_bind fun _ reached _ => ih reached
  have hbody : ∀ call : Code × State, run.Comes call →
      Traces run claim (Code.execute run.setting call.1) call.2 :=
    fun call hcomes => traces_execute fun fault hraises => ⟨call.1, call.2, hcomes, hraises⟩
  have hblames := CallTree.Ends.of_comes hbody (hsteps run.program run.state) h
  exact hblames fault rfl

end Origin

/-! ## Faults are not caught -/

/-- A step ends in every fault that something ends in that it comes to. -/
def PassesOn (setting : Setting) {α : Type} (step : Code.Step α) : Prop :=
  ∀ (state : State) (made : Code × State) (fault : Fault) (reached : State),
    Routine.Makes (Code.execute setting) step state made →
    Routine.Ends (Code.execute setting) (Code.execute setting made.1) made.2
      (.error fault, reached) →
    ∃ reached', Routine.Ends (Code.execute setting) step state (.error fault, reached')

section PassesOn

variable {setting : Setting} {α : Type}

theorem passesOn_call (code : Code) : PassesOn setting (Routine.call code) := by
  intro state made fault reached hmakes hends
  obtain rfl := Routine.makes_call.1 hmakes
  exact ⟨reached, Routine.ends_call.2 hends⟩

theorem passesOn_jump (code : Code) : PassesOn setting (Routine.jump code) := by
  intro state made fault reached hmakes hends
  obtain rfl := Routine.makes_jump.1 hmakes
  exact ⟨reached, Routine.ends_jump.2 hends⟩

theorem PassesOn.bind {β : Type} {first : Code.Step β} {next : β → Code.Step α}
    (hfirst : PassesOn setting first) (hnext : ∀ answer, PassesOn setting (next answer)) :
    PassesOn setting (first >>= next) := by
  intro state made fault reached hmakes hends
  rcases Routine.makes_bind.1 hmakes with hmakes | ⟨answer, middle, hanswer, hmakes⟩
  · obtain ⟨last, hlast⟩ := hfirst state made fault reached hmakes hends
    exact ⟨last, hlast.bind_error⟩
  · obtain ⟨last, hlast⟩ := hnext answer middle made fault reached hmakes hends
    exact ⟨last, hanswer.bind hlast⟩

theorem passesOn_enclosed (enter leave : State → State) (ss : List Stmt) :
    PassesOn setting (Code.enclosed enter leave (Routine.call (Code.body ss))) := by
  intro state made fault reached hmakes hends
  obtain ⟨last, hlast⟩ :=
    passesOn_call (.body ss) (enter state) made fault reached (Routine.makes_within.1 hmakes) hends
  exact ⟨_, Routine.ends_within.2 ⟨.error fault, last, hlast, rfl⟩⟩

theorem passesOn_execute (code : Code) : PassesOn setting (Code.execute setting code) := by
  have hall : Code.Inherited setting (fun step => PassesOn setting step) := {
    pure := fun _ _ _ _ _ h => absurd h Routine.not_makes_pure
    fail := fun _ _ _ _ _ h => absurd h Routine.not_makes_fail
    ofExcept := fun _ _ _ _ _ h => absurd h Routine.not_makes_ofExcept
    gets := fun _ _ _ _ _ h => absurd h Routine.not_makes_gets
    bind := .bind
    call := passesOn_call
    jump := passesOn_jump
    get := fun _ _ _ _ _ _ h => absurd h Routine.not_makes_step
    assign := fun _ _ _ _ _ _ _ h => absurd h Routine.not_makes_step
    now := fun _ _ _ _ h => absurd h Routine.not_makes_step
    print := fun _ _ _ _ _ h => absurd h Routine.not_makes_modify
    define := fun _ _ _ _ _ _ h => absurd h Routine.not_makes_modify
    declare := fun _ _ _ _ _ h => absurd h Routine.not_makes_modify
    block := fun ss => passesOn_enclosed _ _ ss
    invocation := fun _ _ ss => passesOn_enclosed _ _ ss }
  exact hall.execute code

theorem passesOn_steps (program : List Stmt) : PassesOn setting (Program.steps program) := by
  induction program with
  | nil => exact fun _ _ _ _ h => absurd h Routine.not_makes_pure
  | cons s ss ih => exact (passesOn_call _).bind fun _ => ih

end PassesOn

theorem Reaches.ends_error {run : Run} {call made : Code × State} {fault : Fault}
    {reached : State} (h : run.Reaches call made)
    (hfault : run.Answers made.1 made.2 (.error fault, reached)) :
    ∃ last, run.Answers call.1 call.2 (.error fault, last) := by
  unfold Reaches at h
  induction h using Relation.ReflTransGen.head_induction_on with
  | refl => exact ⟨reached, hfault⟩
  | @head call next hmakes _ ih =>
    obtain ⟨last, hlast⟩ := ih
    exact passesOn_execute call.1 call.2 next fault last hmakes hlast

/-- Whatever a run comes to, if it ends in a fault, the run ends in it as well. -/
theorem Comes.ends_error {run : Run} {made : Code × State} {fault : Fault} {reached : State}
    (h : run.Comes made) (hfault : run.Answers made.1 made.2 (.error fault, reached)) :
    ∃ last, run.Ends (.error fault) last := by
  obtain ⟨first, hmakes, hreaches⟩ := h
  obtain ⟨last, hlast⟩ := Reaches.ends_error hreaches hfault
  exact passesOn_steps run.program run.state first fault last hmakes hlast

end Run

end Lox
