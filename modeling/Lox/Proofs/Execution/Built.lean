/-
# How execution is put together

Executing a piece of code executes pieces directly within it, changes the state as the construct
says, and goes on with values that came of the steps before or that are data. Only a call leaves the
tree: it leads to the body of a function, and the function is a value that came of a step before.
`Code.Built` says so of a step, and `Code.built_execute` of all code. So what holds of every step
that is built this way holds of all execution: of what is executed within a piece of code before it
holds of the piece (`Code.ends_induction`).
-/

import Lox.Proofs.CallTree.Order
import Lox.Proofs.Scope.Place
import Lox.Proofs.Value.Data

namespace Lox

/-- The value that a statement returns, if it does. -/
def Completion.values : Completion → List Value
  | normal => []
  | returned value => [value]

/-- The statement that declares a function. -/
def FunctionDecl.statement (declaration : FunctionDecl) : Stmt :=
  .function declaration.name declaration.parameters declaration.body

namespace Code

/-- The values in what a piece of code ends with. -/
def values : (code : Code) → code.Result → List Value
  | expression _, value => [value]
  | arguments _, values => values
  | statement _, completion => completion.values
  | body _, completion => completion.values

variable {setting : Setting}

/-- What comes of calling a function that every program starts with, at a time. -/
def invoked (caller : Token) (builtin : Builtin) (passed : List Value) (time : Int64) :
    Except Fault Value :=
  (builtin.invoke time passed).mapError fun failure => ⟨caller, .builtin builtin.name failure⟩

/-- Nothing shows that one more call is under way while the clock is looked at. -/
theorem enclosed_now_bind {α : Type} (next : Int64 → Except Fault α) :
    enclosed State.countCall State.endCall
        (now setting >>= fun time => Routine.ofExcept (next time)) =
      now setting >>= fun time => Routine.ofExcept (next time) := rfl

/-- The clock looks at the time, and the other functions that every program starts with need not. -/
theorem perform_builtin (caller : Token) (builtin : Builtin) (passed : List Value) :
    perform setting caller (.builtin builtin) passed =
      if builtin = .clock then
        now setting >>= fun time => Routine.ofExcept (invoked caller builtin passed time)
      else Routine.ofExcept (invoked caller builtin passed 0) := by
  unfold perform invoked
  dsimp only
  split
  · refine (congrArg (enclosed _ _) (bind_congr fun time => ?_)).trans (enclosed_now_bind _)
    cases builtin.invoke time passed <;> rfl
  · rw [Routine.pure_bind]
    cases builtin.invoke 0 passed <;> rfl

theorem yieldsData_invoked (caller : Token) (builtin : Builtin) (passed : List Value)
    (time : Int64) : YieldsData (invoked caller builtin passed time) := by
  have hdata := builtin.yieldsData_invoke time passed
  unfold invoked
  cases hinvoke : builtin.invoke time passed with
  | error failure => exact yieldsData_error
  | ok value => exact yieldsData_ok (hdata value hinvoke)

/-- A step belongs to the execution of some code. It goes on with `known` values, and what it
answers with has those that `values` gives. -/
inductive Built (setting : Setting) (code : Code) :
    (known : List Value) → {α : Type} → (values : α → List Value) → Step α → Prop where
  | pure {known : List Value} {α : Type} {values : α → List Value} {answer : α}
      (h : ∀ value ∈ values answer, value ∈ known ∨ value.IsData) :
      Built setting code known values (Pure.pure answer)
  | fail {known : List Value} {α : Type} {values : α → List Value} {fault : Fault} :
      Built setting code known values (Routine.fail fault : Step α)
  | ofExcept {known : List Value} {result : Except Fault Value} (h : YieldsData result) :
      Built setting code known (fun value => [value]) (Routine.ofExcept result)
  | callDepth {known : List Value} :
      Built setting code known (fun _ => []) (Routine.gets State.callDepth)
  | bind {known : List Value} {α β : Type} {values : α → List Value} {values' : β → List Value}
      {first : Step α} {next : α → Step β} (hfirst : Built setting code known values first)
      (hnext : ∀ answer, Built setting code (values answer ++ known) values' (next answer)) :
      Built setting code known values' (first >>= next)
  | call {known : List Value} {place : Place} {part : Code} (hpart : Part .top code place part)
      (hscopes : place.scopes = []) : Built setting code known part.values (Routine.call part)
  | jump {known : List Value} {place : Place} {part : Code} (hpart : Part .top code place part)
      (hscopes : place.scopes = []) : Built setting code known part.values (Routine.jump part)
  | get {known : List Value} {id : AccessId} {name : Token}
      (hcode : code = .expression (.read id name)) :
      Built setting code known (fun value => [value]) (Routine.step (State.get setting id name))
  | assign {known : List Value} {id : AccessId} {name : Token} {e : Expr} {value : Value}
      (hcode : code = .expression (.assign id name e)) (hvalue : value ∈ known) :
      Built setting code known (fun value => [value])
        (Routine.step (State.assign setting id name value))
  | now {known : List Value} : Built setting code known (fun _ => []) (now setting)
  | print {known : List Value} {line : String} :
      Built setting code known (fun _ => []) (Routine.modify (·.print line))
  | define {known : List Value} {name : Token} {initializer : Option Expr} {value : Value}
      (hcode : code = .statement (.var name initializer)) (hvalue : value ∈ known ∨ value.IsData) :
      Built setting code known (fun _ => []) (Routine.modify (·.define name.lexeme value))
  | declare {known : List Value} {declaration : FunctionDecl}
      (hcode : code = .statement declaration.statement) :
      Built setting code known (fun _ => []) (Routine.modify (·.declare declaration))
  | block {known : List Value} {ss : List Stmt} (hcode : code = .statement (.block ss)) :
      Built setting code known Completion.values
        (enclosed (fun state => state.enter state.environment) id (Routine.call (body ss)))
  | invocation {known : List Value} {callee : Expr} {paren : Token} {es : List Expr}
      {identity : Nat} {declaration : FunctionDecl} {closure : Environment}
      {passed : List (Token × Value)} (hcode : code = .expression (.call callee paren es))
      (hfunction : .callable identity (.function declaration closure) ∈ known)
      (hpassed : ∀ argument ∈ passed, argument.2 ∈ known) :
      Built setting code known Completion.values
        (enclosed (·.beginCall closure passed) State.endCall
          (Routine.call (body declaration.body)))

namespace Built

variable {code : Code} {known : List Value} {place : Place} {part : Code}

/-- The answer of a step is one of the values that are known. -/
theorem pure_known {value : Value} (h : value ∈ known) :
    Built setting code known (fun value => [value]) (Pure.pure value) :=
  .pure fun _ hvalue => .inl (List.mem_singleton.1 hvalue ▸ h)

theorem pure_data {value : Value} (h : value.IsData) :
    Built setting code known (fun value => [value]) (Pure.pure value) :=
  .pure fun _ hvalue => .inr (List.mem_singleton.1 hvalue ▸ h)

theorem pure_normal : Built setting code known Completion.values (Pure.pure .normal) :=
  .pure fun _ hvalue => absurd hvalue List.not_mem_nil

theorem pure_returned {value : Value} (h : value ∈ known ∨ value.IsData) :
    Built setting code known Completion.values (Pure.pure (.returned value)) :=
  .pure fun _ hvalue => List.mem_singleton.1 hvalue ▸ h

/-- Behind a step whose answer has no values the statement is over. -/
theorem andNormal {α : Type} {values : α → List Value} {first : Step α}
    (h : Built setting code known values first) :
    Built setting code known Completion.values (first >>= fun _ => Pure.pure .normal) :=
  .bind h fun _ => pure_normal

end Built

open Built

variable {known : List Value}

/-- A call that is carried out executes the body of a function that came of the callee. -/
theorem built_perform {callee : Expr} {paren caller : Token} {es : List Expr} {identity : Nat}
    {called : Callable} {passed : List Value} (hfunction : .callable identity called ∈ known)
    (hpassed : ∀ value ∈ passed, value ∈ known) :
    Built setting (.expression (.call callee paren es)) known (fun value => [value])
      (perform setting caller called passed) := by
  cases called with
  | function declaration closure =>
    refine .bind (.invocation rfl hfunction ?_) fun completion => ?_
    · exact fun argument hargument => hpassed _ (List.of_mem_zip hargument).2
    · cases completion with
      | normal => exact pure_data fun h => by cases h
      | returned value => exact pure_known List.mem_cons_self
  | builtin builtin =>
    rw [perform_builtin]
    split
    · exact .bind .now fun time => .ofExcept (yieldsData_invoked caller builtin passed time)
    · exact .ofExcept (yieldsData_invoked caller builtin passed 0)

theorem built_evaluateCall (callee : Expr) (paren : Token) (es : List Expr) :
    Built setting (.expression (.call callee paren es)) known (fun value => [value])
      (evaluateCall setting callee paren es) := by
  refine .bind (.call .callee rfl) fun function => ?_
  cases function with
  | callable identity called =>
    refine .bind (.call .arguments rfl) fun passed => .bind .callDepth fun depth => ?_
    split
    · exact .fail
    · split
      · exact .fail
      · have hpassed : ∀ value ∈ passed, value ∈ passed ++ .callable identity called :: known :=
          fun value hvalue => List.mem_append_left _ hvalue
        exact built_perform (List.mem_append_right passed List.mem_cons_self) hpassed
  | _ => exact .fail

theorem built_evaluate (e : Expr) :
    Built setting (.expression e) known (fun value => [value]) (evaluate setting e) := by
  cases e with
  | literal constant => exact pure_data (Value.isData_ofConstant constant)
  | read id name => exact .get rfl
  | assign id name e => exact .bind (.call .assigned rfl) fun _ => .assign rfl List.mem_cons_self
  | unary operator e =>
    exact .bind (.call .operand rfl) fun operand =>
      .ofExcept (Operator.yieldsData_unary operator operand)
  | binary e operator f =>
    exact .bind (.call .binaryLeft rfl) fun left => .bind (.call .binaryRight rfl) fun right =>
      .ofExcept (Operator.yieldsData_binary operator left right)
  | logical e operator f =>
    refine .bind (.call .logicalLeft rfl) fun left => ?_
    have hdecide : ∀ decided : Bool, Built setting (.expression (.logical e operator f))
        (Code.values (.expression e) left ++ known) (fun value => [value])
        (if decided then Pure.pure left else Routine.jump (expression f)) := by
      intro decided
      split
      · exact pure_known List.mem_cons_self
      · exact .jump .logicalRight rfl
    split <;> exact hdecide _
  | conditional condition whenTrue whenFalse =>
    refine .bind (.call .condition rfl) fun decision => ?_
    have hpart : Part .top (.expression (.conditional condition whenTrue whenFalse)) .top
        (.expression (if decision.isTruthy then whenTrue else whenFalse)) := by
      split
      · exact .whenTrue
      · exact .whenFalse
    exact .jump hpart rfl
  | call callee paren es => exact built_evaluateCall callee paren es
  | group e => exact .jump .grouped rfl
  | host keyword e =>
    refine .bind (.call .hostCode rfl) fun code => ?_
    split
    · rename_i answer hanswer
      exact pure_data (setting.host.yieldsData_obey _ _ answer hanswer)
    · exact .fail

theorem built_executeStatement (s : Stmt) :
    Built setting (.statement s) known Completion.values (executeStatement s) := by
  cases s with
  | expression e => exact .andNormal (.call .evaluated rfl)
  | print keyword e => exact .bind (.call .printed rfl) fun _ => .andNormal .print
  | var name initializer =>
    cases initializer with
    | none =>
      refine .bind (pure_data fun h => by cases h) fun start => .andNormal (.define rfl ?_)
      exact .inl List.mem_cons_self
    | some e =>
      refine .bind (.call .initializer rfl) fun start => .andNormal (.define rfl ?_)
      exact .inl List.mem_cons_self
  | block ss => exact .block rfl
  | ifThen condition whenTrue =>
    refine .bind (.call .ifThenCondition rfl) fun decision => ?_
    split
    · exact .jump .ifThenTrue rfl
    · exact pure_normal
  | ifElse condition whenTrue whenFalse =>
    refine .bind (.call .ifElseCondition rfl) fun decision => ?_
    have hpart : Part .top (.statement (.ifElse condition whenTrue whenFalse)) .top
        (.statement (if decision.isTruthy then whenTrue else whenFalse)) := by
      split
      · exact .ifElseTrue
      · exact .ifElseFalse
    exact .jump hpart rfl
  | «while» condition s =>
    refine .bind (.call .whileCondition rfl) fun decision => ?_
    split
    · refine .bind (.call .whileBody rfl) fun completion => ?_
      cases completion with
      | normal => exact .jump .whileAgain rfl
      | returned value => exact pure_returned (.inl List.mem_cons_self)
    · exact pure_normal
  | function name parameters ss =>
    have hdeclare : Built setting (.statement (.function name parameters ss)) known (fun _ => [])
        (Routine.modify (·.declare ⟨name, parameters, ss⟩)) := .declare rfl
    exact hdeclare.andNormal
  | «return» keyword e =>
    refine .bind .callDepth fun depth => ?_
    split
    · exact .fail
    · cases e with
      | none =>
        exact .bind (pure_data fun h => by cases h) fun _ => pure_returned (.inl List.mem_cons_self)
      | some e =>
        exact .bind (.call .returned rfl) fun _ => pure_returned (.inl List.mem_cons_self)

/-- All execution is put together this way. -/
theorem built_execute (code : Code) :
    Built setting code known code.values (execute setting code) := by
  cases code with
  | expression e => exact built_evaluate e
  | arguments es =>
    cases es with
    | nil => exact .pure fun _ hvalue => absurd hvalue List.not_mem_nil
    | cons e es =>
      refine .bind (.call .firstArgument rfl) fun first =>
        .bind (.call .otherArguments rfl) fun others => .pure fun value hvalue => .inl ?_
      rcases List.mem_cons.1 hvalue with rfl | hvalue
      · exact List.mem_append_right _ List.mem_cons_self
      · exact List.mem_append_left _ hvalue
  | statement s => exact built_executeStatement s
  | body ss =>
    cases ss with
    | nil => exact pure_normal
    | cons s ss =>
      refine .bind (.call .firstStatement rfl) fun completion => ?_
      cases completion with
      | normal => exact .jump .otherStatements rfl
      | returned value => exact pure_returned (.inl List.mem_cons_self)

/-- What holds of an execution that ends, if it holds of everything that is executed in it directly,
holds of all executions that end. -/
@[elab_as_elim]
theorem ends_induction {motive : (code : Code) → State → Outcome State Fault code.Result → Prop}
    (hall : ∀ code state outcome,
      (∀ made given, Routine.Makes (execute setting) (execute setting code) state made →
        Routine.Ends (execute setting) (execute setting made.1) made.2 given →
        motive made.1 made.2 given) →
      Routine.Ends (execute setting) (execute setting code) state outcome →
      motive code state outcome)
    {code : Code} {state : State} {outcome : Outcome State Fault code.Result}
    (h : Routine.Ends (execute setting) (execute setting code) state outcome) :
    motive code state outcome := by
  have hanswers : CallTree.Answers (fun call : Code × State => execute setting call.1 call.2)
      (code, state) outcome := h
  have hmotive : ∀ (made : Code × State) given,
      CallTree.Answers (fun call : Code × State => execute setting call.1 call.2) made given →
      (∀ made' given', Routine.Makes (execute setting) (execute setting made.1) made.2 made' →
        CallTree.Answers (fun call : Code × State => execute setting call.1 call.2) made' given' →
        motive made'.1 made'.2 given') → motive made.1 made.2 given :=
    fun made given hends hmade => hall made.1 made.2 given hmade hends
  exact CallTree.Answers.induction hmotive hanswers

end Code

end Lox
