/-
# What expressions and statements do

One procedure for each piece of a program tree executes it. A statement ends normally or returns a
value from the call it belongs to; an expression has a value; either may end in a fault instead.
Whatever way a block or a call ends, what could be seen before it and the number of calls under way
are as before.
-/

import Lox.Execution.State
import Lox.Value.Operator

namespace Lox

/-- How a statement ends if not in a fault. -/
inductive Completion where
  /-- Execution goes on with what follows. -/
  | normal
  /-- The call that the statement belongs to is to return a value. -/
  | returned (value : Value)
  deriving Repr

/-- A piece of a program to be executed. -/
inductive Code where
  /-- An expression. -/
  | expression (e : Expr)
  /-- Expressions, from the first to the last. -/
  | arguments (es : List Expr)
  /-- A statement. -/
  | statement (s : Stmt)
  /-- Statements, up to the first that returns. -/
  | body (ss : List Stmt)

namespace Code

/-- What a piece of a program ends with. -/
abbrev Result : Code → Type
  | expression _ => Value
  | arguments _ => List Value
  | statement _ => Completion
  | body _ => Completion

/-- A step in executing a program. -/
abbrev Step (α : Type) : Type := Routine State Fault Result α

/-- The value of an expression. -/
def value (e : Expr) : Step Value := Routine.call (expression e)

/-- Do a step behind `enter`. However it ends, what could be seen before is put back, and `leave` is
done. -/
def enclosed {α : Type} (enter leave : State → State) (inner : Step α) : Step α :=
  .within State.environment enter (fun environment state => leave { state with environment }) inner

/-- The time now. -/
def now (setting : Setting) : Step Int64 :=
  .step fun state =>
    (.ok (setting.host.clock state.clockReadings),
      { state with clockReadings := state.clockReadings + 1 })

/-- The name that a call goes by in a fault that happens within it: that of the variable called, or
else that of the function. -/
def calledName (callee : Expr) (called : Callable) : String :=
  match callee with
  | .read _ name => name.lexeme
  | _ => called.name

/-- Carry out a call whose number of arguments is right. -/
def perform (setting : Setting) (caller : Token) (called : Callable) (arguments : List Value) :
    Step Value :=
  match called with
  | .function declaration closure => do
    let completion ← enclosed (·.beginCall closure (declaration.parameters.zip arguments))
      State.endCall (Routine.call (body declaration.body))
    match completion with
    | .normal => pure .nil
    | .returned value => pure value
  | .builtin builtin =>
    enclosed State.countCall State.endCall do
      let time ← if builtin = .clock then now setting else pure 0
      match builtin.invoke time arguments with
      | .ok value => pure value
      | .error failure => Routine.fail ⟨caller, .builtin builtin.name failure⟩

/-- Evaluate a call: the callee, the arguments, and then the call itself, if the number of arguments
is right and no more calls than allowed are under way. -/
def evaluateCall (setting : Setting) (callee : Expr) (paren : Token) (es : List Expr) :
    Step Value := do
  let function ← value callee
  match function with
  | .callable _ called =>
    let passed ← (Routine.call (arguments es) : Step (List Value))
    let depth ← Routine.gets State.callDepth
    if passed.length ≠ called.arity then
      Routine.fail ⟨paren, .wrongArity called.name called.arity passed.length⟩
    else if setting.config.maxCallDepth ≤ depth then
      Routine.fail ⟨paren, .stackOverflow setting.config.maxCallDepth⟩
    else
      perform setting (.identifier (calledName callee called) paren.line) called passed
  | other => Routine.fail ⟨paren, .notCallable other.type⟩

/-- Evaluate an expression. -/
def evaluate (setting : Setting) : Expr → Step Value
  | .literal constant => pure (.ofConstant constant)
  | .read id name => Routine.step (State.get setting id name)
  | .assign id name e => do
    let assigned ← value e
    Routine.step (State.assign setting id name assigned)
  | .unary operator e => do
    let operand ← value e
    Routine.ofExcept (Operator.unary operator operand)
  | .binary e operator f => do
    let left ← value e
    let right ← value f
    Routine.ofExcept (Operator.binary operator left right)
  | .logical e operator f => do
    let left ← value e
    let decided := if operator.kind = .or then left.isTruthy else !left.isTruthy
    if decided then pure left else Routine.jump (expression f)
  | .conditional condition whenTrue whenFalse => do
    let decision ← value condition
    Routine.jump (expression (if decision.isTruthy then whenTrue else whenFalse))
  | .call callee paren es => evaluateCall setting callee paren es
  | .group e => Routine.jump (expression e)
  | .host keyword e => do
    let code ← value e
    match setting.host.obey setting.config.allowHost code.display with
    | .ok answer => pure answer
    | .error failure => Routine.fail ⟨keyword, .host failure⟩

/-- Execute a statement. -/
def executeStatement : Stmt → Step Completion
  | .expression e => do
    let _ ← value e
    pure .normal
  | .print _ e => do
    let printed ← value e
    Routine.modify (·.print printed.display)
    pure .normal
  | .var name initializer => do
    let start ← match initializer with
      | some e => value e
      | none => pure .nil
    Routine.modify (·.define name.lexeme start)
    pure .normal
  | .block ss => enclosed (fun state => state.enter state.environment) id (Routine.call (body ss))
  | .ifThen condition whenTrue => do
    let decision ← value condition
    if decision.isTruthy then Routine.jump (statement whenTrue) else pure .normal
  | .ifElse condition whenTrue whenFalse => do
    let decision ← value condition
    Routine.jump (statement (if decision.isTruthy then whenTrue else whenFalse))
  | .while condition s => do
    let decision ← value condition
    if decision.isTruthy then
      let completion ← Routine.call (statement s)
      match completion with
      | .normal => Routine.jump (statement (.while condition s))
      | .returned value => pure (.returned value)
    else
      pure .normal
  | .function name parameters ss => do
    Routine.modify (·.declare ⟨name, parameters, ss⟩)
    pure .normal
  | .return keyword e => do
    let depth ← Routine.gets State.callDepth
    if depth = 0 then
      Routine.fail ⟨keyword, .returnOutsideFunction⟩
    else
      let returned ← match e with
        | some e => value e
        | none => pure .nil
      pure (.returned returned)

/-- Execute a piece of a program. -/
def execute (setting : Setting) : (code : Code) → Step code.Result
  | expression e => evaluate setting e
  | arguments [] => pure []
  | arguments (e :: es) => do
    let first ← value e
    let others ← (Routine.call (arguments es) : Step (List Value))
    pure (first :: others)
  | statement s => executeStatement s
  | body [] => pure .normal
  | body (s :: ss) => do
    let completion ← (Routine.call (statement s) : Step Completion)
    match completion with
    | .normal => Routine.jump (body ss)
    | .returned value => pure (.returned value)

end Code

end Lox
