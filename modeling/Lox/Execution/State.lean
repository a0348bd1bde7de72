/-
# The state of an execution

What is around a program while it is executed. Some of it never changes during a run: the
configuration, the depths of variable accesses and the host. The rest does: the store, the frames
that can be seen, the number of calls under way, and what has been printed.
-/

import Lox.CallTree.Routine
import Lox.Scope.Basic
import Lox.Store.Basic

namespace Lox

/-- How programs are to be executed. -/
structure Config where
  /-- Whether variables are found by the depth of the access, rather than by name. -/
  useResolver : Bool
  /-- How many calls can be under way at once. -/
  maxCallDepth : Nat
  allowHost : Bool
  deriving DecidableEq, Repr

namespace Config

/-- The usual configuration. -/
def default : Config := ⟨true, 10000, false⟩

end Config

/-- What never changes while a program is executed. -/
structure Setting where
  config : Config
  depths : DepthTable
  host : Host

/-- What changes while a program is executed: the frames and what can be seen of them, the calls
under way and what has been printed. -/
structure State where
  store : Store
  environment : Environment
  callDepth : Nat
  /-- How often the clock has been read. -/
  clockReadings : Nat
  output : String

namespace State

/-- The state before the first program. -/
def initial : State := ⟨Store.empty.install Store.globals, Store.globals, 0, 0, ""⟩

/-- The state after a program that was stopped: nothing of what was under way is left. -/
def settle (state : State) : State := { state with environment := Store.globals, callDepth := 0 }

/-- Print a line. -/
def print (state : State) (line : String) : State :=
  { state with output := (state.output ++ line).push '\n' }

/-- Declare a variable in the innermost frame. -/
def define (state : State) (name : String) (value : Value) : State :=
  { state with store := state.store.define state.environment name value }

/-- Declare a function, which can see what can be seen here. -/
def declare (state : State) (declaration : FunctionDecl) : State :=
  let (value, store) := state.store.newFunction (.function declaration state.environment)
  { state with store := store.define state.environment declaration.name.lexeme value }

/-- Go into a new frame inside an environment. -/
def enter (state : State) (outer : Environment) : State :=
  let (environment, store) := state.store.child outer
  { state with store, environment }

/-- One more call is under way. -/
def countCall (state : State) : State := { state with callDepth := state.callDepth + 1 }

/-- Begin a call: one more is under way, in a new frame with the arguments. -/
def beginCall (state : State) (outer : Environment) (arguments : List (Token × Value)) : State :=
  let entered := state.enter outer
  arguments.foldl (fun state (parameter, value) => state.define parameter.lexeme value)
    entered.countCall

/-- End a call: one less is under way. -/
def endCall (state : State) : State := { state with callDepth := state.callDepth - 1 }

/-- The variable that an access refers to, found by name or by the depth of the access: the frame it
is in and its value. An access without a depth is one to a global variable. -/
def lookup (setting : Setting) (state : State) (id : AccessId) (name : Token) :
    Except Fault (FrameId × Value) :=
  if setting.config.useResolver then
    match setting.depths[id]? with
    | some depth => state.store.lookupAt state.environment depth name
    | none => state.store.lookup Store.globals name
  else
    state.store.lookup state.environment name

/-- The value of the variable that an access refers to. -/
def get (setting : Setting) (id : AccessId) (name : Token) (state : State) :
    Outcome State Fault Value :=
  ((state.lookup setting id name).map (·.2), state)

/-- Assign to the variable that an access refers to. -/
def assign (setting : Setting) (id : AccessId) (name : Token) (value : Value) (state : State) :
    Outcome State Fault Value :=
  match state.lookup setting id name with
  | .ok (frame, _) =>
    (.ok value, { state with store := state.store.insert frame name.lexeme value })
  | .error fault => (.error fault, state)

end State

end Lox
