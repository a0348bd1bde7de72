/-
# The depths of the variable accesses of a program

A program is gone through once, in the order it is written, and the depth of each access is noted
down when the access is met. So a name refers to what has been declared before it, not to what may
be declared later in the same scope. A variable is declared from the start of its own initializer, a
function from before its body, and parameters share the scope of the body.
-/

import Lox.Scope.Basic

namespace Lox

/-- What is known part of the way through a program. -/
structure Resolution where
  /-- The local scopes around, the innermost first. -/
  scopes : List Scope
  /-- The depths found so far. -/
  depths : BindingDepths
  /-- What is wrong so far, the latest first. -/
  errors : List ResolveError

namespace Resolution

/-- The start of a program. -/
def initial : Resolution := ⟨[], ∅, []⟩

/-- Go into a new scope. -/
def enter (r : Resolution) : Resolution := { r with scopes := [] :: r.scopes }

/-- Go out of the innermost scope. -/
def leave (r : Resolution) : Resolution := { r with scopes := r.scopes.tail }

/-- Record a name in the innermost scope. At the top level there is nothing to record. -/
def note (r : Resolution) (name : Token) (readable : Bool) : Resolution :=
  match r.scopes with
  | [] => r
  | scope :: scopes => { r with scopes := ((name.lexeme, readable) :: scope) :: scopes }

/-- Declare a name that cannot be read yet. -/
def declare (r : Resolution) (name : Token) : Resolution := r.note name false

/-- Declare a name, or make it readable. -/
def define (r : Resolution) (name : Token) : Resolution := r.note name true

/-- Record that a rule is broken at a token. -/
def reject (r : Resolution) (problem : ResolveProblem) (token : Token) : Resolution :=
  { r with errors := ⟨problem, token⟩ :: r.errors }

/-- Note down the depth of an access, unless the variable is global. -/
def access (r : Resolution) (id : AccessId) (name : Token) : Resolution :=
  match Scope.depthOf? name.lexeme r.scopes with
  | some depth => { r with depths := r.depths.insert id depth }
  | none => r

/-- Whether the innermost scope declares a name that cannot be read yet. -/
def isUnreadable (r : Resolution) (name : Token) : Bool :=
  (r.scopes.head?.bind (List.lookup name.lexeme)) == some false

/-- Note down the depth of an access that reads the variable. -/
def readAccess (r : Resolution) (id : AccessId) (name : Token) : Resolution :=
  (if r.isUnreadable name then r.reject .readInOwnInitializer name else r).access id name

end Resolution

mutual

/-- Go through an expression. -/
def Expr.resolve (r : Resolution) : Expr → Resolution
  | .literal _ => r
  | .read id name => r.readAccess id name
  | .assign id name value => (value.resolve r).access id name
  | .unary _ operand => operand.resolve r
  | .binary left _ right | .logical left _ right => right.resolve (left.resolve r)
  | .conditional condition whenTrue whenFalse =>
    whenFalse.resolve (whenTrue.resolve (condition.resolve r))
  | .call callee _ arguments => Expr.resolveAll (callee.resolve r) arguments
  | .group inner => inner.resolve r
  | .host _ code => code.resolve r

/-- Go through expressions one after another. -/
def Expr.resolveAll (r : Resolution) : List Expr → Resolution
  | [] => r
  | e :: es => Expr.resolveAll (e.resolve r) es

end

mutual

/-- Go through a statement, which may stand within a function or outside every one. -/
def Stmt.resolve (inFunction : Bool) (r : Resolution) : Stmt → Resolution
  | .block body => (Stmt.resolveAll inFunction r.enter body).leave
  | .expression value => value.resolve r
  | .function name parameters body =>
    (Stmt.resolveAll true (parameters.foldl Resolution.define (r.define name).enter) body).leave
  | .ifThen condition whenTrue => whenTrue.resolve inFunction (condition.resolve r)
  | .ifElse condition whenTrue whenFalse =>
    whenFalse.resolve inFunction (whenTrue.resolve inFunction (condition.resolve r))
  | .print _ value => value.resolve r
  | .return keyword value =>
    let r := if inFunction then r else r.reject .topLevelReturn keyword
    match value with
    | none => r
    | some value => value.resolve r
  | .var name initializer =>
    let r := r.declare name
    match initializer with
    | none => r.define name
    | some value => (value.resolve r).define name
  | .while condition body => body.resolve inFunction (condition.resolve r)

/-- Go through statements one after another. -/
def Stmt.resolveAll (inFunction : Bool) (r : Resolution) : List Stmt → Resolution
  | [] => r
  | s :: ss => Stmt.resolveAll inFunction (s.resolve inFunction r) ss

end

/-- The depths of the variable accesses of a program, or everything that is wrong with its
scoping. -/
def Program.bindingDepths (program : List Stmt) : Except (List ResolveError) BindingDepths :=
  let r := Stmt.resolveAll false .initial program
  match r.errors with
  | [] => .ok r.depths
  | errors => .error errors.reverse

end Lox
