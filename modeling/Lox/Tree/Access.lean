/-
# The variable accesses of a tree

Every place in a program where a variable is read or assigned, listed by the number it carries.
-/

import Lox.Tree.Basic

namespace Lox

/-- A place where a variable is read or assigned. -/
structure Access where
  /-- The number of the place. -/
  id : AccessId
  /-- Whether the variable is assigned there, rather than read. -/
  assigns : Bool
  /-- The variable as it is named there. -/
  name : Token
  deriving DecidableEq, Repr

mutual

/-- The accesses of an expression, last first, before those already `found`. -/
def Expr.accessesOnto (found : List Access) : Expr → List Access
  | .literal _ => found
  | .read id name => ⟨id, false, name⟩ :: found
  | .assign id name value => ⟨id, true, name⟩ :: value.accessesOnto found
  | .unary _ operand => operand.accessesOnto found
  | .binary left _ right | .logical left _ right => right.accessesOnto (left.accessesOnto found)
  | .conditional condition whenTrue whenFalse =>
    whenFalse.accessesOnto (whenTrue.accessesOnto (condition.accessesOnto found))
  | .call callee _ arguments => Expr.allAccessesOnto (callee.accessesOnto found) arguments
  | .group inner => inner.accessesOnto found
  | .host _ code => code.accessesOnto found

/-- The accesses of several expressions, last first, before those already `found`. -/
def Expr.allAccessesOnto (found : List Access) : List Expr → List Access
  | [] => found
  | e :: es => Expr.allAccessesOnto (e.accessesOnto found) es

end

mutual

/-- The accesses of a statement, last first, before those already `found`. -/
def Stmt.accessesOnto (found : List Access) : Stmt → List Access
  | .block body => Stmt.allAccessesOnto found body
  | .expression value => value.accessesOnto found
  | .function _ _ body => Stmt.allAccessesOnto found body
  | .ifThen condition whenTrue => whenTrue.accessesOnto (condition.accessesOnto found)
  | .ifElse condition whenTrue whenFalse =>
    whenFalse.accessesOnto (whenTrue.accessesOnto (condition.accessesOnto found))
  | .print _ value => value.accessesOnto found
  | .return _ none => found
  | .return _ (some value) => value.accessesOnto found
  | .var _ none => found
  | .var _ (some value) => value.accessesOnto found
  | .while condition body => body.accessesOnto (condition.accessesOnto found)

/-- The accesses of several statements, last first, before those already `found`. -/
def Stmt.allAccessesOnto (found : List Access) : List Stmt → List Access
  | [] => found
  | s :: ss => Stmt.allAccessesOnto (s.accessesOnto found) ss

end

/-- The accesses of a program, in the order of their numbers. -/
def Access.ofProgram (program : List Stmt) : List Access :=
  (Stmt.allAccessesOnto [] program).mergeSort fun a b => a.id ≤ b.id

end Lox
