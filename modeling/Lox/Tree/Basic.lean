/-
# Program trees

Expressions and statements as the grammar builds them. A tree keeps the tokens that failures point
at, and each place where a variable is read or assigned carries a number of its own, by which the
scope that the variable belongs to can be looked up.
-/

import Lox.Token.Basic

namespace Lox

/-- A value that a program spells out. -/
inductive Constant where
  | nil
  | bool (value : Bool)
  | number (value : Int64)
  | string (value : String)
  deriving DecidableEq, Repr

/-- The number of a place where a variable is read or assigned: how many such numbers were given out
before it, in all programs so far. A session finds the place by the low 32 bits of the number. -/
abbrev AccessId := Nat

/-- An expression. -/
inductive Expr where
  | literal (value : Constant)
  | read (id : AccessId) (name : Token)
  | assign (id : AccessId) (name : Token) (value : Expr)
  | unary (operator : Token) (operand : Expr)
  | binary (left : Expr) (operator : Token) (right : Expr)
  /-- `and` or `or`, which evaluates its right operand only if the left one does not decide. -/
  | logical (left : Expr) (operator : Token) (right : Expr)
  | conditional (condition whenTrue whenFalse : Expr)
  /-- A call, with the parenthesis that closes it. -/
  | call (callee : Expr) (paren : Token) (arguments : List Expr)
  | group (inner : Expr)
  | host (keyword : Token) (code : Expr)
  deriving Repr

/-- A statement. There is none for `for` loops, which are `while` loops in a block. -/
inductive Stmt where
  | block (body : List Stmt)
  | expression (value : Expr)
  | function (name : Token) (parameters : List Token) (body : List Stmt)
  | ifThen (condition : Expr) (whenTrue : Stmt)
  | ifElse (condition : Expr) (whenTrue whenFalse : Stmt)
  | print (keyword : Token) (value : Expr)
  /-- The return from a function; without a value it returns `nil`. -/
  | return (keyword : Token) (value : Option Expr)
  /-- The declaration of a variable; without an initializer it starts as `nil`. -/
  | var (name : Token) (initializer : Option Expr)
  | while (condition : Expr) (body : Stmt)
  deriving Repr

/-- What a function declaration says about the function. -/
structure FunctionDecl where
  name : Token
  parameters : List Token
  body : List Stmt
  deriving Repr

end Lox
