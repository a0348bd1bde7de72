/-
# The written form of trees

A tree is written with every construct in parentheses behind a word that names it, so that nothing
depends on precedence. The functions here write behind a text that is already there; that keeps
writing linear in the size of the tree.
-/

import Lox.Tree.Basic

namespace Lox

/-- A constant as it is printed. -/
def Constant.display : Constant → String
  | .nil => "nil"
  | .bool value => if value then "true" else "false"
  | .number value => toString value.toInt
  | .string value => value

/-- A constant as it is written in a tree, where a string stands in quotes. -/
def Constant.render : Constant → String
  | .string value => "\"" ++ value ++ "\""
  | constant => constant.display

mutual

/-- Write an expression behind the text `out`. -/
def Expr.renderOnto (out : String) : Expr → String
  | .literal value => out ++ value.render
  | .read _ name => out ++ name.lexeme
  | .assign _ name value => value.renderOnto (out ++ "(= " ++ name.lexeme ++ " ") ++ ")"
  | .unary operator operand => operand.renderOnto (out ++ "(" ++ operator.lexeme ++ " ") ++ ")"
  | .binary left operator right | .logical left operator right =>
    right.renderOnto (left.renderOnto (out ++ "(" ++ operator.lexeme ++ " ") ++ " ") ++ ")"
  | .conditional condition whenTrue whenFalse =>
    whenFalse.renderOnto
      (whenTrue.renderOnto (condition.renderOnto (out ++ "(?: ") ++ " ") ++ " ") ++ ")"
  | .call callee _ arguments =>
    Expr.renderAllOnto (callee.renderOnto (out ++ "(call ")) arguments ++ ")"
  | .group inner => inner.renderOnto (out ++ "(group ") ++ ")"
  | .host _ code => code.renderOnto (out ++ "(host ") ++ ")"

/-- Write expressions behind the text `out`, each behind a space. -/
def Expr.renderAllOnto (out : String) : List Expr → String
  | [] => out
  | e :: es => Expr.renderAllOnto (e.renderOnto (out ++ " ")) es

end

/-- The written form of an expression. -/
def Expr.render (e : Expr) : String := e.renderOnto ""

mutual

/-- Write a statement behind the text `out`. -/
def Stmt.renderOnto (out : String) : Stmt → String
  | .block body => Stmt.renderAllOnto (out ++ "(block") body ++ ")"
  | .expression value => value.renderOnto (out ++ "(expr ") ++ ")"
  | .function name parameters body =>
    let heading := " (" ++ " ".intercalate (parameters.map (·.lexeme)) ++ ")"
    Stmt.renderAllOnto (out ++ "(fun " ++ name.lexeme ++ heading) body ++ ")"
  | .ifThen condition whenTrue =>
    whenTrue.renderOnto (condition.renderOnto (out ++ "(if ") ++ " ") ++ ")"
  | .ifElse condition whenTrue whenFalse =>
    whenFalse.renderOnto
      (whenTrue.renderOnto (condition.renderOnto (out ++ "(if ") ++ " ") ++ " ") ++ ")"
  | .print _ value => value.renderOnto (out ++ "(print ") ++ ")"
  | .return _ none => out ++ "(return)"
  | .return _ (some value) => value.renderOnto (out ++ "(return ") ++ ")"
  | .var name none => out ++ "(var " ++ name.lexeme ++ ")"
  | .var name (some value) => value.renderOnto (out ++ "(var " ++ name.lexeme ++ " ") ++ ")"
  | .while condition body =>
    body.renderOnto (condition.renderOnto (out ++ "(while ") ++ " ") ++ ")"

/-- Write statements behind the text `out`, each behind a space. -/
def Stmt.renderAllOnto (out : String) : List Stmt → String
  | [] => out
  | s :: ss => Stmt.renderAllOnto (s.renderOnto (out ++ " ")) ss

end

/-- The written form of a statement. -/
def Stmt.render (s : Stmt) : String := s.renderOnto ""

end Lox
