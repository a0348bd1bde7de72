/-
# Operators

What the operators make of their operands. Arithmetic is that of the integers; a result that does
not fit 64 bits is a fault, never another number.
-/

import Lox.Fault

namespace Lox.Operator

/-- An integer as a number, if it fits 64 bits. -/
def number? (result : Int) : Option Int64 :=
  if Int64.minValue.toInt ≤ result ∧ result ≤ Int64.maxValue.toInt then
    some (Int64.ofInt result)
  else
    none

/-- The result of an operator in arithmetic. -/
def arithmetic (operator : Token) (result : Int) : Except Fault Value :=
  match number? result with
  | some number => .ok (.number number)
  | none => .error ⟨operator, .overflow operator.lexeme⟩

/-- What an operator before its operand makes of it. -/
def unary (operator : Token) (operand : Value) : Except Fault Value :=
  match operator.kind with
  | .minus =>
    match operand with
    | .number n => arithmetic operator (-n.toInt)
    | _ => .error ⟨operator, .operandNotNumber⟩
  | .bang => .ok (.bool (!operand.isTruthy))
  | _ => .error ⟨operator, .internal (.notOperator operator.lexeme)⟩

/-- What an operator that wants two numbers makes of its operands. -/
def onNumbers (operator : Token) (left right : Value) (apply : Int → Int → Except Fault Value) :
    Except Fault Value :=
  match left, right with
  | .number a, .number b => apply a.toInt b.toInt
  | _, _ => .error ⟨operator, .operandsNotNumbers⟩

/-- The sum of two numbers, or a string with a string or a number behind it. -/
def add (operator : Token) (left right : Value) : Except Fault Value :=
  match left, right with
  | .number a, .number b => arithmetic operator (a.toInt + b.toInt)
  | .string a, .string b => .ok (.string (a ++ b))
  | .string a, .number b => .ok (.string (a ++ toString b.toInt))
  | .number _, .string _ => .error ⟨operator, .stringAddedToNumber⟩
  | _, _ => .error ⟨operator, .operandsNotAddable⟩

/-- The quotient of two numbers without its fraction. -/
def divide (operator : Token) (left right : Value) : Except Fault Value :=
  onNumbers operator left right fun a b =>
    if b = 0 then .error ⟨operator, .divisionByZero⟩ else arithmetic operator (a.tdiv b)

/-- Whether two numbers stand in a relation. -/
def compare (operator : Token) (left right : Value) (holds : Int → Int → Bool) :
    Except Fault Value :=
  onNumbers operator left right fun a b => .ok (.bool (holds a b))

/-- What an operator between two operands makes of them. The operator of a compound assignment does
what the bare one does. -/
def binary (operator : Token) (left right : Value) : Except Fault Value :=
  match operator.kind with
  | .plus | .plusEqual => add operator left right
  | .minus | .minusEqual =>
    onNumbers operator left right fun a b => arithmetic operator (a - b)
  | .star => onNumbers operator left right fun a b => arithmetic operator (a * b)
  | .slash => divide operator left right
  | .greater => compare operator left right fun a b => decide (a > b)
  | .greaterEqual => compare operator left right fun a b => decide (a ≥ b)
  | .less => compare operator left right fun a b => decide (a < b)
  | .lessEqual => compare operator left right fun a b => decide (a ≤ b)
  | .equalEqual => .ok (.bool (left.equals right))
  | .bangEqual => .ok (.bool (!left.equals right))
  | _ => .error ⟨operator, .internal (.notOperator operator.lexeme)⟩

end Lox.Operator
