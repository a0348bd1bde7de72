/-
# Faults

What stops a program while it is executed: the token it happened at, and the cause. Writing what is
printed is taken never to fail, so there is no cause for that.
-/

import Lox.Diagnostic
import Lox.Host
import Lox.Value.Builtin

namespace Lox

/-- A contradiction between a program tree and what is known about it. -/
inductive Inconsistency where
  /-- The depth of an access leads out of the frames there are. -/
  | pastOutermostFrame (depth : Nat) (name : String)
  | missingVariable (depth : Nat) (name : String)
  | notOperator (lexeme : String)
  deriving DecidableEq, Repr

/-- A contradiction in words. -/
def Inconsistency.message : Inconsistency → String
  | pastOutermostFrame depth name =>
    "scope depth " ++ toString depth ++ " for '" ++ name ++ "' is past the outermost frame"
  | missingVariable depth name =>
    "resolved variable '" ++ name ++ "' missing at depth " ++ toString depth
  | notOperator lexeme => "'" ++ lexeme ++ "' is not an operator"

/-- The causes of faults. -/
inductive FaultCause where
  | operandNotNumber
  | operandsNotNumbers
  | operandsNotAddable
  | stringAddedToNumber
  | divisionByZero
  /-- A result does not fit 64 bits. -/
  | overflow (operator : String)
  | undefinedVariable (name : String)
  | notCallable (type : ValueType)
  | wrongArity (name : String) (expected found : Nat)
  | stackOverflow (limit : Nat)
  | host (failure : Host.Failure)
  | builtin (name : String) (failure : Builtin.Failure)
  | returnOutsideFunction
  | internal (inconsistency : Inconsistency)
  deriving DecidableEq, Repr

/-- A cause in words. -/
def FaultCause.message : FaultCause → String
  | operandNotNumber => "Operand must be a number."
  | operandsNotNumbers => "Operands must be numbers."
  | operandsNotAddable => "Operands must be numbers or strings."
  | stringAddedToNumber => "Cannot add string to number."
  | divisionByZero => "Division by zero."
  | overflow operator => "Integer overflow in '" ++ operator ++ "'."
  | undefinedVariable name => "Undefined variable '" ++ name ++ "'."
  | notCallable type => "Can only call functions, got " ++ type.name ++ "."
  | wrongArity name expected found =>
    name ++ " expected " ++ toString expected ++ " arguments but received " ++ toString found ++ "."
  | stackOverflow limit => "Stack overflow: more than " ++ toString limit ++ " nested calls."
  | host failure => failure.message
  | builtin name failure => name ++ ": " ++ failure.message
  | returnOutsideFunction => "Can't return from top-level code."
  | internal inconsistency => "Internal error: " ++ inconsistency.message

/-- What stops a program while it is executed. -/
structure Fault where
  token : Token
  cause : FaultCause
  deriving DecidableEq, Repr

namespace Fault

/-- What happened, in words. -/
def message (fault : Fault) : String := fault.cause.message

/-- The report of a fault. -/
def diagnostic (fault : Fault) : Diagnostic := .atToken .runtime fault.token fault.message

end Fault

end Lox
