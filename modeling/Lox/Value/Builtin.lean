/-
# Calling the functions that every program starts with

The time is given as the number that the clock shows. A clock that cannot be read, or shows a time
before 1970, is left out.
-/

import Lox.Value.Basic

namespace Lox.Builtin

/-- The ways in which a call can fail. -/
inductive Failure where
  /-- The argument is not a string. -/
  | notString (type : ValueType)
  /-- The number of arguments is wrong. -/
  | wrongArity (expected found : Nat)
  deriving DecidableEq, Repr

/-- Why a call failed, in words. -/
def Failure.message : Failure → String
  | notString type => "expected a string, got " ++ type.name
  | wrongArity expected found =>
    "expected " ++ toString expected ++ " arguments, got " ++ toString found

/-- The value of a call at the time `now`. -/
def invoke (builtin : Builtin) (now : Int64) (arguments : List Value) : Except Failure Value :=
  match builtin, arguments with
  | .clock, [] => .ok (.number now)
  | .len, [.string text] => .ok (.number (Int64.ofNat text.length))
  | .len, [value] => .error (.notString value.type)
  | .str, [value] => .ok (.string value.display)
  | builtin, arguments => .error (.wrongArity builtin.arity arguments.length)

end Lox.Builtin
