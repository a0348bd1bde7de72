/-
# Values

The values that programs compute with. Functions are values too: each time a function is declared, a
new one comes into being, told apart from all others by a number of its own.
-/

import Lox.Tree.Basic

namespace Lox

/-- The number of a frame. -/
abbrev FrameId := Nat

/-- The frames that a piece of a program can see, the innermost first and that of the global
variables last. -/
abbrev Environment := List FrameId

/-- The functions that every program starts with. -/
inductive Builtin where
  | clock
  /-- The number of characters of a string. -/
  | len
  | str
  deriving DecidableEq, Repr

namespace Builtin

/-- All of them, in the order in which they are made. -/
def all : List Builtin := [.clock, .len, .str]

/-- The name it is known by. -/
def name : Builtin → String
  | clock => "clock"
  | len => "len"
  | str => "str"

/-- The number of arguments it takes. -/
def arity : Builtin → Nat
  | clock => 0
  | len | str => 1

end Builtin

/-- Something that can be called. -/
inductive Callable where
  /-- A function of the program, together with what it could see where it was declared. -/
  | function (declaration : FunctionDecl) (closure : Environment)
  | builtin (builtin : Builtin)
  deriving Repr

namespace Callable

/-- The name it was declared under. -/
def name : Callable → String
  | function declaration _ => declaration.name.lexeme
  | builtin b => b.name

/-- The number of arguments it takes. -/
def arity : Callable → Nat
  | function declaration _ => declaration.parameters.length
  | builtin b => b.arity

/-- How it is printed. -/
def display (callable : Callable) : String :=
  match callable with
  | function .. => "<fn " ++ callable.name ++ ">"
  | builtin .. => "<native fn " ++ callable.name ++ ">"

end Callable

/-- A value. -/
inductive Value where
  | nil
  | bool (value : Bool)
  | number (value : Int64)
  | string (value : String)
  | callable (identity : Nat) (called : Callable)
  deriving Repr

/-- The types that values have. -/
inductive ValueType where
  | nil | boolean | number | string | function
  deriving DecidableEq, Repr

/-- The name of a type. -/
def ValueType.name : ValueType → String
  | nil => "nil"
  | boolean => "boolean"
  | number => "number"
  | string => "string"
  | function => "function"

namespace Value

/-- The value of a constant. -/
def ofConstant : Constant → Value
  | .nil => nil
  | .bool value => bool value
  | .number value => number value
  | .string value => string value

/-- The type of a value. -/
def type : Value → ValueType
  | nil => .nil
  | bool _ => .boolean
  | number _ => .number
  | string _ => .string
  | callable .. => .function

/-- Whether a value counts as true. All do but `nil` and `false`. -/
def isTruthy : Value → Bool
  | nil | bool false => false
  | _ => true

/-- Whether two values are equal: of the same type and with the same content, where each function is
equal to itself alone. -/
def equals : Value → Value → Bool
  | nil, nil => true
  | bool a, bool b => a == b
  | number a, number b => a == b
  | string a, string b => a == b
  | callable a _, callable b _ => a == b
  | _, _ => false

/-- How a value is printed. -/
def display : Value → String
  | nil => "nil"
  | bool value => if value then "true" else "false"
  | number value => toString value.toInt
  | string value => value
  | callable _ called => called.display

end Value

end Lox
