/-
# Data

Values other than functions. Whatever an operator, the host or a function that every program starts
with computes is data: functions come into being only where a program declares them.
-/

import Lox.Value.Operator

namespace Lox

/-- A value other than a function. -/
def Value.IsData (value : Value) : Prop := value.type ≠ .function

/-- What is computed is data, if it is computed at all. -/
def YieldsData {ε : Type} (result : Except ε Value) : Prop :=
  ∀ value, result = .ok value → value.IsData

theorem yieldsData_error {ε : Type} {problem : ε} : YieldsData (.error problem) := by
  intro value h
  cases h

theorem yieldsData_ok {ε : Type} {value : Value} (h : value.IsData) :
    YieldsData (.ok value : Except ε Value) := by
  intro found hfound
  cases hfound
  exact h

theorem Value.isData_ofConstant (constant : Constant) : (Value.ofConstant constant).IsData := by
  cases constant <;> exact fun h => by cases h

namespace Operator

theorem yieldsData_arithmetic (operator : Token) (result : Int) :
    YieldsData (arithmetic operator result) := by
  unfold arithmetic
  split
  · exact yieldsData_ok fun h => by cases h
  · exact yieldsData_error

theorem yieldsData_onNumbers {operator : Token} {left right : Value}
    {apply : Int → Int → Except Fault Value} (h : ∀ a b, YieldsData (apply a b)) :
    YieldsData (onNumbers operator left right apply) := by
  unfold onNumbers
  split
  · exact h _ _
  · exact yieldsData_error

theorem yieldsData_compare {operator : Token} {left right : Value} {holds : Int → Int → Bool} :
    YieldsData (compare operator left right holds) :=
  yieldsData_onNumbers fun _ _ => yieldsData_ok fun h => by cases h

theorem yieldsData_add (operator : Token) (left right : Value) :
    YieldsData (add operator left right) := by
  unfold add
  split
  · exact yieldsData_arithmetic _ _
  · exact yieldsData_ok fun h => by cases h
  · exact yieldsData_ok fun h => by cases h
  · exact yieldsData_error
  · exact yieldsData_error

theorem yieldsData_divide (operator : Token) (left right : Value) :
    YieldsData (divide operator left right) := by
  apply yieldsData_onNumbers
  intro a b
  split
  · exact yieldsData_error
  · exact yieldsData_arithmetic _ _

theorem yieldsData_unary (operator : Token) (operand : Value) :
    YieldsData (unary operator operand) := by
  unfold unary
  split
  · split
    · exact yieldsData_arithmetic _ _
    · exact yieldsData_error
  · exact yieldsData_ok fun h => by cases h
  · exact yieldsData_error

theorem yieldsData_binary (operator : Token) (left right : Value) :
    YieldsData (binary operator left right) := by
  unfold binary
  split
  case h_1 | h_2 => exact yieldsData_add _ _ _
  case h_3 | h_4 | h_5 => exact yieldsData_onNumbers fun _ _ => yieldsData_arithmetic _ _
  case h_6 => exact yieldsData_divide _ _ _
  case h_7 | h_8 | h_9 | h_10 => exact yieldsData_compare
  case h_11 | h_12 => exact yieldsData_ok fun h => by cases h
  case h_13 => exact yieldsData_error

end Operator

theorem Builtin.yieldsData_invoke (builtin : Builtin) (now : Int64) (passed : List Value) :
    YieldsData (builtin.invoke now passed) := by
  unfold invoke
  split
  case h_1 | h_2 | h_4 => exact yieldsData_ok fun h => by cases h
  case h_3 | h_5 => exact yieldsData_error

theorem Host.yieldsData_obey (host : Host) (allowed : Bool) (code : String) :
    YieldsData (host.obey allowed code) := by
  have henv : ∀ argument, YieldsData (host.env argument) := by
    intro argument
    unfold env
    split
    · exact yieldsData_error
    · split
      · exact yieldsData_ok fun h => by cases h
      · exact yieldsData_ok fun h => by cases h
      · exact yieldsData_error
  unfold obey
  split
  · exact yieldsData_error
  · dsimp only
    split
    · exact yieldsData_ok fun h => by cases h
    · split
      · generalize hanswer : host.env _ = answer
        cases answer with
        | error reason => exact yieldsData_error
        | ok value => exact yieldsData_ok (henv _ value hanswer)
      · exact yieldsData_error

end Lox
