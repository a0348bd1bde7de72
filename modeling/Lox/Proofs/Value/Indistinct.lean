/-
# Values that cannot be told apart

Two values cannot be told apart if they are the same data, or functions that came into being
together and are printed alike. What such functions do may differ. But programs compare functions
and print them, and no more: whatever is computed of values that cannot be told apart is the same.
-/

import Lox.Proofs.CallTree.Similar
import Lox.Proofs.Value.Data
import Lox.Value.Builtin
import Mathlib.Data.List.Forall2

namespace Lox

/-- Two values that are the same data, or the same function by all that can be seen of it. -/
inductive Value.Indistinct : Value → Value → Prop
  | data {value : Value} (h : value.IsData) : Value.Indistinct value value
  | callable {identity : Nat} {called called' : Callable} (h : called.display = called'.display) :
      Value.Indistinct (.callable identity called) (.callable identity called')

/-- What yields data corresponds to itself, if data does and what can go wrong. -/
theorem YieldsData.resultAlike {ε : Type} {problems : ε → ε → Prop}
    {values : Value → Value → Prop} {result : Except ε Value} (h : YieldsData result)
    (hvalues : ∀ value : Value, value.IsData → values value value)
    (hproblems : ∀ problem, problems problem problem) :
    ResultAlike problems values result result := by
  cases result with
  | ok value => exact .ok (hvalues value (h value rfl))
  | error problem => exact .error (hproblems problem)

variable {value value' other other' : Value}

namespace Value.Indistinct

theorem isTruthy_eq (h : value.Indistinct value') : value.isTruthy = value'.isTruthy := by
  cases h <;> rfl

theorem display_eq (h : value.Indistinct value') : value.display = value'.display := by
  cases h with
  | data _ => rfl
  | callable h => exact h

theorem equals_eq (h : value.Indistinct value') (hother : other.Indistinct other') :
    value.equals other = value'.equals other' := by
  cases h with
  | data _ =>
    cases hother with
    | data _ => rfl
    | callable _ => cases value <;> rfl
  | callable _ =>
    cases hother with
    | data _ => cases other <;> rfl
    | callable _ => rfl

end Value.Indistinct

namespace Operator

variable {operator : Token} {left left' right right' : Value}

theorem onNumbers_eq_of_indistinct (hleft : left.Indistinct left')
    (hright : right.Indistinct right')
    (apply : Int → Int → Except Fault Value) :
    onNumbers operator left right apply = onNumbers operator left' right' apply := by
  cases hleft with
  | callable _ => rfl
  | data _ =>
    cases hright with
    | data _ => rfl
    | callable _ => cases left <;> rfl

theorem add_eq_of_indistinct (hleft : left.Indistinct left') (hright : right.Indistinct right') :
    add operator left right = add operator left' right' := by
  cases hleft with
  | callable _ => rfl
  | data _ =>
    cases hright with
    | data _ => rfl
    | callable _ => cases left <;> rfl

theorem unary_eq_of_indistinct (h : left.Indistinct left') :
    unary operator left = unary operator left' := by
  unfold unary
  rw [h.isTruthy_eq]
  cases h <;> rfl

/-- An operator makes the same of operands that cannot be told apart. -/
theorem binary_eq_of_indistinct (hleft : left.Indistinct left') (hright : right.Indistinct right') :
    binary operator left right = binary operator left' right' := by
  unfold binary divide compare
  simp only [onNumbers_eq_of_indistinct hleft hright, add_eq_of_indistinct hleft hright,
    hleft.equals_eq hright]

end Operator

/-- The functions that every program starts with make the same of values that cannot be told
apart. -/
theorem Builtin.invoke_eq_of_indistinct (builtin : Builtin) (now : Int64)
    {passed passed' : List Value} (h : List.Forall₂ Value.Indistinct passed passed') :
    builtin.invoke now passed = builtin.invoke now passed' := by
  have hwrong : ∀ {first first' second second' : Value} {rest rest' : List Value},
      List.Forall₂ Value.Indistinct rest rest' →
        builtin.invoke now (first :: second :: rest) =
          builtin.invoke now (first' :: second' :: rest') := by
    intro first first' second second' rest rest' hrest
    have hlength := hrest.length_eq
    cases builtin <;> simp only [invoke, List.length_cons, hlength]
  cases h with
  | nil => rfl
  | @cons value value' rest rest' hvalue hrest =>
    cases hrest with
    | cons _ hrest => exact hwrong hrest
    | nil =>
      cases builtin with
      | clock => rfl
      | len => cases hvalue <;> rfl
      | str => exact congrArg (fun text => Except.ok (Value.string text)) hvalue.display_eq

end Lox
