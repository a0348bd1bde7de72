/-
# Values that mean the same

Two values are alike if they are the same data, or the same function with bodies that are alike. No
program can tell such values apart: they are printed alike, count as true alike, are equal to the
same values, and every operator makes of them what is alike again, or fails with the same cause.
-/

import Lox.Proofs.Scope.Alike
import Lox.Proofs.Value.Indistinct

namespace Lox

section Relations

variable (ids : AccessId → AccessId → Prop) (lines : Nat → Nat → Prop)

/-- Two function declarations that differ at most in the numbers of accesses and in lines. -/
structure FunctionDecl.Alike (declaration declaration' : FunctionDecl) : Prop where
  name : declaration.name.Alike lines declaration'.name
  parameters : List.Forall₂ (Token.Alike lines) declaration.parameters declaration'.parameters
  body : Stmt.AllAlike ids lines declaration.body declaration'.body

/-- Two things to be called that see the same and whose declarations are alike. -/
inductive Callable.Alike : Callable → Callable → Prop
  | function {declaration declaration' : FunctionDecl} {closure : Environment}
      (h : declaration.Alike ids lines declaration') :
      Callable.Alike (.function declaration closure) (.function declaration' closure)
  | builtin {builtin : Builtin} : Callable.Alike (.builtin builtin) (.builtin builtin)

/-- Two values that are the same data or the same function. -/
inductive Value.Alike : Value → Value → Prop
  | data {value : Value} (h : value.IsData) : Value.Alike value value
  | callable {identity : Nat} {called called' : Callable} (h : called.Alike ids lines called') :
      Value.Alike (.callable identity called) (.callable identity called')

end Relations

/-- Two faults with the same cause at tokens that are alike. -/
structure Fault.Alike (lines : Nat → Nat → Prop) (fault fault' : Fault) : Prop where
  token : fault.token.Alike lines fault'.token
  cause : fault.cause = fault'.cause

variable {ids ids' : AccessId → AccessId → Prop} {lines : Nat → Nat → Prop}

theorem Fault.Alike.eq {fault fault' : Fault} (h : fault.Alike Eq fault') : fault = fault' := by
  cases fault
  cases fault'
  cases h.token.eq
  cases h.cause
  rfl

/-! ## Telling values apart -/

namespace Callable.Alike

variable {called called' : Callable}

theorem name_eq (h : called.Alike ids lines called') : called.name = called'.name := by
  cases h with
  | function h => exact h.name.lexeme
  | builtin => rfl

theorem arity_eq (h : called.Alike ids lines called') : called.arity = called'.arity := by
  cases h with
  | function h => exact h.parameters.length_eq
  | builtin => rfl

theorem display_eq (h : called.Alike ids lines called') : called.display = called'.display := by
  have hname := h.name_eq
  cases h with
  | function _ =>
    unfold display
    rw [hname]
  | builtin => rfl

theorem mono (h : called.Alike ids lines called') (himp : ∀ id id', ids id id' → ids' id id') :
    called.Alike ids' lines called' := by
  cases h with
  | function h => exact .function ⟨h.name, h.parameters, h.body.mono himp⟩
  | builtin => exact .builtin

end Callable.Alike

namespace Value.Alike

variable {value value' : Value}

theorem indistinct (h : value.Alike ids lines value') : value.Indistinct value' := by
  cases h with
  | data hdata => exact .data hdata
  | callable h => exact .callable h.display_eq

theorem mono (h : value.Alike ids lines value') (himp : ∀ id id', ids id id' → ids' id id') :
    value.Alike ids' lines value' := by
  cases h with
  | data hdata => exact .data hdata
  | callable h => exact .callable (h.mono himp)

end Value.Alike

/-! ## Computing with values -/

namespace Operator

variable {operator operator' : Token} {left left' right right' : Value}

/-- The faults of two operators correspond, as far as sums, differences and products can fail. -/
structure FailAlike (faults : Fault → Fault → Prop) (operator operator' : Token) : Prop where
  operands : ∀ cause ∈ [FaultCause.operandsNotNumbers, .operandsNotAddable, .stringAddedToNumber],
    faults ⟨operator, cause⟩ ⟨operator', cause⟩
  overflow :
    faults ⟨operator, .overflow operator.lexeme⟩ ⟨operator', .overflow operator'.lexeme⟩

namespace FailAlike

variable {faults : Fault → Fault → Prop} {values : Value → Value → Prop}
  (h : FailAlike faults operator operator')
  (hvalues : ∀ value : Value, value.IsData → values value value)
include h

theorem onNumbers {apply apply' : Int → Int → Except Fault Value}
    (happly : ∀ a b, ResultAlike faults values (apply a b) (apply' a b)) :
    ResultAlike faults values (onNumbers operator left right apply)
      (onNumbers operator' left right apply') := by
  unfold Operator.onNumbers
  split
  · exact happly _ _
  · exact .error (h.operands _ (by simp))

include hvalues

theorem arithmetic (result : Int) :
    ResultAlike faults values (arithmetic operator result) (arithmetic operator' result) := by
  unfold Operator.arithmetic
  split
  · exact .ok (hvalues _ nofun)
  · exact .error h.overflow

theorem add :
    ResultAlike faults values (add operator left right) (add operator' left right) := by
  unfold Operator.add
  split
  · exact h.arithmetic hvalues _
  · exact .ok (hvalues _ nofun)
  · exact .ok (hvalues _ nofun)
  · exact .error (h.operands _ (by simp))
  · exact .error (h.operands _ (by simp))

end FailAlike

theorem failAlike_of_alike (hoperator : operator.Alike lines operator') :
    FailAlike (Fault.Alike lines) operator operator' where
  operands _ _ := ⟨hoperator, rfl⟩
  overflow := ⟨hoperator, congrArg FaultCause.overflow hoperator.lexeme⟩

/-- Two results of an operator correspond. -/
abbrev ResultsAlike (ids : AccessId → AccessId → Prop) (lines : Nat → Nat → Prop) :
    Except Fault Value → Except Fault Value → Prop :=
  ResultAlike (Fault.Alike lines) (Value.Alike ids lines)

theorem divide_alike (hoperator : operator.Alike lines operator') :
    ResultsAlike ids lines (divide operator left right) (divide operator' left right) := by
  apply (failAlike_of_alike hoperator).onNumbers
  intro a b
  split
  · exact .error ⟨hoperator, rfl⟩
  · exact (failAlike_of_alike hoperator).arithmetic (fun _ => .data) _

theorem unary_alike (hoperator : operator.Alike lines operator')
    (hoperand : left.Alike ids lines left') :
    ResultsAlike ids lines (unary operator left) (unary operator' left') := by
  rw [unary_eq_of_indistinct hoperand.indistinct]
  unfold unary
  rw [hoperator.kind]
  split
  · split
    · exact (failAlike_of_alike hoperator).arithmetic (fun _ => .data) _
    · exact .error ⟨hoperator, rfl⟩
  · exact .ok (.data nofun)
  · rw [hoperator.lexeme]
    exact .error ⟨hoperator, rfl⟩

/-- What an operator makes of operands that are alike is alike. -/
theorem binary_alike (hoperator : operator.Alike lines operator')
    (hleft : left.Alike ids lines left') (hright : right.Alike ids lines right') :
    ResultsAlike ids lines (binary operator left right) (binary operator' left' right') := by
  have hfail := failAlike_of_alike hoperator
  rw [binary_eq_of_indistinct hleft.indistinct hright.indistinct]
  unfold binary compare
  rw [hoperator.kind]
  split
  case h_1 | h_2 => exact hfail.add fun _ => .data
  case h_3 | h_4 | h_5 => exact hfail.onNumbers fun _ _ => hfail.arithmetic (fun _ => .data) _
  case h_6 => exact divide_alike hoperator
  case h_7 | h_8 | h_9 | h_10 => exact hfail.onNumbers fun _ _ => .ok (.data nofun)
  case h_11 | h_12 => exact .ok (.data nofun)
  case h_13 =>
    rw [hoperator.lexeme]
    exact .error ⟨hoperator, rfl⟩

end Operator

end Lox
