/-
# Trees that do the same in other words

A tree can be recast without a change of what it does: its operators can be written otherwise, the
right operand of one can be put into parentheses, and its accesses can have other numbers.
`Stmt.Recast` relates two such trees, with what stands for what as a parameter, a `Recasting`.

Trees that are recast may also be executed in different frames: some of the scopes around the first
tree need not be there around the second. The marks of the scopes around, the innermost first, say
which. Nothing is declared directly in a scope that is missing, so nothing is missed.

Parentheses are no part of what an expression does. `Expr.bare` takes away those around it, and
bare expressions are recast if the expressions are.
-/

import Lox.Fault
import Lox.Proofs.Tree.Alike

namespace Lox

/-- What stands for what where a program is recast. -/
structure Recasting where
  /-- Two accesses stand for each other, in scopes with these marks. -/
  accesses : List Bool → AccessId → AccessId → Prop
  /-- Two operators between operands stand for each other. -/
  operators : Token → Token → Prop
  /-- Two faults stand for each other. -/
  faults : Fault → Fault → Prop

/-- What one recasting allows another allows as well. -/
structure Recasting.Within (r r' : Recasting) : Prop where
  accesses : ∀ marks id id', r.accesses marks id id' → r'.accesses marks id id'
  operators : ∀ operator operator', r.operators operator operator' →
    r'.operators operator operator'

theorem Recasting.Within.refl (r : Recasting) : r.Within r := ⟨fun _ _ _ h => h, fun _ _ h => h⟩

/-- None of the scopes with these marks is missing. -/
def AllKept (marks : List Bool) : Prop := ∀ mark ∈ marks, mark = false

namespace AllKept

variable {marks : List Bool}

theorem enter (h : AllKept marks) : AllKept (false :: marks) := List.forall_mem_cons.2 ⟨rfl, h⟩

theorem head?_ne (h : AllKept marks) : marks.head? ≠ some true :=
  fun hmiss => Bool.false_ne_true (h true (List.mem_of_mem_head? hmiss)).symm

theorem count_take (h : AllKept marks) (n : Nat) : (marks.take n).count true = 0 :=
  List.count_eq_zero.2 fun hmem => Bool.false_ne_true (h true (List.mem_of_mem_take hmem)).symm

theorem replicate {n : Nat} : AllKept (List.replicate n false) :=
  fun _ hmark => List.eq_of_mem_replicate hmark

end AllKept

section Trees

variable (r : Recasting)

mutual

/-- Two expressions of which the second is the first recast, in scopes with some marks. -/
inductive Expr.Recast (marks : List Bool) : Expr → Expr → Prop
  | literal {value : Constant} : Expr.Recast marks (.literal value) (.literal value)
  | read {id id' : AccessId} {name : Token} (h : r.accesses marks id id') :
      Expr.Recast marks (.read id name) (.read id' name)
  | assign {id id' : AccessId} {name : Token} {value value' : Expr} (h : r.accesses marks id id')
      (hvalue : Expr.Recast marks value value') :
      Expr.Recast marks (.assign id name value) (.assign id' name value')
  | unary {operator : Token} {operand operand' : Expr}
      (hoperand : Expr.Recast marks operand operand') :
      Expr.Recast marks (.unary operator operand) (.unary operator operand')
  | binary {left left' right right' : Expr} {operator operator' : Token}
      (hleft : Expr.Recast marks left left') (hoperator : r.operators operator operator')
      (hright : Expr.Recast marks right right') :
      Expr.Recast marks (.binary left operator right) (.binary left' operator' right')
  | grouped {left left' right right' : Expr} {operator operator' : Token}
      (hleft : Expr.Recast marks left left') (hoperator : r.operators operator operator')
      (hright : Expr.Recast marks right right') :
      Expr.Recast marks (.binary left operator right) (.binary left' operator' (.group right'))
  | logical {left left' right right' : Expr} {operator : Token}
      (hleft : Expr.Recast marks left left') (hright : Expr.Recast marks right right') :
      Expr.Recast marks (.logical left operator right) (.logical left' operator right')
  | conditional {condition condition' whenTrue whenTrue' whenFalse whenFalse' : Expr}
      (hcondition : Expr.Recast marks condition condition')
      (hwhenTrue : Expr.Recast marks whenTrue whenTrue')
      (hwhenFalse : Expr.Recast marks whenFalse whenFalse') :
      Expr.Recast marks (.conditional condition whenTrue whenFalse)
        (.conditional condition' whenTrue' whenFalse')
  | call {callee callee' : Expr} {paren : Token} {arguments arguments' : List Expr}
      (hcallee : Expr.Recast marks callee callee')
      (harguments : Expr.AllRecast marks arguments arguments') :
      Expr.Recast marks (.call callee paren arguments) (.call callee' paren arguments')
  | group {inner inner' : Expr} (hinner : Expr.Recast marks inner inner') :
      Expr.Recast marks (.group inner) (.group inner')
  | host {keyword : Token} {code code' : Expr} (hcode : Expr.Recast marks code code') :
      Expr.Recast marks (.host keyword code) (.host keyword code')

/-- The same of expressions one by one. -/
inductive Expr.AllRecast (marks : List Bool) : List Expr → List Expr → Prop
  | nil : Expr.AllRecast marks [] []
  | cons {e e' : Expr} {es es' : List Expr} (h : Expr.Recast marks e e')
      (hs : Expr.AllRecast marks es es') : Expr.AllRecast marks (e :: es) (e' :: es')

end

mutual

/-- Two statements of which the second is the first recast, in scopes with some marks. In the scope
of a declaration both are. -/
inductive Stmt.Recast : List Bool → Stmt → Stmt → Prop
  | block {marks : List Bool} {body body' : List Stmt}
      (hbody : Stmt.AllRecast (false :: marks) body body') :
      Stmt.Recast marks (.block body) (.block body')
  | expression {marks : List Bool} {value value' : Expr} (hvalue : value.Recast r marks value') :
      Stmt.Recast marks (.expression value) (.expression value')
  | function {marks : List Bool} {name : Token} {parameters : List Token} {body body' : List Stmt}
      (hmark : marks.head? ≠ some true) (hbody : Stmt.AllRecast (false :: marks) body body') :
      Stmt.Recast marks (.function name parameters body) (.function name parameters body')
  | ifThen {marks : List Bool} {condition condition' : Expr} {whenTrue whenTrue' : Stmt}
      (hcondition : condition.Recast r marks condition')
      (hwhenTrue : Stmt.Recast marks whenTrue whenTrue') :
      Stmt.Recast marks (.ifThen condition whenTrue) (.ifThen condition' whenTrue')
  | ifElse {marks : List Bool} {condition condition' : Expr}
      {whenTrue whenTrue' whenFalse whenFalse' : Stmt}
      (hcondition : condition.Recast r marks condition')
      (hwhenTrue : Stmt.Recast marks whenTrue whenTrue')
      (hwhenFalse : Stmt.Recast marks whenFalse whenFalse') :
      Stmt.Recast marks (.ifElse condition whenTrue whenFalse)
        (.ifElse condition' whenTrue' whenFalse')
  | print {marks : List Bool} {keyword : Token} {value value' : Expr}
      (hvalue : value.Recast r marks value') :
      Stmt.Recast marks (.print keyword value) (.print keyword value')
  | returnNil {marks : List Bool} {keyword : Token} :
      Stmt.Recast marks (.return keyword none) (.return keyword none)
  | returnValue {marks : List Bool} {keyword : Token} {value value' : Expr}
      (hvalue : value.Recast r marks value') :
      Stmt.Recast marks (.return keyword (some value)) (.return keyword (some value'))
  | varNil {marks : List Bool} {name : Token} (hmark : marks.head? ≠ some true) :
      Stmt.Recast marks (.var name none) (.var name none)
  | varValue {marks : List Bool} {name : Token} {value value' : Expr}
      (hmark : marks.head? ≠ some true) (hvalue : value.Recast r marks value') :
      Stmt.Recast marks (.var name (some value)) (.var name (some value'))
  | while {marks : List Bool} {condition condition' : Expr} {body body' : Stmt}
      (hcondition : condition.Recast r marks condition')
      (hbody : Stmt.Recast marks body body') :
      Stmt.Recast marks (.while condition body) (.while condition' body')

/-- The same of statements one by one. -/
inductive Stmt.AllRecast : List Bool → List Stmt → List Stmt → Prop
  | nil {marks : List Bool} : Stmt.AllRecast marks [] []
  | cons {marks : List Bool} {s s' : Stmt} {ss ss' : List Stmt} (h : Stmt.Recast marks s s')
      (hs : Stmt.AllRecast marks ss ss') : Stmt.AllRecast marks (s :: ss) (s' :: ss')

end

end Trees

variable {r : Recasting} {marks : List Bool}

/-! ## Declarations -/

theorem Stmt.Recast.declared_eq {s s' : Stmt} (h : s.Recast r marks s') :
    s.declared = s'.declared := by
  cases h <;> rfl

theorem Stmt.AllRecast.allDeclared_eq {ss ss' : List Stmt} (h : AllRecast r marks ss ss') :
    allDeclared ss = allDeclared ss' := by
  induction ss generalizing ss' with
  | nil =>
    cases h
    rfl
  | cons s ss ih =>
    cases h with
    | cons h hs => exact congrArg₂ (· ++ ·) h.declared_eq (ih hs)

/-- Nothing is declared directly in a scope that is missing. -/
theorem Stmt.Recast.declared_eq_nil {s s' : Stmt} (h : s.Recast r marks s')
    (hmark : marks.head? = some true) : s.declared = [] := by
  cases h with
  | function hnot _ | varNil hnot | varValue hnot _ => exact absurd hmark hnot
  | _ => rfl

/-! ## The same tree with other numbers -/

/-- In scopes with marks as allowed, accesses stand for each other wherever some numbers do, and
every operator stands for itself. -/
structure Recasting.Renumbers (r : Recasting) (allowed : List Bool → Prop)
    (ids : AccessId → AccessId → Prop) : Prop where
  accesses : ∀ marks, allowed marks → ∀ id id', ids id id' → r.accesses marks id id'
  operators : ∀ operator, r.operators operator operator
  /-- A scope that is there may be entered. -/
  enter : ∀ marks, allowed marks → allowed (false :: marks)

section Alike

variable {allowed : List Bool → Prop} {ids : AccessId → AccessId → Prop}

mutual

theorem Expr.Alike.recast {e e' : Expr} (hr : r.Renumbers allowed ids) (hmarks : allowed marks)
    (h : e.Alike ids Eq e') :
    e.Recast r marks e' := by
  cases e with
  | literal value =>
    cases h
    exact .literal
  | read id name =>
    cases h with
    | read hid hname =>
      cases hname.eq
      exact .read (hr.accesses _ hmarks _ _ hid)
  | assign id name value =>
    cases h with
    | assign hid hname hvalue =>
      cases hname.eq
      exact .assign (hr.accesses _ hmarks _ _ hid) (hvalue.recast hr hmarks)
  | unary operator operand =>
    cases h with
    | unary hoperator hoperand =>
      cases hoperator.eq
      exact .unary (hoperand.recast hr hmarks)
  | binary left operator right =>
    cases h with
    | binary hleft hoperator hright =>
      cases hoperator.eq
      exact .binary (hleft.recast hr hmarks) (hr.operators operator) (hright.recast hr hmarks)
  | logical left operator right =>
    cases h with
    | logical hleft hoperator hright =>
      cases hoperator.eq
      exact .logical (hleft.recast hr hmarks) (hright.recast hr hmarks)
  | conditional condition whenTrue whenFalse =>
    cases h with
    | conditional hcondition hwhenTrue hwhenFalse =>
      exact .conditional (hcondition.recast hr hmarks) (hwhenTrue.recast hr hmarks)
        (hwhenFalse.recast hr hmarks)
  | call callee paren arguments =>
    cases h with
    | call hcallee hparen harguments =>
      cases hparen.eq
      exact .call (hcallee.recast hr hmarks) (harguments.recast hr hmarks)
  | group inner =>
    cases h with
    | group hinner => exact .group (hinner.recast hr hmarks)
  | host keyword code =>
    cases h with
    | host hkeyword hcode =>
      cases hkeyword.eq
      exact .host (hcode.recast hr hmarks)

theorem Expr.AllAlike.recast {es es' : List Expr} (hr : r.Renumbers allowed ids)
    (hmarks : allowed marks)
    (h : Expr.AllAlike ids Eq es es') : Expr.AllRecast r marks es es' := by
  cases es with
  | nil =>
    cases h
    exact .nil
  | cons e es =>
    cases h with
    | cons h hs => exact .cons (h.recast hr hmarks) (hs.recast hr hmarks)

end

mutual

/-- A well-formed statement is recast by giving other numbers to its accesses. In a scope that is
missing it must not declare anything. -/
theorem Stmt.Alike.recast {marks : List Bool} {s s' : Stmt} (hr : r.Renumbers allowed ids)
    (hmarks : allowed marks) (h : s.Alike ids Eq s') (hwf : s.WellFormed)
    (hmark : marks.head? = some true → s.declared = []) :
    s.Recast r marks s' := by
  have hvalue : ∀ {e e' : Expr}, e.Alike ids Eq e' → e.Recast r marks e' :=
    fun h => h.recast hr hmarks
  cases s with
  | block body =>
    cases h with
    | block hbody => exact .block (hbody.recast hr (hr.enter _ hmarks) hwf nofun)
  | expression value =>
    cases h with
    | expression h => exact .expression (hvalue h)
  | function name parameters body =>
    cases h with
    | function hname hparameters hbody =>
      cases hname.eq
      obtain rfl := Token.eq_of_alike hparameters
      exact .function (fun h => List.cons_ne_nil _ _ (hmark h))
        (hbody.recast hr (hr.enter _ hmarks) hwf nofun)
  | ifThen condition whenTrue =>
    cases h with
    | ifThen hcondition hwhenTrue =>
      exact .ifThen (hvalue hcondition) (hwhenTrue.recast hr hmarks hwf.2.2 fun _ => hwf.2.1)
  | ifElse condition whenTrue whenFalse =>
    cases h with
    | ifElse hcondition hwhenTrue hwhenFalse =>
      exact .ifElse (hvalue hcondition) (hwhenTrue.recast hr hmarks hwf.2.1.2 fun _ => hwf.2.1.1)
        (hwhenFalse.recast hr hmarks hwf.2.2.2 fun _ => hwf.2.2.1)
  | print keyword value =>
    cases h with
    | print hkeyword h =>
      cases hkeyword.eq
      exact .print (hvalue h)
  | «return» keyword value =>
    cases h with
    | returnNil hkeyword =>
      cases hkeyword.eq
      exact .returnNil
    | returnValue hkeyword h =>
      cases hkeyword.eq
      exact .returnValue (hvalue h)
  | var name initializer =>
    cases h with
    | varNil hname =>
      cases hname.eq
      exact .varNil fun h => List.cons_ne_nil _ _ (hmark h)
    | varValue hname h =>
      cases hname.eq
      exact .varValue (fun h => List.cons_ne_nil _ _ (hmark h)) (hvalue h)
  | «while» condition body =>
    cases h with
    | «while» hcondition hbody =>
      exact .while (hvalue hcondition) (hbody.recast hr hmarks hwf.2.2 fun _ => hwf.2.1)

theorem Stmt.AllAlike.recast {marks : List Bool} {ss ss' : List Stmt} (hr : r.Renumbers allowed ids)
    (hmarks : allowed marks) (h : Stmt.AllAlike ids Eq ss ss') (hwf : Stmt.AllWellFormed ss)
    (hmark : marks.head? = some true → Stmt.allDeclared ss = []) :
    Stmt.AllRecast r marks ss ss' := by
  cases ss with
  | nil =>
    cases h
    exact .nil
  | cons s ss =>
    cases h with
    | cons h hs =>
      exact .cons (h.recast hr hmarks hwf.1 fun hmiss => (List.append_eq_nil_iff.1 (hmark hmiss)).1)
        (hs.recast hr hmarks hwf.2 fun hmiss => (List.append_eq_nil_iff.1 (hmark hmiss)).2)

end

end Alike

/-! ## Which numbers accesses carry -/

/-- Whether accesses stand for each other does not depend on their numbers. -/
def Recasting.IgnoresIds (r : Recasting) : Prop :=
  ∀ marks id id' other other', r.accesses marks id id' → r.accesses marks other other'

mutual

/-- Where numbers do not matter, expressions are recast however their accesses are numbered. -/
theorem Expr.Recast.alike {e e' f f' : Expr} (h : e.Recast r marks e')
    (hr : r.IgnoresIds) (hleft : f.Alike AnyIds Eq e) (hright : f'.Alike AnyIds Eq e') :
      f.Recast r marks f' := by
  cases e with
  | literal value =>
    cases h
    cases hleft
    cases hright
    exact .literal
  | read id name =>
    cases h with
    | read h =>
      cases hleft with
      | read _ hname =>
        cases hright with
        | read _ hname' =>
          cases hname.eq
          cases hname'.eq
          exact .read (hr _ _ _ _ _ h)
  | assign id name value =>
    cases h with
    | assign h hvalue =>
      cases hleft with
      | assign _ hname hleft =>
        cases hright with
        | assign _ hname' hright =>
          cases hname.eq
          cases hname'.eq
          exact .assign (hr _ _ _ _ _ h) (hvalue.alike hr hleft hright)
  | unary operator operand =>
    cases h with
    | unary hoperand =>
      cases hleft with
      | unary hoperator hleft =>
        cases hright with
        | unary hoperator' hright =>
          cases hoperator.eq
          cases hoperator'.eq
          exact .unary (hoperand.alike hr hleft hright)
  | binary left operator right =>
    cases hleft with
    | binary hleft₁ hoperator hleft₂ =>
      cases hoperator.eq
      cases h with
      | binary h₁ h h₂ =>
        cases hright with
        | binary hright₁ hoperator' hright₂ =>
          cases hoperator'.eq
          exact .binary (h₁.alike hr hleft₁ hright₁) h (h₂.alike hr hleft₂ hright₂)
      | grouped h₁ h h₂ =>
        cases hright with
        | binary hright₁ hoperator' hright₂ =>
          cases hoperator'.eq
          cases hright₂ with
          | group hright₂ =>
            exact .grouped (h₁.alike hr hleft₁ hright₁) h (h₂.alike hr hleft₂ hright₂)
  | logical left operator right =>
    cases h with
    | logical h₁ h₂ =>
      cases hleft with
      | logical hleft₁ hoperator hleft₂ =>
        cases hright with
        | logical hright₁ hoperator' hright₂ =>
          cases hoperator.eq
          cases hoperator'.eq
          exact .logical (h₁.alike hr hleft₁ hright₁) (h₂.alike hr hleft₂ hright₂)
  | conditional condition whenTrue whenFalse =>
    cases h with
    | conditional h₁ h₂ h₃ =>
      cases hleft with
      | conditional hleft₁ hleft₂ hleft₃ =>
        cases hright with
        | conditional hright₁ hright₂ hright₃ =>
          exact .conditional (h₁.alike hr hleft₁ hright₁) (h₂.alike hr hleft₂ hright₂)
            (h₃.alike hr hleft₃ hright₃)
  | call callee paren arguments =>
    cases h with
    | call h hs =>
      cases hleft with
      | call hleft hparen hlefts =>
        cases hright with
        | call hright hparen' hrights =>
          cases hparen.eq
          cases hparen'.eq
          exact .call (h.alike hr hleft hright) (hs.alike hr hlefts hrights)
  | group inner =>
    cases h with
    | group h =>
      cases hleft with
      | group hleft =>
        cases hright with
        | group hright => exact .group (h.alike hr hleft hright)
  | host keyword code =>
    cases h with
    | host h =>
      cases hleft with
      | host hkeyword hleft =>
        cases hright with
        | host hkeyword' hright =>
          cases hkeyword.eq
          cases hkeyword'.eq
          exact .host (h.alike hr hleft hright)
termination_by structural e

theorem Expr.AllRecast.alike {es es' fs fs' : List Expr} (h : Expr.AllRecast r marks es es')
    (hr : r.IgnoresIds) (hleft : Expr.AllAlike AnyIds Eq fs es)
    (hright : Expr.AllAlike AnyIds Eq fs' es') :
    Expr.AllRecast r marks fs fs' := by
  cases es with
  | nil =>
    cases h
    cases hleft
    cases hright
    exact .nil
  | cons e es =>
    cases h with
    | cons h hs =>
      cases hleft with
      | cons hleft hlefts =>
        cases hright with
        | cons hright hrights => exact .cons (h.alike hr hleft hright) (hs.alike hr hlefts hrights)
termination_by structural es

end

mutual

/-- Where numbers do not matter, statements are recast however their accesses are numbered. -/
theorem Stmt.Recast.alike {marks : List Bool} {s s' t t' : Stmt} (h : s.Recast r marks s')
    (hr : r.IgnoresIds) (hleft : t.Alike AnyIds Eq s) (hright : t'.Alike AnyIds Eq s') :
      t.Recast r marks t' := by
  cases s with
  | block body =>
    cases h with
    | block h =>
      cases hleft with
      | block hleft =>
        cases hright with
        | block hright => exact .block (h.alike hr hleft hright)
  | expression value =>
    cases h with
    | expression h =>
      cases hleft with
      | expression hleft =>
        cases hright with
        | expression hright => exact .expression (h.alike hr hleft hright)
  | function name parameters body =>
    cases h with
    | function hmark h =>
      cases hleft with
      | function hname hparameters hleft =>
        cases hright with
        | function hname' hparameters' hright =>
          cases hname.eq
          cases hname'.eq
          obtain rfl := Token.eq_of_alike hparameters
          obtain rfl := Token.eq_of_alike hparameters'
          exact .function hmark (h.alike hr hleft hright)
  | ifThen condition whenTrue =>
    cases h with
    | ifThen h₁ h₂ =>
      cases hleft with
      | ifThen hleft₁ hleft₂ =>
        cases hright with
        | ifThen hright₁ hright₂ =>
          exact .ifThen (h₁.alike hr hleft₁ hright₁) (h₂.alike hr hleft₂ hright₂)
  | ifElse condition whenTrue whenFalse =>
    cases h with
    | ifElse h₁ h₂ h₃ =>
      cases hleft with
      | ifElse hleft₁ hleft₂ hleft₃ =>
        cases hright with
        | ifElse hright₁ hright₂ hright₃ =>
          exact .ifElse (h₁.alike hr hleft₁ hright₁) (h₂.alike hr hleft₂ hright₂)
            (h₃.alike hr hleft₃ hright₃)
  | print keyword value =>
    cases h with
    | print h =>
      cases hleft with
      | print hkeyword hleft =>
        cases hright with
        | print hkeyword' hright =>
          cases hkeyword.eq
          cases hkeyword'.eq
          exact .print (h.alike hr hleft hright)
  | «return» keyword value =>
    cases h with
    | returnNil =>
      cases hleft with
      | returnNil hkeyword =>
        cases hright with
        | returnNil hkeyword' =>
          cases hkeyword.eq
          cases hkeyword'.eq
          exact .returnNil
    | returnValue h =>
      cases hleft with
      | returnValue hkeyword hleft =>
        cases hright with
        | returnValue hkeyword' hright =>
          cases hkeyword.eq
          cases hkeyword'.eq
          exact .returnValue (h.alike hr hleft hright)
  | var name initializer =>
    cases h with
    | varNil hmark =>
      cases hleft with
      | varNil hname =>
        cases hright with
        | varNil hname' =>
          cases hname.eq
          cases hname'.eq
          exact .varNil hmark
    | varValue hmark h =>
      cases hleft with
      | varValue hname hleft =>
        cases hright with
        | varValue hname' hright =>
          cases hname.eq
          cases hname'.eq
          exact .varValue hmark (h.alike hr hleft hright)
  | «while» condition body =>
    cases h with
    | «while» h₁ h₂ =>
      cases hleft with
      | «while» hleft₁ hleft₂ =>
        cases hright with
        | «while» hright₁ hright₂ =>
          exact .while (h₁.alike hr hleft₁ hright₁) (h₂.alike hr hleft₂ hright₂)
termination_by structural s

theorem Stmt.AllRecast.alike {marks : List Bool} {ss ss' ts ts' : List Stmt}
    (h : Stmt.AllRecast r marks ss ss') (hr : r.IgnoresIds)
    (hleft : Stmt.AllAlike AnyIds Eq ts ss)
    (hright : Stmt.AllAlike AnyIds Eq ts' ss') : Stmt.AllRecast r marks ts ts' := by
  cases ss with
  | nil =>
    cases h
    cases hleft
    cases hright
    exact .nil
  | cons s ss =>
    cases h with
    | cons h hs =>
      cases hleft with
      | cons hleft hlefts =>
        cases hright with
        | cons hright hrights => exact .cons (h.alike hr hleft hright) (hs.alike hr hlefts hrights)
termination_by structural ss

end

/-! ## Without parentheses -/

/-- An expression without the parentheses around it. -/
def Expr.bare : Expr → Expr
  | .group inner => inner.bare
  | e => e

theorem Expr.Recast.bare {e e' : Expr} (h : e.Recast r marks e') :
    e.bare.Recast r marks e'.bare := by
  cases e with
  | group inner =>
    cases h with
    | group hinner => exact hinner.bare
  | binary left operator right =>
    cases h with
    | binary hleft hoperator hright => exact .binary hleft hoperator hright
    | grouped hleft hoperator hright => exact .grouped hleft hoperator hright
  | _ =>
    cases h
    constructor <;> assumption
termination_by structural e

end Lox
