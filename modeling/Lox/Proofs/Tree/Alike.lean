/-
# Trees that say the same

Two program trees are alike if they differ at most in the numbers of their accesses and in the lines
of their tokens. Which numbers and which lines stand for each other is a parameter: with equal
lines, trees that are alike are the same text read with other numbers; with lines that are some
number apart, they are the same text further down.
-/

import Lox.Proofs.Grammar.Basic
import Lox.Proofs.Scope.Place
import Mathlib.Data.List.Forall2

namespace Lox

/-- Two tokens that differ at most in their lines. -/
structure Token.Alike (lines : Nat → Nat → Prop) (token token' : Token) : Prop where
  /-- They are of one kind. -/
  kind : token.kind = token'.kind
  /-- They are written alike. -/
  lexeme : token.lexeme = token'.lexeme
  /-- They stand for the same value. -/
  literal : token.literal = token'.literal
  /-- Their lines stand for each other. -/
  line : lines token.line token'.line

theorem Token.Alike.refl {lines : Nat → Nat → Prop} {token : Token}
    (h : lines token.line token.line) : token.Alike lines token :=
  ⟨rfl, rfl, rfl, h⟩

theorem Token.Alike.eq {token token' : Token} (h : token.Alike Eq token') : token = token' := by
  cases token
  cases token'
  cases h.kind
  cases h.lexeme
  cases h.literal
  cases h.line
  rfl

theorem Token.eq_of_alike {tokens tokens' : List Token}
    (h : List.Forall₂ (Token.Alike Eq) tokens tokens') : tokens = tokens' := by
  have heq := h.imp fun _ _ => Token.Alike.eq
  rwa [List.forall₂_eq_eq_eq] at heq

section Trees

variable (ids : AccessId → AccessId → Prop) (lines : Nat → Nat → Prop)

mutual

/-- Two expressions that differ at most in the numbers of accesses and in the lines of tokens. -/
inductive Expr.Alike : Expr → Expr → Prop
  | literal {value : Constant} : Expr.Alike (.literal value) (.literal value)
  | read {id id' : AccessId} {name name' : Token} (hid : ids id id')
      (hname : name.Alike lines name') :
      Expr.Alike (.read id name) (.read id' name')
  | assign {id id' : AccessId} {name name' : Token} {value value' : Expr} (hid : ids id id')
      (hname : name.Alike lines name') (hvalue : Expr.Alike value value') :
      Expr.Alike (.assign id name value) (.assign id' name' value')
  | unary {operator operator' : Token} {operand operand' : Expr}
      (hoperator : operator.Alike lines operator') (hoperand : Expr.Alike operand operand') :
      Expr.Alike (.unary operator operand) (.unary operator' operand')
  | binary {left left' right right' : Expr} {operator operator' : Token}
      (hleft : Expr.Alike left left') (hoperator : operator.Alike lines operator')
      (hright : Expr.Alike right right') :
      Expr.Alike (.binary left operator right) (.binary left' operator' right')
  | logical {left left' right right' : Expr} {operator operator' : Token}
      (hleft : Expr.Alike left left') (hoperator : operator.Alike lines operator')
      (hright : Expr.Alike right right') :
      Expr.Alike (.logical left operator right) (.logical left' operator' right')
  | conditional {condition condition' whenTrue whenTrue' whenFalse whenFalse' : Expr}
      (hcondition : Expr.Alike condition condition') (hwhenTrue : Expr.Alike whenTrue whenTrue')
      (hwhenFalse : Expr.Alike whenFalse whenFalse') :
      Expr.Alike (.conditional condition whenTrue whenFalse)
        (.conditional condition' whenTrue' whenFalse')
  | call {callee callee' : Expr} {paren paren' : Token} {arguments arguments' : List Expr}
      (hcallee : Expr.Alike callee callee') (hparen : paren.Alike lines paren')
      (harguments : Expr.AllAlike arguments arguments') :
      Expr.Alike (.call callee paren arguments) (.call callee' paren' arguments')
  | group {inner inner' : Expr} (hinner : Expr.Alike inner inner') :
      Expr.Alike (.group inner) (.group inner')
  | host {keyword keyword' : Token} {code code' : Expr} (hkeyword : keyword.Alike lines keyword')
      (hcode : Expr.Alike code code') : Expr.Alike (.host keyword code) (.host keyword' code')

/-- Expressions that are alike one by one. -/
inductive Expr.AllAlike : List Expr → List Expr → Prop
  | nil : Expr.AllAlike [] []
  | cons {e e' : Expr} {es es' : List Expr} (h : Expr.Alike e e') (hs : Expr.AllAlike es es') :
      Expr.AllAlike (e :: es) (e' :: es')

end

mutual

/-- Two statements that differ at most in the numbers of accesses and in the lines of tokens. -/
inductive Stmt.Alike : Stmt → Stmt → Prop
  | block {body body' : List Stmt} (hbody : Stmt.AllAlike body body') :
      Stmt.Alike (.block body) (.block body')
  | expression {value value' : Expr} (hvalue : value.Alike ids lines value') :
      Stmt.Alike (.expression value) (.expression value')
  | function {name name' : Token} {parameters parameters' : List Token} {body body' : List Stmt}
      (hname : name.Alike lines name')
      (hparameters : List.Forall₂ (Token.Alike lines) parameters parameters')
      (hbody : Stmt.AllAlike body body') :
      Stmt.Alike (.function name parameters body) (.function name' parameters' body')
  | ifThen {condition condition' : Expr} {whenTrue whenTrue' : Stmt}
      (hcondition : condition.Alike ids lines condition')
      (hwhenTrue : Stmt.Alike whenTrue whenTrue') :
      Stmt.Alike (.ifThen condition whenTrue) (.ifThen condition' whenTrue')
  | ifElse {condition condition' : Expr} {whenTrue whenTrue' whenFalse whenFalse' : Stmt}
      (hcondition : condition.Alike ids lines condition')
      (hwhenTrue : Stmt.Alike whenTrue whenTrue') (hwhenFalse : Stmt.Alike whenFalse whenFalse') :
      Stmt.Alike (.ifElse condition whenTrue whenFalse) (.ifElse condition' whenTrue' whenFalse')
  | print {keyword keyword' : Token} {value value' : Expr}
      (hkeyword : keyword.Alike lines keyword') (hvalue : value.Alike ids lines value') :
      Stmt.Alike (.print keyword value) (.print keyword' value')
  | returnNil {keyword keyword' : Token} (hkeyword : keyword.Alike lines keyword') :
      Stmt.Alike (.return keyword none) (.return keyword' none)
  | returnValue {keyword keyword' : Token} {value value' : Expr}
      (hkeyword : keyword.Alike lines keyword') (hvalue : value.Alike ids lines value') :
      Stmt.Alike (.return keyword (some value)) (.return keyword' (some value'))
  | varNil {name name' : Token} (hname : name.Alike lines name') :
      Stmt.Alike (.var name none) (.var name' none)
  | varValue {name name' : Token} {value value' : Expr} (hname : name.Alike lines name')
      (hvalue : value.Alike ids lines value') :
      Stmt.Alike (.var name (some value)) (.var name' (some value'))
  | while {condition condition' : Expr} {body body' : Stmt}
      (hcondition : condition.Alike ids lines condition') (hbody : Stmt.Alike body body') :
      Stmt.Alike (.while condition body) (.while condition' body')

/-- Statements that are alike one by one. -/
inductive Stmt.AllAlike : List Stmt → List Stmt → Prop
  | nil : Stmt.AllAlike [] []
  | cons {s s' : Stmt} {ss ss' : List Stmt} (h : Stmt.Alike s s') (hs : Stmt.AllAlike ss ss') :
      Stmt.AllAlike (s :: ss) (s' :: ss')

end

end Trees

variable {ids ids' : AccessId → AccessId → Prop} {lines : Nat → Nat → Prop}

theorem Stmt.declared_eq_of_alike {s s' : Stmt} (h : s.Alike ids lines s') :
    s.declared = s'.declared := by
  cases h with
  | function hname _ _ | varNil hname | varValue hname _ => exact congrArg ([·]) hname.lexeme
  | _ => rfl

theorem Stmt.allDeclared_eq_of_alike {ss ss' : List Stmt} (h : Stmt.AllAlike ids lines ss ss') :
    Stmt.allDeclared ss = Stmt.allDeclared ss' := by
  induction ss generalizing ss' with
  | nil =>
    cases h
    rfl
  | cons s ss ih =>
    cases h with
    | cons h hs => exact congrArg₂ (· ++ ·) (Stmt.declared_eq_of_alike h) (ih hs)

theorem Stmt.AllAlike.append {ss ss' ts ts' : List Stmt} (h : Stmt.AllAlike ids lines ss ss')
    (hbehind : Stmt.AllAlike ids lines ts ts') :
    Stmt.AllAlike ids lines (ss ++ ts) (ss' ++ ts') := by
  induction ss generalizing ss' with
  | nil =>
    cases h
    exact hbehind
  | cons s ss ih =>
    cases h with
    | cons h hs => exact .cons h (ih hs)

theorem Token.lexemes_eq_of_alike {tokens tokens' : List Token}
    (h : List.Forall₂ (Token.Alike lines) tokens tokens') :
    tokens.map Token.lexeme = tokens'.map Token.lexeme := by
  induction h with
  | nil => rfl
  | cons h _ ih => rw [List.map_cons, List.map_cons, h.lexeme, ih]

/-! ## The same tree -/

mutual

theorem Expr.Alike.refl (hids : ∀ id, ids id id) (hlines : ∀ line, lines line line) (e : Expr) :
    e.Alike ids lines e := by
  have htoken : ∀ token : Token, token.Alike lines token := fun token => .refl (hlines token.line)
  cases e with
  | literal value => exact .literal
  | read id name => exact .read (hids id) (htoken name)
  | assign id name value => exact .assign (hids id) (htoken name) (.refl hids hlines value)
  | unary operator operand => exact .unary (htoken operator) (.refl hids hlines operand)
  | binary left operator right =>
    exact .binary (.refl hids hlines left) (htoken operator) (.refl hids hlines right)
  | logical left operator right =>
    exact .logical (.refl hids hlines left) (htoken operator) (.refl hids hlines right)
  | conditional condition whenTrue whenFalse =>
    exact .conditional (.refl hids hlines condition) (.refl hids hlines whenTrue)
      (.refl hids hlines whenFalse)
  | call callee paren arguments =>
    exact .call (.refl hids hlines callee) (htoken paren) (.refl hids hlines arguments)
  | group inner => exact .group (.refl hids hlines inner)
  | host keyword code => exact .host (htoken keyword) (.refl hids hlines code)

theorem Expr.AllAlike.refl (hids : ∀ id, ids id id) (hlines : ∀ line, lines line line)
    (es : List Expr) : Expr.AllAlike ids lines es es := by
  cases es with
  | nil => exact .nil
  | cons e es => exact .cons (.refl hids hlines e) (.refl hids hlines es)

end

mutual

theorem Stmt.Alike.refl (hids : ∀ id, ids id id) (hlines : ∀ line, lines line line) (s : Stmt) :
    s.Alike ids lines s := by
  have htoken : ∀ token : Token, token.Alike lines token := fun token => .refl (hlines token.line)
  have hvalue : ∀ e : Expr, e.Alike ids lines e := Expr.Alike.refl hids hlines
  cases s with
  | block body => exact .block (.refl hids hlines body)
  | expression value => exact .expression (hvalue value)
  | function name parameters body =>
    exact .function (htoken name) (List.forall₂_same.2 fun token _ => htoken token)
      (.refl hids hlines body)
  | ifThen condition whenTrue => exact .ifThen (hvalue condition) (.refl hids hlines whenTrue)
  | ifElse condition whenTrue whenFalse =>
    exact .ifElse (hvalue condition) (.refl hids hlines whenTrue) (.refl hids hlines whenFalse)
  | print keyword value => exact .print (htoken keyword) (hvalue value)
  | «return» keyword value =>
    cases value with
    | none => exact .returnNil (htoken keyword)
    | some value => exact .returnValue (htoken keyword) (hvalue value)
  | var name initializer =>
    cases initializer with
    | none => exact .varNil (htoken name)
    | some value => exact .varValue (htoken name) (hvalue value)
  | «while» condition body => exact .while (hvalue condition) (.refl hids hlines body)

theorem Stmt.AllAlike.refl (hids : ∀ id, ids id id) (hlines : ∀ line, lines line line)
    (ss : List Stmt) : Stmt.AllAlike ids lines ss ss := by
  cases ss with
  | nil => exact .nil
  | cons s ss => exact .cons (.refl hids hlines s) (.refl hids hlines ss)

end

/-! ## Trees without numbers -/

/-- All numbers of accesses stand for each other. -/
def AnyIds (_ _ : AccessId) : Prop := True

mutual

theorem Expr.Alike.unnumbered {e e' : Expr} (h : e.Alike ids lines e') :
    e.Alike AnyIds lines e'.unnumbered := by
  cases e with
  | literal value =>
    cases h
    exact .literal
  | read id name =>
    cases h with
    | read _ hname => exact .read trivial hname
  | assign id name value =>
    cases h with
    | assign _ hname hvalue => exact .assign trivial hname hvalue.unnumbered
  | unary operator operand =>
    cases h with
    | unary hoperator hoperand => exact .unary hoperator hoperand.unnumbered
  | binary left operator right =>
    cases h with
    | binary hleft hoperator hright =>
      exact .binary hleft.unnumbered hoperator hright.unnumbered
  | logical left operator right =>
    cases h with
    | logical hleft hoperator hright =>
      exact .logical hleft.unnumbered hoperator hright.unnumbered
  | conditional condition whenTrue whenFalse =>
    cases h with
    | conditional hcondition hwhenTrue hwhenFalse =>
      exact .conditional hcondition.unnumbered hwhenTrue.unnumbered hwhenFalse.unnumbered
  | call callee paren arguments =>
    cases h with
    | call hcallee hparen harguments =>
      exact .call hcallee.unnumbered hparen harguments.unnumbered
  | group inner =>
    cases h with
    | group hinner => exact .group hinner.unnumbered
  | host keyword code =>
    cases h with
    | host hkeyword hcode => exact .host hkeyword hcode.unnumbered

theorem Expr.AllAlike.unnumbered {es es' : List Expr} (h : Expr.AllAlike ids lines es es') :
    Expr.AllAlike AnyIds lines es (Expr.allUnnumbered es') := by
  cases es with
  | nil =>
    cases h
    exact .nil
  | cons e es =>
    cases h with
    | cons h hs => exact .cons h.unnumbered hs.unnumbered

end

mutual

theorem Expr.Alike.of_unnumbered {e e' : Expr} (h : e.Alike ids lines e'.unnumbered) :
    e.Alike AnyIds lines e' := by
  cases e' with
  | literal value =>
    cases h
    exact .literal
  | read id name =>
    cases h with
    | read _ hname => exact .read trivial hname
  | assign id name value =>
    cases h with
    | assign _ hname hvalue => exact .assign trivial hname hvalue.of_unnumbered
  | unary operator operand =>
    cases h with
    | unary hoperator hoperand => exact .unary hoperator hoperand.of_unnumbered
  | binary left operator right =>
    cases h with
    | binary hleft hoperator hright =>
      exact .binary hleft.of_unnumbered hoperator hright.of_unnumbered
  | logical left operator right =>
    cases h with
    | logical hleft hoperator hright =>
      exact .logical hleft.of_unnumbered hoperator hright.of_unnumbered
  | conditional condition whenTrue whenFalse =>
    cases h with
    | conditional hcondition hwhenTrue hwhenFalse =>
      exact .conditional hcondition.of_unnumbered hwhenTrue.of_unnumbered
        hwhenFalse.of_unnumbered
  | call callee paren arguments =>
    cases h with
    | call hcallee hparen harguments =>
      exact .call hcallee.of_unnumbered hparen harguments.of_unnumbered
  | group inner =>
    cases h with
    | group hinner => exact .group hinner.of_unnumbered
  | host keyword code =>
    cases h with
    | host hkeyword hcode => exact .host hkeyword hcode.of_unnumbered

theorem Expr.AllAlike.of_unnumbered {es es' : List Expr}
    (h : Expr.AllAlike ids lines es (Expr.allUnnumbered es')) :
    Expr.AllAlike AnyIds lines es es' := by
  cases es' with
  | nil =>
    cases h
    exact .nil
  | cons e es' =>
    cases h with
    | cons h hs => exact .cons h.of_unnumbered hs.of_unnumbered

end

mutual

theorem Stmt.Alike.unnumbered {s s' : Stmt} (h : s.Alike ids lines s') :
    s.Alike AnyIds lines s'.unnumbered := by
  cases s with
  | block body =>
    cases h with
    | block hbody => exact .block hbody.unnumbered
  | expression value =>
    cases h with
    | expression hvalue => exact .expression hvalue.unnumbered
  | function name parameters body =>
    cases h with
    | function hname hparameters hbody => exact .function hname hparameters hbody.unnumbered
  | ifThen condition whenTrue =>
    cases h with
    | ifThen hcondition hwhenTrue => exact .ifThen hcondition.unnumbered hwhenTrue.unnumbered
  | ifElse condition whenTrue whenFalse =>
    cases h with
    | ifElse hcondition hwhenTrue hwhenFalse =>
      exact .ifElse hcondition.unnumbered hwhenTrue.unnumbered hwhenFalse.unnumbered
  | print keyword value =>
    cases h with
    | print hkeyword hvalue => exact .print hkeyword hvalue.unnumbered
  | «return» keyword value =>
    cases h with
    | returnNil hkeyword => exact .returnNil hkeyword
    | returnValue hkeyword hvalue => exact .returnValue hkeyword hvalue.unnumbered
  | var name initializer =>
    cases h with
    | varNil hname => exact .varNil hname
    | varValue hname hvalue => exact .varValue hname hvalue.unnumbered
  | «while» condition body =>
    cases h with
    | «while» hcondition hbody => exact .while hcondition.unnumbered hbody.unnumbered

theorem Stmt.AllAlike.unnumbered {ss ss' : List Stmt} (h : Stmt.AllAlike ids lines ss ss') :
    Stmt.AllAlike AnyIds lines ss (Stmt.allUnnumbered ss') := by
  cases ss with
  | nil =>
    cases h
    exact .nil
  | cons s ss =>
    cases h with
    | cons h hs => exact .cons h.unnumbered hs.unnumbered

end

mutual

theorem Stmt.Alike.of_unnumbered {s s' : Stmt} (h : s.Alike ids lines s'.unnumbered) :
    s.Alike AnyIds lines s' := by
  cases s' with
  | block body =>
    cases h with
    | block hbody => exact .block hbody.of_unnumbered
  | expression value =>
    cases h with
    | expression hvalue => exact .expression hvalue.of_unnumbered
  | function name parameters body =>
    cases h with
    | function hname hparameters hbody => exact .function hname hparameters hbody.of_unnumbered
  | ifThen condition whenTrue =>
    cases h with
    | ifThen hcondition hwhenTrue =>
      exact .ifThen hcondition.of_unnumbered hwhenTrue.of_unnumbered
  | ifElse condition whenTrue whenFalse =>
    cases h with
    | ifElse hcondition hwhenTrue hwhenFalse =>
      exact .ifElse hcondition.of_unnumbered hwhenTrue.of_unnumbered hwhenFalse.of_unnumbered
  | print keyword value =>
    cases h with
    | print hkeyword hvalue => exact .print hkeyword hvalue.of_unnumbered
  | «return» keyword value =>
    cases value with
    | none =>
      cases h with
      | returnNil hkeyword => exact .returnNil hkeyword
    | some value =>
      cases h with
      | returnValue hkeyword hvalue => exact .returnValue hkeyword hvalue.of_unnumbered
  | var name initializer =>
    cases initializer with
    | none =>
      cases h with
      | varNil hname => exact .varNil hname
    | some value =>
      cases h with
      | varValue hname hvalue => exact .varValue hname hvalue.of_unnumbered
  | «while» condition body =>
    cases h with
    | «while» hcondition hbody => exact .while hcondition.of_unnumbered hbody.of_unnumbered

theorem Stmt.AllAlike.of_unnumbered {ss ss' : List Stmt}
    (h : Stmt.AllAlike ids lines ss (Stmt.allUnnumbered ss')) :
    Stmt.AllAlike AnyIds lines ss ss' := by
  cases ss' with
  | nil =>
    cases h
    exact .nil
  | cons s ss' =>
    cases h with
    | cons h hs => exact .cons h.of_unnumbered hs.of_unnumbered

end

/-- Trees that are the same once they have no numbers are alike. -/
theorem Expr.alike_of_unnumbered {e e' : Expr} (h : e.unnumbered = e'.unnumbered) :
    e.Alike AnyIds Eq e' := by
  have hself : e.Alike AnyIds Eq e := .refl (fun _ => trivial) (fun _ => rfl) e
  have halike := hself.unnumbered
  rw [h] at halike
  exact halike.of_unnumbered

theorem Stmt.alike_of_unnumbered {s s' : Stmt} (h : s.unnumbered = s'.unnumbered) :
    s.Alike AnyIds Eq s' := by
  have hself : s.Alike AnyIds Eq s := .refl (fun _ => trivial) (fun _ => rfl) s
  have halike := hself.unnumbered
  rw [h] at halike
  exact halike.of_unnumbered

theorem Stmt.allAlike_of_unnumbered {ss ss' : List Stmt}
    (h : Stmt.allUnnumbered ss = Stmt.allUnnumbered ss') : Stmt.AllAlike AnyIds Eq ss ss' := by
  have hself : Stmt.AllAlike AnyIds Eq ss ss := .refl (fun _ => trivial) (fun _ => rfl) ss
  have halike := hself.unnumbered
  rw [h] at halike
  exact halike.of_unnumbered

theorem Expr.eq_literal_of_unnumbered {e : Expr} {value : Constant}
    (h : e.unnumbered = .literal value) : e = .literal value := by
  cases e with
  | literal => exact h
  | _ => cases h

namespace Stmt

theorem exists_of_unnumbered_expression {s : Stmt} {value' : Expr}
    (h : s.unnumbered = .expression value') :
    ∃ value, s = .expression value ∧ value.unnumbered = value' := by
  cases s with
  | expression value => exact ⟨value, rfl, Stmt.expression.inj h⟩
  | «return» keyword value => cases value <;> cases h
  | var name initializer => cases initializer <;> cases h
  | _ => cases h

theorem exists_of_unnumbered_block {s : Stmt} {body' : List Stmt}
    (h : s.unnumbered = .block body') :
    ∃ body, s = .block body ∧ Stmt.allUnnumbered body = body' := by
  cases s with
  | block body => exact ⟨body, rfl, Stmt.block.inj h⟩
  | «return» keyword value => cases value <;> cases h
  | var name initializer => cases initializer <;> cases h
  | _ => cases h

theorem exists_of_unnumbered_while {s : Stmt} {condition' : Expr} {body' : Stmt}
    (h : s.unnumbered = .while condition' body') :
    ∃ condition body, s = .while condition body ∧ condition.unnumbered = condition' ∧
      body.unnumbered = body' := by
  cases s with
  | «while» condition body =>
    obtain ⟨hcondition, hbody⟩ := Stmt.while.inj h
    exact ⟨condition, body, rfl, hcondition, hbody⟩
  | «return» keyword value => cases value <;> cases h
  | var name initializer => cases initializer <;> cases h
  | _ => cases h

theorem eq_nil_of_allUnnumbered {ss : List Stmt} (h : Stmt.allUnnumbered ss = []) : ss = [] := by
  cases ss with
  | nil => rfl
  | cons s ss => cases h

theorem exists_of_allUnnumbered_cons {ss ss' : List Stmt} {s' : Stmt}
    (h : Stmt.allUnnumbered ss = s' :: ss') :
    ∃ s rest, ss = s :: rest ∧ s.unnumbered = s' ∧ Stmt.allUnnumbered rest = ss' := by
  cases ss with
  | nil => cases h
  | cons s rest =>
    obtain ⟨hs, hrest⟩ := List.cons.inj h
    exact ⟨s, rest, rfl, hs, hrest⟩

end Stmt

end Lox
