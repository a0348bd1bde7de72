/-
# Accepted programs are well-formed

The grammar lets a token stand for an operator only if it is one, and lets declarations stand only
at the top level and directly in blocks. So whatever is accepted is well-formed, whichever numbers
its accesses carry.
-/

import Lox.Proofs.Grammar.Completeness
import Lox.Proofs.Scope.Place

namespace Lox

/-! ## Numbers of accesses -/

theorem Stmt.declared_unnumbered (s : Stmt) : s.unnumbered.declared = s.declared := by
  cases s with
  | «return» keyword value => cases value <;> rfl
  | var name initializer => cases initializer <;> rfl
  | _ => rfl

mutual

theorem Expr.wellFormed_of_unnumbered (e : Expr) (h : e.unnumbered.WellFormed) :
    e.WellFormed := by
  cases e with
  | literal value => trivial
  | read id name => trivial
  | assign id name value => exact Expr.wellFormed_of_unnumbered value h
  | unary operator operand => exact ⟨h.1, Expr.wellFormed_of_unnumbered operand h.2⟩
  | binary left operator right =>
    exact ⟨h.1, Expr.wellFormed_of_unnumbered left h.2.1, Expr.wellFormed_of_unnumbered right h.2.2⟩
  | logical left operator right =>
    exact ⟨Expr.wellFormed_of_unnumbered left h.1, Expr.wellFormed_of_unnumbered right h.2⟩
  | conditional condition whenTrue whenFalse =>
    exact ⟨Expr.wellFormed_of_unnumbered condition h.1,
      Expr.wellFormed_of_unnumbered whenTrue h.2.1, Expr.wellFormed_of_unnumbered whenFalse h.2.2⟩
  | call callee paren arguments =>
    exact ⟨Expr.wellFormed_of_unnumbered callee h.1,
      Expr.allWellFormed_of_unnumbered arguments h.2⟩
  | group inner => exact Expr.wellFormed_of_unnumbered inner h
  | host keyword code => exact Expr.wellFormed_of_unnumbered code h

theorem Expr.allWellFormed_of_unnumbered (es : List Expr)
    (h : Expr.AllWellFormed (Expr.allUnnumbered es)) : Expr.AllWellFormed es := by
  cases es with
  | nil => trivial
  | cons e es =>
    exact ⟨Expr.wellFormed_of_unnumbered e h.1, Expr.allWellFormed_of_unnumbered es h.2⟩

end

mutual

theorem Stmt.wellFormed_of_unnumbered (s : Stmt) (h : s.unnumbered.WellFormed) :
    s.WellFormed := by
  cases s with
  | block body => exact Stmt.allWellFormed_of_unnumbered body h
  | expression value => exact value.wellFormed_of_unnumbered h
  | function name parameters body => exact Stmt.allWellFormed_of_unnumbered body h
  | ifThen condition whenTrue =>
    have hdeclared := h.2.1
    rw [Stmt.declared_unnumbered] at hdeclared
    exact ⟨condition.wellFormed_of_unnumbered h.1, hdeclared,
      Stmt.wellFormed_of_unnumbered whenTrue h.2.2⟩
  | ifElse condition whenTrue whenFalse =>
    have hdeclared := h.2.1.1
    have hdeclared' := h.2.2.1
    rw [Stmt.declared_unnumbered] at hdeclared hdeclared'
    exact ⟨condition.wellFormed_of_unnumbered h.1,
      ⟨hdeclared, Stmt.wellFormed_of_unnumbered whenTrue h.2.1.2⟩, hdeclared',
      Stmt.wellFormed_of_unnumbered whenFalse h.2.2.2⟩
  | print keyword value => exact value.wellFormed_of_unnumbered h
  | «return» keyword value =>
    cases value with
    | none => trivial
    | some value => exact value.wellFormed_of_unnumbered h
  | var name initializer =>
    cases initializer with
    | none => trivial
    | some value => exact value.wellFormed_of_unnumbered h
  | «while» condition body =>
    have hdeclared := h.2.1
    rw [Stmt.declared_unnumbered] at hdeclared
    exact ⟨condition.wellFormed_of_unnumbered h.1, hdeclared,
      Stmt.wellFormed_of_unnumbered body h.2.2⟩

theorem Stmt.allWellFormed_of_unnumbered (ss : List Stmt)
    (h : Stmt.AllWellFormed (Stmt.allUnnumbered ss)) : Stmt.AllWellFormed ss := by
  cases ss with
  | nil => trivial
  | cons s ss =>
    exact ⟨Stmt.wellFormed_of_unnumbered s h.1, Stmt.allWellFormed_of_unnumbered ss h.2⟩

end

namespace Grammar

open Phrase (Level)

/-- What is derived from a symbol is well-formed, and a statement is no declaration. -/
def Symbol.WellFormed : (symbol : Symbol) → symbol.Tree → Prop
  | .expression _, e => e.WellFormed
  | .optional, value => ∀ e ∈ value, e.WellFormed
  | .values, es | .arguments, es => Expr.AllWellFormed es
  | .names, _ | .parameters, _ => True
  | .varDecl, s | .declaration, s => s.WellFormed
  | .initializer, first => ∀ s ∈ first, s.WellFormed
  | .statement _, s => s.declared = [] ∧ s.WellFormed
  | .declarations, ss => Stmt.AllWellFormed ss

theorem mem_binaryOperators {level : Level} {kind : Token.Kind} (h : kind ∈ operators level) :
    level = .or ∨ level = .and ∨ kind ∈ binaryOperators := by
  revert kind
  cases level <;> decide

theorem wellFormed_joined {level : Level} {operator : Token} {left right : Expr}
    (hoperator : operator.kind ∈ operators level) (hleft : left.WellFormed)
    (hright : right.WellFormed) : (joined level left operator right).WellFormed := by
  unfold joined
  split
  · exact ⟨hleft, hright⟩
  · rename_i hlevel
    obtain ⟨hor, hand⟩ := not_or.1 hlevel
    have hkind := ((mem_binaryOperators hoperator).resolve_left hor).resolve_left hand
    exact ⟨hkind, hleft, hright⟩

theorem wellFormed_round {body : Stmt} {increment : Option Expr}
    (hbody : body.declared = [] ∧ body.WellFormed) (hincrement : ∀ e ∈ increment, e.WellFormed) :
    (round body increment).declared = [] ∧ (round body increment).WellFormed := by
  cases increment with
  | none => exact hbody
  | some increment => exact ⟨rfl, hbody.2, hincrement increment rfl, trivial⟩

theorem wellFormed_loop {first : Option Stmt} {condition increment : Option Expr} {body : Stmt}
    (hfirst : ∀ s ∈ first, s.WellFormed) (hcondition : ∀ e ∈ condition, e.WellFormed)
    (hincrement : ∀ e ∈ increment, e.WellFormed)
    (hbody : body.declared = [] ∧ body.WellFormed) :
    (loop first condition increment body).declared = [] ∧
      (loop first condition increment body).WellFormed := by
  have hrounds : (Stmt.while (condition.getD (.literal (.bool true)))
      (round body increment)).WellFormed := by
    refine ⟨?_, wellFormed_round hbody hincrement⟩
    cases condition with
    | none => trivial
    | some condition => exact hcondition condition rfl
  cases first with
  | none => exact ⟨rfl, hrounds⟩
  | some first => exact ⟨rfl, hfirst first rfl, hrounds, trivial⟩

/-- What the grammar derives is well-formed. -/
theorem Derives.wellFormed {symbol : Symbol} {ts : List Token} {tree : symbol.Tree}
    (h : Derives symbol ts tree) : symbol.WellFormed tree := by
  induction h with
  | assign hname hequal hvalue ih => exact ih
  | compound hname hoperator hvalue ih =>
    refine ⟨?_, trivial, ih⟩
    rcases hoperator with h | h <;> rw [h] <;> decide
  | noAssignment h ih | noConditional h ih | noUnary h ih | noCall h ih | noOperation h ih =>
    exact ih
  | conditional hcondition hquestion htrue hcolon hfalse ihCondition ihTrue ihFalse =>
    exact ⟨ihCondition, ihTrue, ihFalse⟩
  | operation hleft hoperator hright ihLeft ihRight =>
    exact wellFormed_joined hoperator ihLeft ihRight
  | unary hoperator hoperand ih => exact ⟨hoperator, ih⟩
  | call hcallee hopening hpassed hparen ihCallee ihPassed => exact ⟨ihCallee, ihPassed⟩
  | falseLiteral | trueLiteral | nilLiteral | numberLiteral | stringLiteral | read => trivial
  | group hopening hinner hclosing ih => exact ih
  | host hkeyword hopening hcode hclosing ih => exact ih
  | absent | noInitializer =>
    intro value hvalue
    cases hvalue
  | present h ih | variableInitializer hkeyword h ih | expressionInitializer h hsemicolon ih =>
    intro value hvalue
    cases hvalue
    exact ih
  | lastValue h ih => exact ⟨ih, trivial⟩
  | moreValues h hcomma hothers ih ihOthers => exact ⟨ih, ihOthers⟩
  | noArguments | noDeclarations | uninitialized => trivial
  | arguments h hmost ih => exact ih
  | lastName | moreNames | noParameters | parameters => trivial
  | initialized hname hequal hvalue hsemicolon ih => exact ih
  | print hkeyword hvalue hsemicolon ih | expression hvalue hsemicolon ih => exact ⟨rfl, ih⟩
  | ifThen hkeyword hopening hcondition hclosing htrue ihCondition ihTrue =>
    exact ⟨rfl, ihCondition, ihTrue⟩
  | ifElse hkeyword hopening hcondition hclosing htrue hotherwise hfalse ihCondition ihTrue
      ihFalse =>
    exact ⟨rfl, ihCondition, ihTrue, ihFalse⟩
  | «while» hkeyword hopening hcondition hclosing hbody ihCondition ihBody =>
    exact ⟨rfl, ihCondition, ihBody⟩
  | «for» hkeyword hopening hfirst hcondition hsemicolon hincrement hclosing hbody ihFirst
      ihCondition ihIncrement ihBody =>
    exact wellFormed_loop ihFirst ihCondition ihIncrement ihBody
  | «return» hkeyword hvalue hsemicolon ih =>
    rename_i value
    cases value with
    | none => exact ⟨rfl, trivial⟩
    | some value => exact ⟨rfl, ih value rfl⟩
  | block hopening hbody hclosing ih => exact ⟨rfl, ih⟩
  | function hkeyword hname hopening hdeclared hclosing hbrace hbody hclosingBrace ihDeclared
      ihBody =>
    exact ihBody
  | var hkeyword h ih => exact ih
  | statement h ih => exact ih.2
  | moreDeclarations h hothers ih ihOthers => exact ⟨ih, ihOthers⟩

end Grammar

/-- Every program that is accepted is well-formed. -/
theorem Program.wellFormed_of_ofTokens {tokens : List Token} {nextId next : AccessId}
    {program : List Stmt} (h : ofTokens tokens nextId = (.ok program, next)) :
    Stmt.AllWellFormed program :=
  Stmt.allWellFormed_of_unnumbered program (derives_of_ofTokens h).wellFormed

end Lox
