/-
# Trees that keep what was written

A tree keeps the tokens that it was built from, and a token keeps the text that it was written as.
So each name and each operator in the tree of a program still has the form of what it is, and each
constant is one that can be written (`Program.legible`). Every expression within the program is
legible in this sense, at whatever place it stands (`Lies.legible`).

A string has to be told apart: its text stands in the tree without the backslashes. Where no string
of a program contains a quote, none in its tree does.
-/

import Lox.Proofs.Grammar.WellFormed
import Lox.Proofs.Token.Literal

namespace Lox

/-! ## Legible trees -/

/-- The value of a token is no text with a quote in it. -/
def Token.Literal.QuoteFree : Literal → Prop
  | string text => '"' ∉ text.toList
  | number _ => True

instance : DecidablePred Token.Literal.QuoteFree
  | .string text => inferInstanceAs (Decidable ('"' ∉ text.toList))
  | .number _ => .isTrue trivial

/-- A token has the form of what it is, and if it is a string, there is no quote in it. -/
structure Token.Legible (token : Token) : Prop where
  /-- It is written as what it is. -/
  form : Segment.Form token.lexeme.toList (.token token.kind token.literal)
  /-- It stands for no text with a quote. -/
  quoteFree : ∀ literal ∈ token.literal, literal.QuoteFree

/-- A legible token of one of some kinds. -/
def Token.LegibleAs (kinds : List Token.Kind) (token : Token) : Prop :=
  token.kind ∈ kinds ∧ token.Legible

/-- A constant can be written, and is no string with a quote in it. -/
def Constant.Legible : Constant → Prop
  | .nil | .bool _ => True
  | .number n => ∃ value : Nat, value ≤ 2 ^ 63 - 1 ∧ n = Int64.ofNat value
  | .string text => '"' ∉ text.toList

mutual

/-- The constants of an expression are legible, and so are its tokens, each of a kind that belongs
where it stands. -/
def Expr.Legible : Expr → Prop
  | .literal value => value.Legible
  | .read _ name => name.LegibleAs [.identifier]
  | .assign _ name value => name.LegibleAs [.identifier] ∧ value.Legible
  | .unary operator operand => operator.LegibleAs [.bang, .minus] ∧ operand.Legible
  | .binary left operator right =>
    left.Legible ∧ operator.LegibleAs binaryOperators ∧ right.Legible
  | .logical left operator right => left.Legible ∧ operator.LegibleAs [.and, .or] ∧ right.Legible
  | .conditional condition whenTrue whenFalse =>
    condition.Legible ∧ whenTrue.Legible ∧ whenFalse.Legible
  | .call callee paren arguments =>
    callee.Legible ∧ paren.LegibleAs [.rightParen] ∧ Expr.AllLegible arguments
  | .group inner => inner.Legible
  | .host keyword code => keyword.LegibleAs [.host] ∧ code.Legible

/-- Some expressions are legible. -/
def Expr.AllLegible : List Expr → Prop
  | [] => True
  | e :: es => e.Legible ∧ Expr.AllLegible es

end

mutual

/-- Every expression in a statement is legible. -/
def Stmt.Legible : Stmt → Prop
  | .block body | .function _ _ body => Stmt.AllLegible body
  | .expression value | .print _ value | .return _ (some value) | .var _ (some value) =>
    value.Legible
  | .return _ none | .var _ none => True
  | .ifThen condition whenTrue => condition.Legible ∧ whenTrue.Legible
  | .ifElse condition whenTrue whenFalse =>
    condition.Legible ∧ whenTrue.Legible ∧ whenFalse.Legible
  | .while condition body => condition.Legible ∧ body.Legible

/-- Every expression in some statements is legible. -/
def Stmt.AllLegible : List Stmt → Prop
  | [] => True
  | s :: ss => s.Legible ∧ Stmt.AllLegible ss

end

/-- Every expression in some code is legible. -/
def Code.Legible : Code → Prop
  | expression e => e.Legible
  | arguments es => Expr.AllLegible es
  | statement s => s.Legible
  | body ss => Stmt.AllLegible ss

theorem Part.legible {place place' : Place} {code part : Code} (h : Part place code place' part)
    (hlegible : code.Legible) : part.Legible := by
  cases h with
  | grouped | evaluated | printed | initializer | block | whileAgain | functionBody | returned =>
    exact hlegible
  | binaryLeft | logicalLeft | condition | callee | firstArgument | ifThenCondition
  | ifElseCondition | whileCondition | firstStatement =>
    exact hlegible.1
  | assigned | operand | hostCode | otherArguments | ifThenTrue | whileBody | otherStatements =>
    exact hlegible.2
  | whenTrue | ifElseTrue => exact hlegible.2.1
  | binaryRight | logicalRight | whenFalse | arguments | ifElseFalse => exact hlegible.2.2

/-- Whatever stands in a legible program is legible. -/
theorem Lies.legible {program : List Stmt} {place : Place} {code : Code}
    (h : Lies program place code) (hlegible : Stmt.AllLegible program) : code.Legible := by
  have hall : ∀ at' : Place × Code, Relation.ReflTransGen
      (fun outer inner : Place × Code => Part outer.1 outer.2 inner.1 inner.2)
      (.top, .body program) at' → at'.2.Legible := by
    intro at' hreach
    induction hreach with
    | refl => exact hlegible
    | tail _ hpart ih => exact hpart.legible ih
  exact hall (place, code) h

/-! ## Numbers of accesses -/

mutual

theorem Expr.legible_of_unnumbered (e : Expr) (h : e.unnumbered.Legible) : e.Legible := by
  cases e with
  | literal value | read id name => exact h
  | assign id name value => exact ⟨h.1, Expr.legible_of_unnumbered value h.2⟩
  | unary operator operand => exact ⟨h.1, Expr.legible_of_unnumbered operand h.2⟩
  | binary left operator right | logical left operator right =>
    exact ⟨Expr.legible_of_unnumbered left h.1, h.2.1, Expr.legible_of_unnumbered right h.2.2⟩
  | conditional condition whenTrue whenFalse =>
    exact ⟨Expr.legible_of_unnumbered condition h.1, Expr.legible_of_unnumbered whenTrue h.2.1,
      Expr.legible_of_unnumbered whenFalse h.2.2⟩
  | call callee paren arguments =>
    exact ⟨Expr.legible_of_unnumbered callee h.1, h.2.1,
      Expr.allLegible_of_unnumbered arguments h.2.2⟩
  | group inner => exact Expr.legible_of_unnumbered inner h
  | host keyword code => exact ⟨h.1, Expr.legible_of_unnumbered code h.2⟩

theorem Expr.allLegible_of_unnumbered (es : List Expr)
    (h : Expr.AllLegible (Expr.allUnnumbered es)) : Expr.AllLegible es := by
  cases es with
  | nil => trivial
  | cons e es =>
    exact ⟨Expr.legible_of_unnumbered e h.1, Expr.allLegible_of_unnumbered es h.2⟩

end

mutual

theorem Stmt.legible_of_unnumbered (s : Stmt) (h : s.unnumbered.Legible) : s.Legible := by
  cases s with
  | block body | function name parameters body => exact Stmt.allLegible_of_unnumbered body h
  | expression value | print keyword value => exact value.legible_of_unnumbered h
  | ifThen condition whenTrue =>
    exact ⟨condition.legible_of_unnumbered h.1, Stmt.legible_of_unnumbered whenTrue h.2⟩
  | ifElse condition whenTrue whenFalse =>
    exact ⟨condition.legible_of_unnumbered h.1, Stmt.legible_of_unnumbered whenTrue h.2.1,
      Stmt.legible_of_unnumbered whenFalse h.2.2⟩
  | «return» keyword value =>
    cases value with
    | none => trivial
    | some value => exact value.legible_of_unnumbered h
  | var name initializer =>
    cases initializer with
    | none => trivial
    | some value => exact value.legible_of_unnumbered h
  | «while» condition body =>
    exact ⟨condition.legible_of_unnumbered h.1, Stmt.legible_of_unnumbered body h.2⟩

theorem Stmt.allLegible_of_unnumbered (ss : List Stmt)
    (h : Stmt.AllLegible (Stmt.allUnnumbered ss)) : Stmt.AllLegible ss := by
  cases ss with
  | nil => trivial
  | cons s ss =>
    exact ⟨Stmt.legible_of_unnumbered s h.1, Stmt.allLegible_of_unnumbered ss h.2⟩

end

/-! ## Programs -/

/-- The number that a token stands for is one that can be written. -/
theorem Segment.Form.exists_number {text : List Char} {kind : Token.Kind} {n : Int64}
    (h : Form text (.token kind (some (.number n)))) :
    ∃ value : Nat, value ≤ 2 ^ 63 - 1 ∧ n = Int64.ofNat value := by
  generalize hreading : Reading.token kind (some (.number n)) = reading at h
  cases h with
  | number _ _ _ =>
    unfold numeral at hreading
    split at hreading
    · rename_i hle
      rw [maxNumber_eq] at hle
      cases hreading
      exact ⟨_, hle, rfl⟩
    · cases hreading
  | _ => cases hreading

namespace Grammar

open Phrase (Level)

/-- What is derived from a symbol is legible. -/
def Symbol.Legible : (symbol : Symbol) → symbol.Tree → Prop
  | .expression _, e => e.Legible
  | .optional, value => ∀ e ∈ value, e.Legible
  | .values, es | .arguments, es => Expr.AllLegible es
  | .names, _ | .parameters, _ => True
  | .varDecl, s | .declaration, s | .statement _, s => s.Legible
  | .initializer, first => ∀ s ∈ first, s.Legible
  | .declarations, ss => Stmt.AllLegible ss

theorem legible_joined {level : Level} {operator : Token} {left right : Expr}
    (hoperator : operator.kind ∈ operators level) (hlegible : operator.Legible)
    (hleft : left.Legible) (hright : right.Legible) :
    (joined level left operator right).Legible := by
  unfold joined
  split
  · rename_i hlevel
    rcases hlevel with rfl | rfl
    · exact ⟨hleft, ⟨.tail _ hoperator, hlegible⟩, hright⟩
    · exact ⟨hleft, ⟨List.mem_cons.2 (.inl (List.mem_singleton.1 hoperator)), hlegible⟩, hright⟩
  · rename_i hlevel
    obtain ⟨hor, hand⟩ := not_or.1 hlevel
    have hkind := ((mem_binaryOperators hoperator).resolve_left hor).resolve_left hand
    exact ⟨hleft, ⟨hkind, hlegible⟩, hright⟩

theorem legible_loop {first : Option Stmt} {condition increment : Option Expr} {body : Stmt}
    (hfirst : ∀ s ∈ first, s.Legible) (hcondition : ∀ e ∈ condition, e.Legible)
    (hincrement : ∀ e ∈ increment, e.Legible) (hbody : body.Legible) :
    (loop first condition increment body).Legible := by
  have hround : (round body increment).Legible := by
    cases increment with
    | none => exact hbody
    | some increment => exact ⟨hbody, hincrement increment rfl, trivial⟩
  have hrounds : (Stmt.while (condition.getD (.literal (.bool true)))
      (round body increment)).Legible := by
    refine ⟨?_, hround⟩
    cases condition with
    | none => trivial
    | some condition => exact hcondition condition rfl
  cases first with
  | none => exact hrounds
  | some first => exact ⟨hfirst first rfl, hrounds, trivial⟩

/-- What is derived from legible tokens is legible. -/
theorem Derives.legible {symbol : Symbol} {ts : List Token} {tree : symbol.Tree}
    (h : Derives symbol ts tree) (hts : ∀ token ∈ ts, token.Legible) : symbol.Legible tree := by
  induction h with
  | assign hname hequal hvalue ih =>
    simp only [List.forall_mem_cons] at hts
    exact ⟨⟨List.mem_singleton.2 hname, hts.1⟩, ih hts.2.2⟩
  | compound hname hoperator hvalue ih =>
    simp only [List.forall_mem_cons] at hts
    have hread : Token.LegibleAs [.identifier] _ := ⟨List.mem_singleton.2 hname, hts.1⟩
    refine ⟨hread, hread, ⟨?_, hts.2.1⟩, ih hts.2.2⟩
    rcases hoperator with h | h <;> rw [h] <;> decide
  | noAssignment h ih | noConditional h ih | noUnary h ih | noCall h ih | noOperation h ih =>
    exact ih hts
  | conditional hcondition hquestion htrue hcolon hfalse ihCondition ihTrue ihFalse =>
    simp only [List.forall_mem_cons, List.forall_mem_append] at hts
    exact ⟨ihCondition hts.1, ihTrue hts.2.2.1, ihFalse hts.2.2.2.2⟩
  | operation hleft hoperator hright ihLeft ihRight =>
    simp only [List.forall_mem_cons, List.forall_mem_append] at hts
    exact legible_joined hoperator hts.2.1 (ihLeft hts.1) (ihRight hts.2.2)
  | unary hoperator hoperand ih =>
    rw [List.forall_mem_cons] at hts
    refine ⟨⟨?_, hts.1⟩, ih hts.2⟩
    rcases hoperator with h | h <;> rw [h] <;> decide
  | call hcallee hopening hpassed hparen ihCallee ihPassed =>
    simp only [List.forall_mem_cons, List.forall_mem_append] at hts
    exact ⟨ihCallee hts.1, ⟨List.mem_singleton.2 hparen, hts.2.2.2.1⟩, ihPassed hts.2.2.1⟩
  | falseLiteral | trueLiteral | nilLiteral => trivial
  | numberLiteral h hliteral =>
    have hform := (hts _ List.mem_cons_self).form
    rw [hliteral] at hform
    exact hform.exists_number
  | stringLiteral h hliteral => exact (hts _ List.mem_cons_self).quoteFree _ hliteral
  | read h => exact ⟨List.mem_singleton.2 h, hts _ List.mem_cons_self⟩
  | group hopening hinner hclosing ih =>
    simp only [List.forall_mem_cons, List.forall_mem_append] at hts
    exact ih hts.2.1
  | host hkeyword hopening hcode hclosing ih =>
    simp only [List.forall_mem_cons, List.forall_mem_append] at hts
    exact ⟨⟨List.mem_singleton.2 hkeyword, hts.1⟩, ih hts.2.2.1⟩
  | absent | noInitializer =>
    intro value hvalue
    cases hvalue
  | present h ih =>
    rintro value ⟨⟩
    exact ih hts
  | variableInitializer hkeyword h ih =>
    rintro value ⟨⟩
    exact ih (List.forall_mem_cons.1 hts).2
  | expressionInitializer h hsemicolon ih =>
    rintro value ⟨⟩
    exact ih (List.forall_mem_append.1 hts).1
  | lastValue h ih => exact ⟨ih hts, trivial⟩
  | moreValues h hcomma hothers ih ihOthers =>
    simp only [List.forall_mem_cons, List.forall_mem_append] at hts
    exact ⟨ih hts.1, ihOthers hts.2.2⟩
  | noArguments | noDeclarations | uninitialized => trivial
  | arguments h hmost ih => exact ih hts
  | lastName | moreNames | noParameters | parameters => trivial
  | initialized hname hequal hvalue hsemicolon ih =>
    simp only [List.forall_mem_cons, List.forall_mem_append] at hts
    exact ih hts.2.2.1
  | print hkeyword hvalue hsemicolon ih =>
    simp only [List.forall_mem_cons, List.forall_mem_append] at hts
    exact ih hts.2.1
  | expression hvalue hsemicolon ih => exact ih (List.forall_mem_append.1 hts).1
  | ifThen hkeyword hopening hcondition hclosing htrue ihCondition ihTrue =>
    simp only [List.forall_mem_cons, List.forall_mem_append] at hts
    exact ⟨ihCondition hts.2.2.1, ihTrue hts.2.2.2.2⟩
  | ifElse hkeyword hopening hcondition hclosing htrue hotherwise hfalse ihCondition ihTrue
      ihFalse =>
    simp only [List.forall_mem_cons, List.forall_mem_append] at hts
    exact ⟨ihCondition hts.2.2.1, ihTrue hts.2.2.2.2.1, ihFalse hts.2.2.2.2.2.2⟩
  | «while» hkeyword hopening hcondition hclosing hbody ihCondition ihBody =>
    simp only [List.forall_mem_cons, List.forall_mem_append] at hts
    exact ⟨ihCondition hts.2.2.1, ihBody hts.2.2.2.2⟩
  | «for» hkeyword hopening hfirst hcondition hsemicolon hincrement hclosing hbody ihFirst
      ihCondition ihIncrement ihBody =>
    simp only [List.forall_mem_cons, List.forall_mem_append] at hts
    obtain ⟨-, -, hfirst, hcondition, -, hincrement, -, hbody⟩ := hts
    exact legible_loop (ihFirst hfirst) (ihCondition hcondition) (ihIncrement hincrement)
      (ihBody hbody)
  | «return» hkeyword hvalue hsemicolon ih =>
    simp only [List.forall_mem_cons, List.forall_mem_append] at hts
    rename_i value
    cases value with
    | none => trivial
    | some value => exact ih hts.2.1 value rfl
  | block hopening hbody hclosing ih =>
    simp only [List.forall_mem_cons, List.forall_mem_append] at hts
    exact ih hts.2.1
  | function hkeyword hname hopening hdeclared hclosing hbrace hbody hclosingBrace ihDeclared
      ihBody =>
    simp only [List.forall_mem_cons, List.forall_mem_append] at hts
    exact ihBody hts.2.2.2.2.2.2.1
  | var hkeyword h ih => exact ih (List.forall_mem_cons.1 hts).2
  | statement h ih => exact ih hts
  | moreDeclarations h hothers ih ihOthers =>
    obtain ⟨hts, hus⟩ := List.forall_mem_append.1 hts
    exact ⟨ih hts, ihOthers hus⟩

end Grammar

namespace Program

/-- No string that is written in a text has a quote in it. -/
def QuoteFree (source : String) : Prop :=
  ∀ tokens ∈ (Token.scan source).toOption, ∀ token ∈ tokens, ∀ literal ∈ token.literal,
    literal.QuoteFree

instance : DecidablePred QuoteFree := fun source =>
  inferInstanceAs (Decidable (∀ tokens ∈ (Token.scan source).toOption, ∀ token ∈ tokens,
    ∀ literal ∈ token.literal, literal.QuoteFree))

/-- The program in a text is legible, if there are no quotes in its strings. -/
theorem legible {source : String} {tokens : List Token} {nextId next : AccessId}
    {program : List Stmt} (hquotes : QuoteFree source) (hscan : Token.scan source = .ok tokens)
    (hprogram : ofTokens tokens nextId = (.ok program, next)) : Stmt.AllLegible program := by
  apply Stmt.allLegible_of_unnumbered
  refine (derives_of_ofTokens hprogram).legible fun token htoken => ?_
  have hmem := (List.takeWhile_sublist _).subset htoken
  refine ⟨?_, hquotes tokens (congrArg Except.toOption hscan) token hmem⟩
  rw [(Token.scan_eq_ok_iff.1 hscan).2] at hmem
  rcases List.mem_append.1 hmem with hmem | hmem
  · exact Segment.form_of_mem_collect hmem
  · have hkind := List.mem_takeWhile_imp htoken
    rw [List.mem_singleton.1 hmem] at hkind
    exact absurd rfl (of_decide_eq_true hkind)

end Program

end Lox
