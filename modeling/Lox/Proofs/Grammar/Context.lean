/-
# Where an expression may stand

`Context symbol before after build` says that in what the grammar derives from a symbol there is a
place for an expression: with the tokens of any expression between the tokens `before` and `after`,
the grammar derives the whole (`Context.derives`), and `build` makes its tree from that of the
expression. These are the derivations with one expression left out, with one rule for each place in
a rule of the grammar.

Two expressions of which the one is the other recast can stand in the same places, and what is
derived there is recast as well (`Context.recast`).
-/

import Lox.Proofs.Grammar.WellFormed
import Lox.Proofs.Tree.Recast

namespace Lox

namespace Grammar

open Phrase (Level)

/-- What the grammar derives from a symbol with one expression left out between some tokens. -/
inductive Context : (symbol : Symbol) → (before after : List Token) → (Expr → symbol.Tree) →
    Prop where
  | here : Context (.expression .assignment) [] [] id
  | assigned {name equal : Token} {ts us : List Token} {build : Expr → Expr}
      (hname : name.kind = .identifier) (hequal : equal.kind = .equal)
      (h : Context (.expression .assignment) ts us build) :
      Context (.expression .assignment) (name :: equal :: ts) us fun e => .assign 0 name (build e)
  | compounded {name operator : Token} {ts us : List Token} {build : Expr → Expr}
      (hname : name.kind = .identifier)
      (hoperator : operator.kind = .plusEqual ∨ operator.kind = .minusEqual)
      (h : Context (.expression .assignment) ts us build) :
      Context (.expression .assignment) (name :: operator :: ts) us
        fun e => .assign 0 name (.binary (.read 0 name) operator (build e))
  | noAssignment {ts us : List Token} {build : Expr → Expr}
      (h : Context (.expression .conditional) ts us build) :
      Context (.expression .assignment) ts us build
  | condition {question colon : Token} {ts us vs ws : List Token} {whenTrue whenFalse : Expr}
      {build : Expr → Expr} (h : Context (.expression (.operation .or)) ts us build)
      (hquestion : question.kind = .question)
      (htrue : Derives (.expression .assignment) vs whenTrue) (hcolon : colon.kind = .colon)
      (hfalse : Derives (.expression .conditional) ws whenFalse) :
      Context (.expression .conditional) ts (us ++ question :: (vs ++ colon :: ws))
        fun e => .conditional (build e) whenTrue whenFalse
  | whenTrue {question colon : Token} {ts us vs ws : List Token} {condition whenFalse : Expr}
      {build : Expr → Expr} (hcondition : Derives (.expression (.operation .or)) ts condition)
      (hquestion : question.kind = .question) (h : Context (.expression .assignment) us vs build)
      (hcolon : colon.kind = .colon) (hfalse : Derives (.expression .conditional) ws whenFalse) :
      Context (.expression .conditional) (ts ++ question :: us) (vs ++ colon :: ws)
        fun e => .conditional condition (build e) whenFalse
  | whenFalse {question colon : Token} {ts us vs ws : List Token} {condition whenTrue : Expr}
      {build : Expr → Expr} (hcondition : Derives (.expression (.operation .or)) ts condition)
      (hquestion : question.kind = .question)
      (htrue : Derives (.expression .assignment) us whenTrue) (hcolon : colon.kind = .colon)
      (h : Context (.expression .conditional) vs ws build) :
      Context (.expression .conditional) (ts ++ question :: (us ++ colon :: vs)) ws
        fun e => .conditional condition whenTrue (build e)
  | noConditional {ts us : List Token} {build : Expr → Expr}
      (h : Context (.expression (.operation .or)) ts us build) :
      Context (.expression .conditional) ts us build
  | left {level : Level} {operator : Token} {ts us vs : List Token} {right : Expr}
      {build : Expr → Expr} (h : Context (.expression (.operation level)) ts us build)
      (hoperator : operator.kind ∈ operators level)
      (hright : Derives (.expression (tighter level)) vs right) :
      Context (.expression (.operation level)) ts (us ++ operator :: vs)
        fun e => joined level (build e) operator right
  | right {level : Level} {operator : Token} {ts us vs : List Token} {left : Expr}
      {build : Expr → Expr} (hleft : Derives (.expression (.operation level)) ts left)
      (hoperator : operator.kind ∈ operators level)
      (h : Context (.expression (tighter level)) us vs build) :
      Context (.expression (.operation level)) (ts ++ operator :: us) vs
        fun e => joined level left operator (build e)
  | noOperation {level : Level} {ts us : List Token} {build : Expr → Expr}
      (h : Context (.expression (tighter level)) ts us build) :
      Context (.expression (.operation level)) ts us build
  | operand {operator : Token} {ts us : List Token} {build : Expr → Expr}
      (hoperator : operator.kind = .bang ∨ operator.kind = .minus)
      (h : Context (.expression .unary) ts us build) :
      Context (.expression .unary) (operator :: ts) us fun e => .unary operator (build e)
  | noUnary {ts us : List Token} {build : Expr → Expr}
      (h : Context (.expression .call) ts us build) :
      Context (.expression .unary) ts us build
  | callee {opening paren : Token} {ts us vs : List Token} {passed : List Expr}
      {build : Expr → Expr} (h : Context (.expression .call) ts us build)
      (hopening : opening.kind = .leftParen) (hpassed : Derives .arguments vs passed)
      (hparen : paren.kind = .rightParen) :
      Context (.expression .call) ts (us ++ opening :: (vs ++ [paren]))
        fun e => .call (build e) paren passed
  | passed {opening paren : Token} {ts us vs : List Token} {callee : Expr}
      {build : Expr → List Expr} (hcallee : Derives (.expression .call) ts callee)
      (hopening : opening.kind = .leftParen) (h : Context .arguments us vs build)
      (hparen : paren.kind = .rightParen) :
      Context (.expression .call) (ts ++ opening :: us) (vs ++ [paren])
        fun e => .call callee paren (build e)
  | noCall {ts us : List Token} {build : Expr → Expr}
      (h : Context (.expression .primary) ts us build) :
      Context (.expression .call) ts us build
  | arguments {ts us : List Token} {build : Expr → List Expr} (h : Context .values ts us build)
      (hmost : ∀ e, (build e).length ≤ mostArguments) : Context .arguments ts us build
  | lastValue {ts us : List Token} {build : Expr → Expr}
      (h : Context (.expression .assignment) ts us build) : Context .values ts us fun e => [build e]
  | firstValue {comma : Token} {ts us vs : List Token} {es : List Expr} {build : Expr → Expr}
      (h : Context (.expression .assignment) ts us build) (hcomma : comma.kind = .comma)
      (hothers : Derives .values vs es) :
      Context .values ts (us ++ comma :: vs) fun e => build e :: es
  | otherValues {comma : Token} {ts us vs : List Token} {first : Expr} {build : Expr → List Expr}
      (hfirst : Derives (.expression .assignment) ts first) (hcomma : comma.kind = .comma)
      (h : Context .values us vs build) :
      Context .values (ts ++ comma :: us) vs fun e => first :: build e
  | group {opening closing : Token} {ts us : List Token} {build : Expr → Expr}
      (hopening : opening.kind = .leftParen) (h : Context (.expression .assignment) ts us build)
      (hclosing : closing.kind = .rightParen) :
      Context (.expression .primary) (opening :: ts) (us ++ [closing]) fun e => .group (build e)
  | host {keyword opening closing : Token} {ts us : List Token} {build : Expr → Expr}
      (hkeyword : keyword.kind = .host) (hopening : opening.kind = .leftParen)
      (h : Context (.expression .assignment) ts us build) (hclosing : closing.kind = .rightParen) :
      Context (.expression .primary) (keyword :: opening :: ts) (us ++ [closing])
        fun e => .host keyword (build e)
  | present {ts us : List Token} {build : Expr → Expr}
      (h : Context (.expression .assignment) ts us build) :
      Context .optional ts us fun e => some (build e)
  | initialized {name equal semicolon : Token} {ts us : List Token} {build : Expr → Expr}
      (hname : name.kind = .identifier) (hequal : equal.kind = .equal)
      (h : Context (.expression .assignment) ts us build)
      (hsemicolon : semicolon.kind = .semicolon) :
      Context .varDecl (name :: equal :: ts) (us ++ [semicolon])
        fun e => .var name (some (build e))
  | variableInitializer {keyword : Token} {ts us : List Token} {build : Expr → Stmt}
      (hkeyword : keyword.kind = .var) (h : Context .varDecl ts us build) :
      Context .initializer (keyword :: ts) us fun e => some (build e)
  | expressionInitializer {semicolon : Token} {ts us : List Token} {build : Expr → Expr}
      (h : Context (.expression .assignment) ts us build)
      (hsemicolon : semicolon.kind = .semicolon) :
      Context .initializer ts (us ++ [semicolon]) fun e => some (.expression (build e))
  | print {keyword semicolon : Token} {ts us : List Token} {build : Expr → Expr}
      (hkeyword : keyword.kind = .print) (h : Context (.expression .assignment) ts us build)
      (hsemicolon : semicolon.kind = .semicolon) :
      Context (.statement false) (keyword :: ts) (us ++ [semicolon])
        fun e => .print keyword (build e)
  | ifThenCondition {keyword opening closing : Token} {ts us vs : List Token} {whenTrue : Stmt}
      {dangling : Bool} {build : Expr → Expr} (hkeyword : keyword.kind = .if)
      (hopening : opening.kind = .leftParen) (h : Context (.expression .assignment) ts us build)
      (hclosing : closing.kind = .rightParen) (htrue : Derives (.statement dangling) vs whenTrue) :
      Context (.statement true) (keyword :: opening :: ts) (us ++ closing :: vs)
        fun e => .ifThen (build e) whenTrue
  | ifThenTrue {keyword opening closing : Token} {ts us vs : List Token} {condition : Expr}
      {dangling : Bool} {build : Expr → Stmt} (hkeyword : keyword.kind = .if)
      (hopening : opening.kind = .leftParen)
      (hcondition : Derives (.expression .assignment) ts condition)
      (hclosing : closing.kind = .rightParen) (h : Context (.statement dangling) us vs build) :
      Context (.statement true) (keyword :: opening :: (ts ++ closing :: us)) vs
        fun e => .ifThen condition (build e)
  | ifElseCondition {keyword opening closing otherwise : Token} {ts us vs ws : List Token}
      {whenTrue whenFalse : Stmt} {dangling : Bool} {build : Expr → Expr}
      (hkeyword : keyword.kind = .if) (hopening : opening.kind = .leftParen)
      (h : Context (.expression .assignment) ts us build) (hclosing : closing.kind = .rightParen)
      (htrue : Derives (.statement false) vs whenTrue) (hotherwise : otherwise.kind = .else)
      (hfalse : Derives (.statement dangling) ws whenFalse) :
      Context (.statement dangling) (keyword :: opening :: ts)
        (us ++ closing :: (vs ++ otherwise :: ws)) fun e => .ifElse (build e) whenTrue whenFalse
  | ifElseTrue {keyword opening closing otherwise : Token} {ts us vs ws : List Token}
      {condition : Expr} {whenFalse : Stmt} {dangling : Bool} {build : Expr → Stmt}
      (hkeyword : keyword.kind = .if) (hopening : opening.kind = .leftParen)
      (hcondition : Derives (.expression .assignment) ts condition)
      (hclosing : closing.kind = .rightParen) (h : Context (.statement false) us vs build)
      (hotherwise : otherwise.kind = .else) (hfalse : Derives (.statement dangling) ws whenFalse) :
      Context (.statement dangling) (keyword :: opening :: (ts ++ closing :: us))
        (vs ++ otherwise :: ws) fun e => .ifElse condition (build e) whenFalse
  | ifElseFalse {keyword opening closing otherwise : Token} {ts us vs ws : List Token}
      {condition : Expr} {whenTrue : Stmt} {dangling : Bool} {build : Expr → Stmt}
      (hkeyword : keyword.kind = .if) (hopening : opening.kind = .leftParen)
      (hcondition : Derives (.expression .assignment) ts condition)
      (hclosing : closing.kind = .rightParen) (htrue : Derives (.statement false) us whenTrue)
      (hotherwise : otherwise.kind = .else) (h : Context (.statement dangling) vs ws build) :
      Context (.statement dangling)
        (keyword :: opening :: (ts ++ closing :: (us ++ otherwise :: vs))) ws
        fun e => .ifElse condition whenTrue (build e)
  | whileCondition {keyword opening closing : Token} {ts us vs : List Token} {body : Stmt}
      {dangling : Bool} {build : Expr → Expr} (hkeyword : keyword.kind = .while)
      (hopening : opening.kind = .leftParen) (h : Context (.expression .assignment) ts us build)
      (hclosing : closing.kind = .rightParen) (hbody : Derives (.statement dangling) vs body) :
      Context (.statement dangling) (keyword :: opening :: ts) (us ++ closing :: vs)
        fun e => .while (build e) body
  | whileBody {keyword opening closing : Token} {ts us vs : List Token} {condition : Expr}
      {dangling : Bool} {build : Expr → Stmt} (hkeyword : keyword.kind = .while)
      (hopening : opening.kind = .leftParen)
      (hcondition : Derives (.expression .assignment) ts condition)
      (hclosing : closing.kind = .rightParen) (h : Context (.statement dangling) us vs build) :
      Context (.statement dangling) (keyword :: opening :: (ts ++ closing :: us)) vs
        fun e => .while condition (build e)
  | forInitializer {keyword opening semicolon closing : Token} {ts us vs ws xs : List Token}
      {condition increment : Option Expr} {body : Stmt} {dangling : Bool}
      {build : Expr → Option Stmt} (hkeyword : keyword.kind = .for)
      (hopening : opening.kind = .leftParen) (h : Context .initializer ts us build)
      (hcondition : Derives .optional vs condition) (hsemicolon : semicolon.kind = .semicolon)
      (hincrement : Derives .optional ws increment) (hclosing : closing.kind = .rightParen)
      (hbody : Derives (.statement dangling) xs body) :
      Context (.statement dangling) (keyword :: opening :: ts)
        (us ++ (vs ++ semicolon :: (ws ++ closing :: xs)))
        fun e => loop (build e) condition increment body
  | forCondition {keyword opening semicolon closing : Token} {ts us vs ws xs : List Token}
      {first : Option Stmt} {increment : Option Expr} {body : Stmt} {dangling : Bool}
      {build : Expr → Option Expr} (hkeyword : keyword.kind = .for)
      (hopening : opening.kind = .leftParen) (hfirst : Derives .initializer ts first)
      (h : Context .optional us vs build) (hsemicolon : semicolon.kind = .semicolon)
      (hincrement : Derives .optional ws increment) (hclosing : closing.kind = .rightParen)
      (hbody : Derives (.statement dangling) xs body) :
      Context (.statement dangling) (keyword :: opening :: (ts ++ us))
        (vs ++ semicolon :: (ws ++ closing :: xs)) fun e => loop first (build e) increment body
  | forIncrement {keyword opening semicolon closing : Token} {ts us vs ws xs : List Token}
      {first : Option Stmt} {condition : Option Expr} {body : Stmt} {dangling : Bool}
      {build : Expr → Option Expr} (hkeyword : keyword.kind = .for)
      (hopening : opening.kind = .leftParen) (hfirst : Derives .initializer ts first)
      (hcondition : Derives .optional us condition) (hsemicolon : semicolon.kind = .semicolon)
      (h : Context .optional vs ws build) (hclosing : closing.kind = .rightParen)
      (hbody : Derives (.statement dangling) xs body) :
      Context (.statement dangling) (keyword :: opening :: (ts ++ (us ++ semicolon :: vs)))
        (ws ++ closing :: xs) fun e => loop first condition (build e) body
  | forBody {keyword opening semicolon closing : Token} {ts us vs ws xs : List Token}
      {first : Option Stmt} {condition increment : Option Expr} {dangling : Bool}
      {build : Expr → Stmt} (hkeyword : keyword.kind = .for)
      (hopening : opening.kind = .leftParen) (hfirst : Derives .initializer ts first)
      (hcondition : Derives .optional us condition) (hsemicolon : semicolon.kind = .semicolon)
      (hincrement : Derives .optional vs increment) (hclosing : closing.kind = .rightParen)
      (h : Context (.statement dangling) ws xs build) :
      Context (.statement dangling)
        (keyword :: opening :: (ts ++ (us ++ semicolon :: (vs ++ closing :: ws)))) xs
        fun e => loop first condition increment (build e)
  | return {keyword semicolon : Token} {ts us : List Token} {build : Expr → Option Expr}
      (hkeyword : keyword.kind = .return) (h : Context .optional ts us build)
      (hsemicolon : semicolon.kind = .semicolon) :
      Context (.statement false) (keyword :: ts) (us ++ [semicolon])
        fun e => .return keyword (build e)
  | block {opening closing : Token} {ts us : List Token} {build : Expr → List Stmt}
      (hopening : opening.kind = .leftBrace) (h : Context .declarations ts us build)
      (hclosing : closing.kind = .rightBrace) :
      Context (.statement false) (opening :: ts) (us ++ [closing]) fun e => .block (build e)
  | expression {semicolon : Token} {ts us : List Token} {build : Expr → Expr}
      (h : Context (.expression .assignment) ts us build)
      (hsemicolon : semicolon.kind = .semicolon) :
      Context (.statement false) ts (us ++ [semicolon]) fun e => .expression (build e)
  | function {keyword name opening closing brace closingBrace : Token} {ts us vs : List Token}
      {declared : List Token} {build : Expr → List Stmt} (hkeyword : keyword.kind = .fun)
      (hname : name.kind = .identifier) (hopening : opening.kind = .leftParen)
      (hdeclared : Derives .parameters ts declared) (hclosing : closing.kind = .rightParen)
      (hbrace : brace.kind = .leftBrace) (h : Context .declarations us vs build)
      (hclosingBrace : closingBrace.kind = .rightBrace) :
      Context .declaration (keyword :: name :: opening :: (ts ++ closing :: brace :: us))
        (vs ++ [closingBrace]) fun e => .function name declared (build e)
  | var {keyword : Token} {ts us : List Token} {build : Expr → Stmt}
      (hkeyword : keyword.kind = .var)
      (h : Context .varDecl ts us build) : Context .declaration (keyword :: ts) us build
  | statement {dangling : Bool} {ts us : List Token} {build : Expr → Stmt}
      (h : Context (.statement dangling) ts us build) : Context .declaration ts us build
  | firstDeclaration {ts us vs : List Token} {ss : List Stmt} {build : Expr → Stmt}
      (h : Context .declaration ts us build) (hothers : Derives .declarations vs ss) :
      Context .declarations ts (us ++ vs) fun e => build e :: ss
  | otherDeclarations {ts us vs : List Token} {s : Stmt} {build : Expr → List Stmt}
      (hfirst : Derives .declaration ts s) (h : Context .declarations us vs build) :
      Context .declarations (ts ++ us) vs fun e => s :: build e

namespace Context

variable {symbol : Symbol} {before after ts : List Token} {build : Expr → symbol.Tree} {e e' : Expr}

/-- With any expression in its place the grammar derives the whole. -/
theorem derives (h : Context symbol before after build)
    (he : Derives (.expression .assignment) ts e) :
      Derives symbol (before ++ (ts ++ after)) (build e) := by
  induction h with
  | here => simpa using he
  | assigned hname hequal _ ih => exact .assign hname hequal ih
  | compounded hname hoperator _ ih => exact .compound hname hoperator ih
  | noAssignment _ ih => exact .noAssignment ih
  | condition _ hquestion htrue hcolon hfalse ih =>
    simpa using Derives.conditional ih hquestion htrue hcolon hfalse
  | whenTrue hcondition hquestion _ hcolon hfalse ih =>
    simpa using Derives.conditional hcondition hquestion ih hcolon hfalse
  | whenFalse hcondition hquestion htrue hcolon _ ih =>
    simpa using Derives.conditional hcondition hquestion htrue hcolon ih
  | noConditional _ ih => exact .noConditional ih
  | left _ hoperator hright ih => simpa using Derives.operation ih hoperator hright
  | right hleft hoperator _ ih => simpa using Derives.operation hleft hoperator ih
  | noOperation _ ih => exact .noOperation ih
  | operand hoperator _ ih => exact .unary hoperator ih
  | noUnary _ ih => exact .noUnary ih
  | callee _ hopening hpassed hparen ih => simpa using Derives.call ih hopening hpassed hparen
  | passed hcallee hopening _ hparen ih => simpa using Derives.call hcallee hopening ih hparen
  | noCall _ ih => exact .noCall ih
  | arguments _ hmost ih => exact .arguments ih (hmost e)
  | lastValue _ ih => exact .lastValue ih
  | firstValue _ hcomma hothers ih => simpa using Derives.moreValues ih hcomma hothers
  | otherValues hfirst hcomma _ ih => simpa using Derives.moreValues hfirst hcomma ih
  | group hopening _ hclosing ih => simpa using Derives.group hopening ih hclosing
  | host hkeyword hopening _ hclosing ih => simpa using Derives.host hkeyword hopening ih hclosing
  | present _ ih => exact .present ih
  | initialized hname hequal _ hsemicolon ih =>
    simpa using Derives.initialized hname hequal ih hsemicolon
  | variableInitializer hkeyword _ ih => exact .variableInitializer hkeyword ih
  | expressionInitializer _ hsemicolon ih => simpa using Derives.expressionInitializer ih hsemicolon
  | print hkeyword _ hsemicolon ih => simpa using Derives.print hkeyword ih hsemicolon
  | ifThenCondition hkeyword hopening _ hclosing htrue ih =>
    simpa using Derives.ifThen hkeyword hopening ih hclosing htrue
  | ifThenTrue hkeyword hopening hcondition hclosing _ ih =>
    simpa using Derives.ifThen hkeyword hopening hcondition hclosing ih
  | ifElseCondition hkeyword hopening _ hclosing htrue hotherwise hfalse ih =>
    simpa using Derives.ifElse hkeyword hopening ih hclosing htrue hotherwise hfalse
  | ifElseTrue hkeyword hopening hcondition hclosing _ hotherwise hfalse ih =>
    simpa using Derives.ifElse hkeyword hopening hcondition hclosing ih hotherwise hfalse
  | ifElseFalse hkeyword hopening hcondition hclosing htrue hotherwise _ ih =>
    simpa using Derives.ifElse hkeyword hopening hcondition hclosing htrue hotherwise ih
  | whileCondition hkeyword hopening _ hclosing hbody ih =>
    simpa using Derives.while hkeyword hopening ih hclosing hbody
  | whileBody hkeyword hopening hcondition hclosing _ ih =>
    simpa using Derives.while hkeyword hopening hcondition hclosing ih
  | forInitializer hkeyword hopening _ hcondition hsemicolon hincrement hclosing hbody ih =>
    simpa using Derives.for hkeyword hopening ih hcondition hsemicolon hincrement hclosing hbody
  | forCondition hkeyword hopening hfirst _ hsemicolon hincrement hclosing hbody ih =>
    simpa using Derives.for hkeyword hopening hfirst ih hsemicolon hincrement hclosing hbody
  | forIncrement hkeyword hopening hfirst hcondition hsemicolon _ hclosing hbody ih =>
    simpa using Derives.for hkeyword hopening hfirst hcondition hsemicolon ih hclosing hbody
  | forBody hkeyword hopening hfirst hcondition hsemicolon hincrement hclosing _ ih =>
    simpa using Derives.for hkeyword hopening hfirst hcondition hsemicolon hincrement hclosing ih
  | «return» hkeyword _ hsemicolon ih => simpa using Derives.return hkeyword ih hsemicolon
  | block hopening _ hclosing ih => simpa using Derives.block hopening ih hclosing
  | expression _ hsemicolon ih => simpa using Derives.expression ih hsemicolon
  | function hkeyword hname hopening hdeclared hclosing hbrace _ hclosingBrace ih =>
    simpa using Derives.function hkeyword hname hopening hdeclared hclosing hbrace ih hclosingBrace
  | var hkeyword _ ih => exact .var hkeyword ih
  | statement _ ih => exact .statement ih
  | firstDeclaration _ hothers ih => simpa using Derives.moreDeclarations ih hothers
  | otherDeclarations hfirst _ ih => simpa using Derives.moreDeclarations hfirst ih

end Context

/-! ## Expressions that are recast -/

/-- What is derived from a symbol is recast, in scopes with some marks. -/
def Symbol.Recast (r : Recasting) (marks : List Bool) :
    (symbol : Symbol) → symbol.Tree → symbol.Tree → Prop
  | .expression _, e, e' => e.Recast r marks e'
  | .optional, value, value' => Option.Rel (Expr.Recast r marks) value value'
  | .values, es, es' | .arguments, es, es' => Expr.AllRecast r marks es es'
  | .names, tokens, tokens' | .parameters, tokens, tokens' => tokens = tokens'
  | .initializer, first, first' => Option.Rel (Stmt.Recast r marks) first first'
  | .varDecl, s, s' | .statement _, s, s' | .declaration, s, s' => s.Recast r marks s'
  | .declarations, ss, ss' => Stmt.AllRecast r marks ss ss'

section Recast

variable {r : Recasting} {marks : List Bool}

theorem recast_joined {level : Level} {operator : Token} {left left' right right' : Expr}
    (hoperator : r.operators operator operator) (hleft : left.Recast r marks left')
    (hright : right.Recast r marks right') :
    (joined level left operator right).Recast r marks (joined level left' operator right') := by
  unfold joined
  split
  · exact .logical hleft hright
  · exact .binary hleft hoperator hright

theorem recast_return {keyword : Token} {value value' : Option Expr}
    (h : Option.Rel (Expr.Recast r marks) value value') :
    (Stmt.return keyword value).Recast r marks (.return keyword value') := by
  cases h with
  | none => exact .returnNil
  | some h => exact .returnValue h

/-- A loop is recast part by part, each in the scopes around it. -/
theorem recast_loop {first first' : Option Stmt}
    {condition condition' increment increment' : Option Expr}
    {body body' : Stmt}
    (hfirst : ∀ marks, AllKept marks → Option.Rel (Stmt.Recast r marks) first first')
    (hcondition : ∀ marks, AllKept marks → Option.Rel (Expr.Recast r marks) condition condition')
    (hincrement : ∀ marks, AllKept marks → Option.Rel (Expr.Recast r marks) increment increment')
    (hbody : ∀ marks, AllKept marks → body.Recast r marks body') (hmarks : AllKept marks) :
    (loop first condition increment body).Recast r marks
    (loop first' condition' increment' body') := by
  have hround : ∀ marks, AllKept marks →
      (round body increment).Recast r marks (round body' increment') := by
    intro marks hmarks
    cases hincrement _ hmarks.enter with
    | none => exact hbody marks hmarks
    | some h => exact .block (.cons (hbody _ hmarks.enter) (.cons (.expression h) .nil))
  have hrounds : ∀ marks, AllKept marks →
      (Stmt.while (condition.getD (.literal (.bool true))) (round body increment)).Recast r marks
        (Stmt.while (condition'.getD (.literal (.bool true))) (round body' increment')) := by
    intro marks hmarks
    cases hcondition marks hmarks with
    | none => exact .while .literal (hround marks hmarks)
    | some h => exact .while h (hround marks hmarks)
  cases hfirst _ hmarks.enter with
  | none => exact hrounds marks hmarks
  | some h => exact .block (.cons h (.cons (hrounds _ hmarks.enter) .nil))

/-- What is derived is recast where an expression in it is. -/
theorem Context.recast {symbol : Symbol} {before after : List Token} {build : Expr → symbol.Tree}
    (h : Context symbol before after build) (hr : r.Renumbers AllKept AnyIds) {e e' : Expr}
    (he : ∀ marks, AllKept marks → e.Recast r marks e') (hmarks : AllKept marks) :
    symbol.Recast r marks (build e) (build e') := by
  have hself : ∀ {marks}, AllKept marks → ∀ e : Expr, e.Recast r marks e := fun hmarks e =>
    (Expr.Alike.refl (fun _ => trivial) (fun _ => rfl) e).recast hr hmarks
  have hselves : ∀ {marks}, AllKept marks → ∀ es : List Expr, Expr.AllRecast r marks es es :=
    fun hmarks es => (Expr.AllAlike.refl (fun _ => trivial) (fun _ => rfl) es).recast hr hmarks
  have hoptional : ∀ {marks}, AllKept marks → ∀ value : Option Expr,
      Option.Rel (Expr.Recast r marks) value value := by
    rintro marks hmarks (_ | e)
    · exact .none
    · exact .some (hself hmarks e)
  have hstatement : ∀ {marks}, AllKept marks → ∀ {s : Stmt}, s.WellFormed → s.Recast r marks s :=
    fun hmarks s hwf => (Stmt.Alike.refl (fun _ => trivial) (fun _ => rfl) s).recast hr hmarks hwf
      fun hmiss => absurd hmiss hmarks.head?_ne
  have hstatements : ∀ {marks}, AllKept marks → ∀ {ss : List Stmt}, Stmt.AllWellFormed ss →
      Stmt.AllRecast r marks ss ss :=
    fun hmarks ss hwf =>
      (Stmt.AllAlike.refl (fun _ => trivial) (fun _ => rfl) ss).recast hr hmarks hwf
      fun hmiss => absurd hmiss hmarks.head?_ne
  have hfirst : ∀ {marks}, AllKept marks → ∀ {ts : List Token} {first : Option Stmt},
      Derives .initializer ts first → Option.Rel (Stmt.Recast r marks) first first := by
    rintro marks hmarks ts (_ | s) hderives
    · exact .none
    · exact .some (hstatement hmarks (hderives.wellFormed s rfl))
  induction h generalizing marks with
  | here => exact he marks hmarks
  | assigned _ _ _ ih => exact .assign (hr.accesses _ hmarks _ _ trivial) (ih hmarks)
  | compounded _ _ _ ih =>
    exact .assign (hr.accesses _ hmarks _ _ trivial)
      (.binary (hself hmarks _) (hr.operators _) (ih hmarks))
  | noAssignment _ ih | noConditional _ ih | noOperation _ ih | noUnary _ ih | noCall _ ih
  | arguments _ _ ih | var _ _ ih | statement _ ih => exact ih hmarks
  | condition _ _ _ _ _ ih => exact .conditional (ih hmarks) (hself hmarks _) (hself hmarks _)
  | whenTrue _ _ _ _ _ ih => exact .conditional (hself hmarks _) (ih hmarks) (hself hmarks _)
  | whenFalse _ _ _ _ _ ih => exact .conditional (hself hmarks _) (hself hmarks _) (ih hmarks)
  | left _ _ _ ih => exact recast_joined (hr.operators _) (ih hmarks) (hself hmarks _)
  | right _ _ _ ih => exact recast_joined (hr.operators _) (hself hmarks _) (ih hmarks)
  | operand _ _ ih => exact .unary (ih hmarks)
  | callee _ _ _ _ ih => exact .call (ih hmarks) (hselves hmarks _)
  | passed _ _ _ _ ih => exact .call (hself hmarks _) (ih hmarks)
  | lastValue _ ih => exact .cons (ih hmarks) .nil
  | firstValue _ _ _ ih => exact .cons (ih hmarks) (hselves hmarks _)
  | otherValues _ _ _ ih => exact .cons (hself hmarks _) (ih hmarks)
  | group _ _ _ ih => exact .group (ih hmarks)
  | host _ _ _ _ ih => exact .host (ih hmarks)
  | present _ ih => exact .some (ih hmarks)
  | initialized _ _ _ _ ih => exact .varValue hmarks.head?_ne (ih hmarks)
  | variableInitializer _ _ ih => exact .some (ih hmarks)
  | expressionInitializer _ _ ih => exact .some (.expression (ih hmarks))
  | print _ _ _ ih => exact .print (ih hmarks)
  | ifThenCondition _ _ _ _ htrue ih =>
    exact .ifThen (ih hmarks) (hstatement hmarks htrue.wellFormed.2)
  | ifThenTrue _ _ _ _ _ ih => exact .ifThen (hself hmarks _) (ih hmarks)
  | ifElseCondition _ _ _ _ htrue _ hfalse ih =>
    exact .ifElse (ih hmarks) (hstatement hmarks htrue.wellFormed.2)
      (hstatement hmarks hfalse.wellFormed.2)
  | ifElseTrue _ _ _ _ _ _ hfalse ih =>
    exact .ifElse (hself hmarks _) (ih hmarks) (hstatement hmarks hfalse.wellFormed.2)
  | ifElseFalse _ _ _ _ htrue _ _ ih =>
    exact .ifElse (hself hmarks _) (hstatement hmarks htrue.wellFormed.2) (ih hmarks)
  | whileCondition _ _ _ _ hbody ih =>
    exact .while (ih hmarks) (hstatement hmarks hbody.wellFormed.2)
  | whileBody _ _ _ _ _ ih => exact .while (hself hmarks _) (ih hmarks)
  | forInitializer _ _ _ _ _ _ _ hbody ih =>
    exact recast_loop (fun _ hmarks => ih hmarks) (fun _ hmarks => hoptional hmarks _)
      (fun _ hmarks => hoptional hmarks _)
      (fun _ hmarks => hstatement hmarks hbody.wellFormed.2) hmarks
  | forCondition _ _ hinitializer _ _ _ _ hbody ih =>
    exact recast_loop (fun _ hmarks => hfirst hmarks hinitializer) (fun _ hmarks => ih hmarks)
      (fun _ hmarks => hoptional hmarks _)
      (fun _ hmarks => hstatement hmarks hbody.wellFormed.2) hmarks
  | forIncrement _ _ hinitializer _ _ _ _ hbody ih =>
    exact recast_loop (fun _ hmarks => hfirst hmarks hinitializer)
      (fun _ hmarks => hoptional hmarks _) (fun _ hmarks => ih hmarks)
      (fun _ hmarks => hstatement hmarks hbody.wellFormed.2) hmarks
  | forBody _ _ hinitializer _ _ _ _ _ ih =>
    exact recast_loop (fun _ hmarks => hfirst hmarks hinitializer)
      (fun _ hmarks => hoptional hmarks _) (fun _ hmarks => hoptional hmarks _)
      (fun _ hmarks => ih hmarks) hmarks
  | «return» _ _ _ ih => exact recast_return (ih hmarks)
  | block _ _ _ ih => exact .block (ih hmarks.enter)
  | expression _ _ ih => exact .expression (ih hmarks)
  | function _ _ _ _ _ _ _ _ ih => exact .function hmarks.head?_ne (ih hmarks.enter)
  | firstDeclaration _ hothers ih => exact .cons (ih hmarks) (hstatements hmarks hothers.wellFormed)
  | otherDeclarations hfirst _ ih =>
    exact .cons (hstatement hmarks hfirst.wellFormed) (ih hmarks)

end Recast

end Grammar

end Lox
