/-
# The grammar of programs

`Derives symbol tokens tree` says that the grammar derives a sequence of tokens from a symbol, and
which tree belongs to the derivation. Nothing here reads tokens in order or looks ahead: the rules
are those of the language's documentation, with what it adds in words. Binary operators of a level
group to the left, since their rule recurs on the left; conditional expressions, assignments and
operators before an operand group to the right. What compound assignments and `for` loops stand for
is part of their rules.

    declarations → declaration*
    declaration  → "fun" IDENT "(" parameters ")" block | "var" varDecl | statement
    varDecl      → IDENT ( "=" expression )? ";"
    parameters   → ( IDENT ( "," IDENT )* )?, at most 255
    statement    → print | if | while | for | return | block | exprStmt
    for          → "for" "(" initializer expression? ";" expression? ")" statement
    initializer  → ";" | "var" varDecl | expression ";"
    expression   → IDENT "=" expression | IDENT ( "+=" | "-=" ) expression | conditional
    conditional  → operation ( "?" expression ":" conditional )?
    operation    → operand ( operator operand )*, at each level
    unary        → ( "!" | "-" ) unary | call
    call         → primary ( "(" arguments ")" )*
    arguments    → ( expression ( "," expression )* )?, at most 255
    primary      → literals | IDENT | "(" expression ")" | "host" "(" expression ")"

An `else` belongs to the nearest `if` that is still open. So the statement between an `if` and its
own `else` is never one that ends in an open `if`, one that dangles; the flag of `Symbol.statement`
tells whether a statement does.

Which number an access carries is no matter of grammar. The trees of derivations number every access
zero, and `Expr.unnumbered` and `Stmt.unnumbered` make other trees comparable with them.
-/

import Lox.Parse.Phrase

namespace Lox

mutual

/-- An expression with every access numbered zero. -/
def Expr.unnumbered : Expr → Expr
  | .literal value => .literal value
  | .read _ name => .read 0 name
  | .assign _ name value => .assign 0 name value.unnumbered
  | .unary operator operand => .unary operator operand.unnumbered
  | .binary left operator right => .binary left.unnumbered operator right.unnumbered
  | .logical left operator right => .logical left.unnumbered operator right.unnumbered
  | .conditional condition whenTrue whenFalse =>
    .conditional condition.unnumbered whenTrue.unnumbered whenFalse.unnumbered
  | .call callee paren arguments =>
    .call callee.unnumbered paren (Expr.allUnnumbered arguments)
  | .group inner => .group inner.unnumbered
  | .host keyword code => .host keyword code.unnumbered

/-- Expressions with every access numbered zero. -/
def Expr.allUnnumbered : List Expr → List Expr
  | [] => []
  | e :: es => e.unnumbered :: Expr.allUnnumbered es

end

mutual

/-- A statement with every access numbered zero. -/
def Stmt.unnumbered : Stmt → Stmt
  | .block body => .block (Stmt.allUnnumbered body)
  | .expression value => .expression value.unnumbered
  | .function name parameters body => .function name parameters (Stmt.allUnnumbered body)
  | .ifThen condition whenTrue => .ifThen condition.unnumbered whenTrue.unnumbered
  | .ifElse condition whenTrue whenFalse =>
    .ifElse condition.unnumbered whenTrue.unnumbered whenFalse.unnumbered
  | .print keyword value => .print keyword value.unnumbered
  | .return keyword none => .return keyword none
  | .return keyword (some value) => .return keyword (some value.unnumbered)
  | .var name none => .var name none
  | .var name (some value) => .var name (some value.unnumbered)
  | .while condition body => .while condition.unnumbered body.unnumbered

/-- Statements with every access numbered zero. -/
def Stmt.allUnnumbered : List Stmt → List Stmt
  | [] => []
  | s :: ss => s.unnumbered :: Stmt.allUnnumbered ss

end

namespace Grammar

open Phrase (Level)

/-- The symbols that derive expressions. -/
inductive Form where
  /-- Any expression. -/
  | assignment
  /-- An expression that is no assignment. -/
  | conditional
  /-- Operands joined by operators of a level, or a single operand. -/
  | operation (level : Level)
  /-- An operand with the operators before it. -/
  | unary
  /-- A primary expression with the calls behind it. -/
  | call
  /-- An expression that no operator takes apart. -/
  | primary

/-- The symbols of the grammar. -/
inductive Symbol where
  /-- An expression of some form. -/
  | expression (form : Form)
  /-- An expression, or nothing. -/
  | optional
  /-- One or more expressions between commas. -/
  | values
  /-- What stands between the parentheses of a call. -/
  | arguments
  /-- One or more names between commas. -/
  | names
  /-- What stands between the parentheses of a function declaration. -/
  | parameters
  /-- A variable declaration behind its keyword. -/
  | varDecl
  /-- The first clause of a `for` loop, with its semicolon. -/
  | initializer
  /-- A statement, which dangles if it ends in an `if` that is open to an `else`. -/
  | statement (dangling : Bool)
  /-- A statement or a declaration. -/
  | declaration
  /-- The declarations of a block or a whole program. -/
  | declarations

/-- What the tree of a derivation is. -/
abbrev Symbol.Tree : Symbol → Type
  | expression _ => Expr
  | optional => Option Expr
  | values | arguments => List Expr
  | names | parameters => List Token
  | initializer => Option Stmt
  | varDecl | statement _ | declaration => Stmt
  | declarations => List Stmt

/-- The operators of each level of binary operators. -/
def operators : Level → List Token.Kind
  | .or => [.or]
  | .and => [.and]
  | .equality => [.bangEqual, .equalEqual]
  | .comparison => [.greater, .greaterEqual, .less, .lessEqual]
  | .term => [.minus, .plus]
  | .factor => [.slash, .star]

/-- What the operators of a level join: operations of the next level, and in the end operands that
no binary operator takes apart. -/
def tighter : Level → Form
  | .or => .operation .and
  | .and => .operation .equality
  | .equality => .operation .comparison
  | .comparison => .operation .term
  | .term => .operation .factor
  | .factor => .unary

/-- The tree of an operation of a level. -/
def joined (level : Level) (left : Expr) (operator : Token) (right : Expr) : Expr :=
  if level = .or ∨ level = .and then .logical left operator right else .binary left operator right

/-- What a `for` loop does in each round: its body, and then its increment. -/
def round (body : Stmt) : (increment : Option Expr) → Stmt
  | none => body
  | some increment => .block [body, .expression increment]

/-- What a `for` loop stands for. A loop with an initializer has a scope of its own, and one without
a condition goes on for ever. -/
def loop (initializer : Option Stmt) (condition increment : Option Expr) (body : Stmt) : Stmt :=
  let rounds := .while (condition.getD (.literal (.bool true))) (round body increment)
  match initializer with
  | none => rounds
  | some first => .block [first, rounds]

/-- The most arguments that a call can pass, and the most parameters that a function can have. -/
def mostArguments : Nat := 255

/-- The grammar derives a sequence of tokens from a symbol, with a tree. -/
inductive Derives : (symbol : Symbol) → List Token → symbol.Tree → Prop where
  | assign {name equal : Token} {us : List Token} {value : Expr}
      (hname : name.kind = .identifier) (hequal : equal.kind = .equal)
      (hvalue : Derives (.expression .assignment) us value) :
      Derives (.expression .assignment) (name :: equal :: us) (.assign 0 name value)
  | compound {name operator : Token} {us : List Token} {value : Expr}
      (hname : name.kind = .identifier)
      (hoperator : operator.kind = .plusEqual ∨ operator.kind = .minusEqual)
      (hvalue : Derives (.expression .assignment) us value) :
      Derives (.expression .assignment) (name :: operator :: us)
        (.assign 0 name (.binary (.read 0 name) operator value))
  | noAssignment {ts : List Token} {e : Expr} (h : Derives (.expression .conditional) ts e) :
      Derives (.expression .assignment) ts e
  | conditional {question colon : Token} {ts us vs : List Token}
      {condition whenTrue whenFalse : Expr}
      (hcondition : Derives (.expression (.operation .or)) ts condition)
      (hquestion : question.kind = .question)
      (htrue : Derives (.expression .assignment) us whenTrue) (hcolon : colon.kind = .colon)
      (hfalse : Derives (.expression .conditional) vs whenFalse) :
      Derives (.expression .conditional) (ts ++ question :: (us ++ colon :: vs))
        (.conditional condition whenTrue whenFalse)
  | noConditional {ts : List Token} {e : Expr} (h : Derives (.expression (.operation .or)) ts e) :
      Derives (.expression .conditional) ts e
  | operation {level : Level} {operator : Token} {ts us : List Token} {left right : Expr}
      (hleft : Derives (.expression (.operation level)) ts left)
      (hoperator : operator.kind ∈ operators level)
      (hright : Derives (.expression (tighter level)) us right) :
      Derives (.expression (.operation level)) (ts ++ operator :: us)
        (joined level left operator right)
  | noOperation {level : Level} {ts : List Token} {e : Expr}
      (h : Derives (.expression (tighter level)) ts e) :
      Derives (.expression (.operation level)) ts e
  | unary {operator : Token} {us : List Token} {operand : Expr}
      (hoperator : operator.kind = .bang ∨ operator.kind = .minus)
      (hoperand : Derives (.expression .unary) us operand) :
      Derives (.expression .unary) (operator :: us) (.unary operator operand)
  | noUnary {ts : List Token} {e : Expr} (h : Derives (.expression .call) ts e) :
      Derives (.expression .unary) ts e
  | call {opening paren : Token} {ts us : List Token} {callee : Expr} {passed : List Expr}
      (hcallee : Derives (.expression .call) ts callee) (hopening : opening.kind = .leftParen)
      (hpassed : Derives .arguments us passed) (hparen : paren.kind = .rightParen) :
      Derives (.expression .call) (ts ++ opening :: (us ++ [paren])) (.call callee paren passed)
  | noCall {ts : List Token} {e : Expr} (h : Derives (.expression .primary) ts e) :
      Derives (.expression .call) ts e
  | falseLiteral {token : Token} (h : token.kind = .false) :
      Derives (.expression .primary) [token] (.literal (.bool false))
  | trueLiteral {token : Token} (h : token.kind = .true) :
      Derives (.expression .primary) [token] (.literal (.bool true))
  | nilLiteral {token : Token} (h : token.kind = .nil) :
      Derives (.expression .primary) [token] (.literal .nil)
  | numberLiteral {token : Token} {value : Int64} (h : token.kind = .number ∨ token.kind = .string)
      (hliteral : token.literal = some (.number value)) :
      Derives (.expression .primary) [token] (.literal (.number value))
  | stringLiteral {token : Token} {value : String} (h : token.kind = .number ∨ token.kind = .string)
      (hliteral : token.literal = some (.string value)) :
      Derives (.expression .primary) [token] (.literal (.string value))
  | read {name : Token} (h : name.kind = .identifier) :
      Derives (.expression .primary) [name] (.read 0 name)
  | group {opening closing : Token} {us : List Token} {inner : Expr}
      (hopening : opening.kind = .leftParen) (hinner : Derives (.expression .assignment) us inner)
      (hclosing : closing.kind = .rightParen) :
      Derives (.expression .primary) (opening :: (us ++ [closing])) (.group inner)
  | host {keyword opening closing : Token} {us : List Token} {code : Expr}
      (hkeyword : keyword.kind = .host) (hopening : opening.kind = .leftParen)
      (hcode : Derives (.expression .assignment) us code) (hclosing : closing.kind = .rightParen) :
      Derives (.expression .primary) (keyword :: opening :: (us ++ [closing]))
        (.host keyword code)
  | absent : Derives .optional [] none
  | present {ts : List Token} {e : Expr} (h : Derives (.expression .assignment) ts e) :
      Derives .optional ts (some e)
  | lastValue {ts : List Token} {e : Expr} (h : Derives (.expression .assignment) ts e) :
      Derives .values ts [e]
  | moreValues {comma : Token} {ts us : List Token} {e : Expr} {es : List Expr}
      (h : Derives (.expression .assignment) ts e) (hcomma : comma.kind = .comma)
      (hothers : Derives .values us es) : Derives .values (ts ++ comma :: us) (e :: es)
  | noArguments : Derives .arguments [] []
  | arguments {ts : List Token} {es : List Expr} (h : Derives .values ts es)
      (hmost : es.length ≤ mostArguments) : Derives .arguments ts es
  | lastName {name : Token} (h : name.kind = .identifier) : Derives .names [name] [name]
  | moreNames {name comma : Token} {us names : List Token} (h : name.kind = .identifier)
      (hcomma : comma.kind = .comma) (hothers : Derives .names us names) :
      Derives .names (name :: comma :: us) (name :: names)
  | noParameters : Derives .parameters [] []
  | parameters {ts names : List Token} (h : Derives .names ts names)
      (hmost : names.length ≤ mostArguments) : Derives .parameters ts names
  | uninitialized {name semicolon : Token} (hname : name.kind = .identifier)
      (hsemicolon : semicolon.kind = .semicolon) :
      Derives .varDecl [name, semicolon] (.var name none)
  | initialized {name equal semicolon : Token} {us : List Token} {value : Expr}
      (hname : name.kind = .identifier) (hequal : equal.kind = .equal)
      (hvalue : Derives (.expression .assignment) us value)
      (hsemicolon : semicolon.kind = .semicolon) :
      Derives .varDecl (name :: equal :: (us ++ [semicolon])) (.var name (some value))
  | noInitializer {semicolon : Token} (hsemicolon : semicolon.kind = .semicolon) :
      Derives .initializer [semicolon] none
  | variableInitializer {keyword : Token} {us : List Token} {declared : Stmt}
      (hkeyword : keyword.kind = .var) (h : Derives .varDecl us declared) :
      Derives .initializer (keyword :: us) (some declared)
  | expressionInitializer {semicolon : Token} {ts : List Token} {value : Expr}
      (h : Derives (.expression .assignment) ts value) (hsemicolon : semicolon.kind = .semicolon) :
      Derives .initializer (ts ++ [semicolon]) (some (.expression value))
  | print {keyword semicolon : Token} {us : List Token} {value : Expr}
      (hkeyword : keyword.kind = .print) (hvalue : Derives (.expression .assignment) us value)
      (hsemicolon : semicolon.kind = .semicolon) :
      Derives (.statement false) (keyword :: (us ++ [semicolon])) (.print keyword value)
  | ifThen {keyword opening closing : Token} {us vs : List Token} {condition : Expr}
      {whenTrue : Stmt} {dangling : Bool} (hkeyword : keyword.kind = .if)
      (hopening : opening.kind = .leftParen)
      (hcondition : Derives (.expression .assignment) us condition)
      (hclosing : closing.kind = .rightParen) (htrue : Derives (.statement dangling) vs whenTrue) :
      Derives (.statement true) (keyword :: opening :: (us ++ closing :: vs))
        (.ifThen condition whenTrue)
  | ifElse {keyword opening closing otherwise : Token} {us vs ws : List Token} {condition : Expr}
      {whenTrue whenFalse : Stmt} {dangling : Bool} (hkeyword : keyword.kind = .if)
      (hopening : opening.kind = .leftParen)
      (hcondition : Derives (.expression .assignment) us condition)
      (hclosing : closing.kind = .rightParen)
      (htrue : Derives (.statement false) vs whenTrue) (hotherwise : otherwise.kind = .else)
      (hfalse : Derives (.statement dangling) ws whenFalse) :
      Derives (.statement dangling)
        (keyword :: opening :: (us ++ closing :: (vs ++ otherwise :: ws)))
        (.ifElse condition whenTrue whenFalse)
  | while {keyword opening closing : Token} {us vs : List Token} {condition : Expr} {body : Stmt}
      {dangling : Bool} (hkeyword : keyword.kind = .while) (hopening : opening.kind = .leftParen)
      (hcondition : Derives (.expression .assignment) us condition)
      (hclosing : closing.kind = .rightParen) (hbody : Derives (.statement dangling) vs body) :
      Derives (.statement dangling) (keyword :: opening :: (us ++ closing :: vs))
        (.while condition body)
  | for {keyword opening semicolon closing : Token} {us vs ws xs : List Token}
      {first : Option Stmt} {condition increment : Option Expr} {body : Stmt} {dangling : Bool}
      (hkeyword : keyword.kind = .for) (hopening : opening.kind = .leftParen)
      (hfirst : Derives .initializer us first) (hcondition : Derives .optional vs condition)
      (hsemicolon : semicolon.kind = .semicolon) (hincrement : Derives .optional ws increment)
      (hclosing : closing.kind = .rightParen) (hbody : Derives (.statement dangling) xs body) :
      Derives (.statement dangling)
        (keyword :: opening :: (us ++ (vs ++ semicolon :: (ws ++ closing :: xs))))
        (loop first condition increment body)
  | return {keyword semicolon : Token} {us : List Token} {value : Option Expr}
      (hkeyword : keyword.kind = .return) (hvalue : Derives .optional us value)
      (hsemicolon : semicolon.kind = .semicolon) :
      Derives (.statement false) (keyword :: (us ++ [semicolon])) (.return keyword value)
  | block {opening closing : Token} {us : List Token} {body : List Stmt}
      (hopening : opening.kind = .leftBrace) (hbody : Derives .declarations us body)
      (hclosing : closing.kind = .rightBrace) :
      Derives (.statement false) (opening :: (us ++ [closing])) (.block body)
  | expression {semicolon : Token} {ts : List Token} {value : Expr}
      (hvalue : Derives (.expression .assignment) ts value)
      (hsemicolon : semicolon.kind = .semicolon) :
      Derives (.statement false) (ts ++ [semicolon]) (.expression value)
  | function {keyword name opening closing brace closingBrace : Token} {us vs : List Token}
      {declared : List Token} {body : List Stmt} (hkeyword : keyword.kind = .fun)
      (hname : name.kind = .identifier) (hopening : opening.kind = .leftParen)
      (hdeclared : Derives .parameters us declared) (hclosing : closing.kind = .rightParen)
      (hbrace : brace.kind = .leftBrace) (hbody : Derives .declarations vs body)
      (hclosingBrace : closingBrace.kind = .rightBrace) :
      Derives .declaration
        (keyword :: name :: opening :: (us ++ closing :: brace :: (vs ++ [closingBrace])))
        (.function name declared body)
  | var {keyword : Token} {us : List Token} {declared : Stmt} (hkeyword : keyword.kind = .var)
      (h : Derives .varDecl us declared) : Derives .declaration (keyword :: us) declared
  | statement {dangling : Bool} {ts : List Token} {s : Stmt}
      (h : Derives (.statement dangling) ts s) :
      Derives .declaration ts s
  | noDeclarations : Derives .declarations [] []
  | moreDeclarations {ts us : List Token} {s : Stmt} {ss : List Stmt}
      (h : Derives .declaration ts s) (hothers : Derives .declarations us ss) :
      Derives .declarations (ts ++ us) (s :: ss)

/-- A primary expression with calls behind it may stand wherever an expression may. -/
theorem Derives.of_call {ts : List Token} {e : Expr} (h : Derives (.expression .call) ts e) :
    Derives (.expression .assignment) ts e := by
  have hfactor : Derives (.expression (.operation .factor)) ts e := .noOperation (.noUnary h)
  have hcomparison : Derives (.expression (.operation .comparison)) ts e :=
    .noOperation (.noOperation hfactor)
  exact .noAssignment (.noConditional (.noOperation (.noOperation (.noOperation hcomparison))))

end Grammar

end Lox
