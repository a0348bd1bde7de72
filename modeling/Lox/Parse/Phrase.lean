/-
# The phrases of the grammar

One procedure for each phrase of the grammar reads it from the front of the tokens that are left.
Every procedure looks at one token to decide what to do. Binary operators of one level are read from
left to right, so they group to the left; conditional expressions and assignments call themselves
for what is on their right, so they group to the right. What `for` and the compound assignments
stand for is built here out of the other constructs, and nothing later knows of them.

A procedure that fails leaves the remaining tokens as they are at that point.

The procedures do not say how it is kept track of what has been read. They are written over any
`Stream` of tokens. Programs are read with a cursor on their tokens (`Lox.Parse.Cursor`); what is
read is easiest to say of the tokens that are left (`Lox.Parse.Reader`).
-/

import Lox.CallTree.Routine
import Lox.Parse.Problem
import Lox.Tree.Basic

namespace Lox

/-- The levels of binary operators, from the loosest to the tightest. -/
inductive Phrase.Level where
  | or | and | equality | comparison | term | factor
  deriving DecidableEq, Repr

/-- The forms of expression, from the loosest to the tightest. -/
inductive Phrase.Form where
  /-- Any expression. -/
  | assignment
  /-- A conditional expression or anything tighter. -/
  | conditional
  /-- Operands joined by the operators of one level. -/
  | operation (level : Phrase.Level)
  /-- The operators of one level that follow `left`, with their right operands. -/
  | operations (level : Phrase.Level) (left : Expr)
  /-- Operators before an operand. -/
  | unary
  /-- A primary expression and the calls that follow it. -/
  | call
  /-- The calls that follow `callee`. -/
  | calls (callee : Expr)

/-- The phrases of the grammar. -/
inductive Phrase where
  /-- An expression of some form. -/
  | expression (form : Phrase.Form)
  /-- One or more arguments of a call, `count` of which are read already. -/
  | arguments (count : Nat)
  /-- One or more parameters of a function, `count` of which are read already. -/
  | parameters (count : Nat)
  /-- A statement or a declaration. -/
  | declaration
  /-- A statement. -/
  | statement
  /-- The declarations of a block and the brace that closes it. -/
  | block
  /-- The declarations of a program up to its end, malformed ones included. -/
  | program

namespace Phrase

/-- What a phrase is read as. -/
abbrev Result : Phrase → Type
  | expression _ => Expr
  | arguments _ => List Expr
  | parameters _ => List Token
  | declaration => Stmt
  | statement => Stmt
  | block => List Stmt
  | program => List (Except ParseError Stmt)

/-- The operators of a level. -/
def Level.has : Level → Token.Kind → Bool
  | or, kind => kind = .or
  | and, kind => kind = .and
  | equality, kind => kind = .bangEqual || kind = .equalEqual
  | comparison, kind =>
    kind = .greater || kind = .greaterEqual || kind = .less || kind = .lessEqual
  | term, kind => kind = .minus || kind = .plus
  | factor, kind => kind = .slash || kind = .star

/-- The form that the operands of a level have. -/
def Level.operand : Level → Form
  | or => .operation .and
  | and => .operation .equality
  | equality => .operation .comparison
  | comparison => .operation .term
  | term => .operation .factor
  | factor => .unary

/-- The expression that an operator of a level builds. -/
def Level.join : Level → Expr → Token → Expr → Expr
  | or, left, operator, right | and, left, operator, right => .logical left operator right
  | _, left, operator, right => .binary left operator right

/-- A step in reading a phrase, where `ρ` says how far reading has come. -/
abbrev StepOn (ρ α : Type) : Type := Routine ρ ParseError Result α

/-- A way of going along the tokens of a program. -/
class Stream (ρ : Type) where
  /-- Whether no token is left but the one that closes the program. -/
  atEnd : StepOn ρ Bool
  /-- Read on past the next token. -/
  skip : StepOn ρ Unit
  /-- The next token if it is of a wanted kind, and in that case read on past it. -/
  accept (wanted : Token.Kind → Bool) : StepOn ρ (Option Token)
  /-- Go on where the next declaration is likely to start. -/
  recover : StepOn ρ Unit
  /-- The number for one more variable access. -/
  freshId : StepOn ρ AccessId

/-- A stream whose next token can be looked at, given what `κ` says of the program. -/
class Sight (κ : Type) (ρ : outParam Type) where
  /-- The next token, which is the one that closes the program when no other is left. -/
  peek (closing : κ) : StepOn ρ Token

export Stream (atEnd skip accept recover freshId)
export Sight (peek)

variable {κ ρ α : Type} [Stream ρ] [Sight κ ρ]

/-! ## Single tokens -/

section Tokens

variable (closing : κ)

/-- Fail at the next token. -/
def reject (problem : ParseProblem) : StepOn ρ α := do
  let token ← peek closing
  Routine.fail ⟨token, problem⟩

/-- Read past the token that is due, or fail at the one that stands in its place. -/
def expect (expected : Expectation) : StepOn ρ Token := do
  match ← accept (· = expected.kind) with
  | some token => pure token
  | none => reject closing (.missing expected)

/-- What `present` reads, or `absent` if the next token is of a kind that says it was left out. -/
def unlessAt (kind : Token.Kind) (absent : α) (present : StepOn ρ α) : StepOn ρ α := do
  let token ← peek closing
  if token.kind = kind then pure absent else present

end Tokens

/-- Any expression. -/
def anyExpression : Phrase := .expression .assignment

/-! ## Expressions -/

section Expressions

variable (closing : κ)

/-- The assignment of `value` to what was read as `target`. A compound assignment reads the variable
and applies the operator before it assigns. -/
def assignment (target : Expr) (operator : Token) (value : Expr) : StepOn ρ Expr :=
  match target with
  | .read _ name =>
    if operator.kind = .equal then do
      let id ← freshId
      pure (.assign id name value)
    else do
      let readId ← freshId
      let id ← freshId
      pure (.assign id name (.binary (.read readId name) operator value))
  | _ => .fail ⟨operator, .invalidTarget⟩

/-- The operators that assign. -/
def assigns (kind : Token.Kind) : Bool :=
  kind = .equal || kind = .plusEqual || kind = .minusEqual

/-- A constant, a name, a parenthesised expression or a command to the host. -/
def primary : StepOn ρ Expr := do
  let token ← peek closing
  match token.kind with
  | .false => skip; pure (.literal (.bool false))
  | .true => skip; pure (.literal (.bool true))
  | .nil => skip; pure (.literal .nil)
  | .number | .string =>
    match token.literal with
    | some (.number value) => skip; pure (.literal (.number value))
    | some (.string value) => skip; pure (.literal (.string value))
    | none => Routine.fail ⟨token, .valuelessLiteral⟩
  | .identifier =>
    let id ← freshId
    skip
    pure (.read id token)
  | .leftParen =>
    skip
    let inner ← Routine.call anyExpression
    let _ ← expect closing .parenAfterGroup
    pure (.group inner)
  | .host =>
    skip
    let _ ← expect closing .parenAfterHost
    let code ← Routine.call anyExpression
    let _ ← expect closing .parenAfterHostCode
    pure (.host token code)
  | .this | .super => Routine.fail ⟨token, .unsupportedClass⟩
  | _ => Routine.fail ⟨token, .missingExpression⟩

/-- Read an expression of some form. -/
def form : Form → StepOn ρ Expr
  | .assignment => do
    let target ← Routine.call (expression .conditional)
    match ← accept assigns with
    | none => pure target
    | some operator =>
      let value ← Routine.call (expression .assignment)
      assignment target operator value
  | .conditional => do
    let condition ← Routine.call (expression (.operation .or))
    match ← accept (· = .question) with
    | none => pure condition
    | some _ =>
      let whenTrue ← Routine.call anyExpression
      let _ ← expect closing .colonInConditional
      let whenFalse ← Routine.call (expression .conditional)
      pure (.conditional condition whenTrue whenFalse)
  | .operation level => do
    let left ← Routine.call (expression level.operand)
    Routine.jump (expression (.operations level left))
  | .operations level left => do
    match ← accept level.has with
    | none => pure left
    | some operator =>
      let right ← Routine.call (expression level.operand)
      Routine.jump (expression (.operations level (level.join left operator right)))
  | .unary => do
    match ← accept fun kind => kind = .bang || kind = .minus with
    | none => Routine.jump (expression .call)
    | some operator =>
      let operand ← Routine.call (expression .unary)
      pure (.unary operator operand)
  | .call => do
    let callee ← primary closing
    Routine.jump (expression (.calls callee))
  | .calls callee => do
    match ← accept (· = .leftParen) with
    | none => pure callee
    | some _ =>
      let passed ← unlessAt closing .rightParen [] (Routine.call (arguments 0))
      let paren ← expect closing .parenAfterArguments
      Routine.jump (expression (.calls (.call callee paren passed)))

/-- Read the arguments of a call, `count` of which are read already. -/
def argumentList (count : Nat) : StepOn ρ (List Expr) := do
  if maxArguments ≤ count then
    reject closing .tooManyArguments
  else
    let argument ← Routine.call anyExpression
    match ← accept (· = .comma) with
    | none => pure [argument]
    | some _ =>
      let others ← Routine.call (arguments (count + 1))
      pure (argument :: others)

end Expressions

/-! ## Statements -/

section Statements

variable (closing : κ)

/-- Read the parameters of a function, `count` of which are read already. -/
def parameterList (count : Nat) : StepOn ρ (List Token) := do
  if maxArguments ≤ count then
    reject closing .tooManyParameters
  else
    let parameter ← expect closing .parameterName
    match ← accept (· = .comma) with
    | none => pure [parameter]
    | some _ =>
      let others ← Routine.call (parameters (count + 1))
      pure (parameter :: others)

/-- What follows the keyword of a function declaration. -/
def functionDeclaration : StepOn ρ Stmt := do
  let name ← expect closing .functionName
  let _ ← expect closing .parenBeforeParameters
  let declared ← unlessAt closing .rightParen [] (Routine.call (parameters 0))
  let _ ← expect closing .parenAfterParameters
  let _ ← expect closing .braceBeforeBody
  let body ← Routine.call block
  pure (.function name declared body)

/-- What follows the keyword of a variable declaration. -/
def variableDeclaration : StepOn ρ Stmt := do
  let name ← expect closing .variableName
  match ← accept (· = .equal) with
  | none =>
    let _ ← expect closing .semicolonAfterVariable
    pure (.var name none)
  | some _ =>
    let initializer ← Routine.call anyExpression
    let _ ← expect closing .semicolonAfterVariable
    pure (.var name (some initializer))

/-- What follows the keyword of a conditional statement. An `else` belongs to the nearest statement
that has none yet. -/
def ifStatement : StepOn ρ Stmt := do
  let _ ← expect closing .parenAfterIf
  let condition ← Routine.call anyExpression
  let _ ← expect closing .parenAfterIfCondition
  let whenTrue ← Routine.call statement
  match ← accept (· = .else) with
  | none => pure (.ifThen condition whenTrue)
  | some _ =>
    let whenFalse ← Routine.call statement
    pure (.ifElse condition whenTrue whenFalse)

/-- What follows the keyword of a `while` loop. -/
def whileStatement : StepOn ρ Stmt := do
  let _ ← expect closing .parenAfterWhile
  let condition ← Routine.call anyExpression
  let _ ← expect closing .parenAfterWhileCondition
  let body ← Routine.call statement
  pure (.while condition body)

/-- What a `for` loop stands for: a block with the initializer and a `while` loop whose body ends
with the increment. -/
def forLoop (initializer : Option Stmt) (condition : Expr) (increment : Option Expr)
    (body : Stmt) : Stmt :=
  let round := match increment with
    | some increment => .block [body, .expression increment]
    | none => body
  match initializer with
  | some initializer => .block [initializer, .while condition round]
  | none => .while condition round

/-- The initializer of a `for` loop, through its semicolon. -/
def forInitializer : StepOn ρ (Option Stmt) := do
  match ← accept (· = .semicolon) with
  | some _ => pure none
  | none =>
    match ← accept (· = .var) with
    | some _ =>
      let declared ← variableDeclaration closing
      pure (some declared)
    | none =>
      let value ← Routine.call anyExpression
      let _ ← expect closing .semicolonAfterForInitializer
      pure (some (.expression value))

/-- What follows the keyword of a `for` loop. A missing condition always holds. -/
def forStatement : StepOn ρ Stmt := do
  let _ ← expect closing .parenAfterFor
  let initializer ← forInitializer closing
  let condition ←
    unlessAt closing .semicolon (.literal (.bool true)) (Routine.call anyExpression)
  let _ ← expect closing .semicolonAfterForCondition
  let increment ← unlessAt closing .rightParen none (some <$> Routine.call anyExpression)
  let _ ← expect closing .parenAfterForClauses
  let body ← Routine.call statement
  pure (forLoop initializer condition increment body)

/-- Read a statement. -/
def anyStatement : StepOn ρ Stmt := do
  let token ← peek closing
  match token.kind with
  | .print =>
    skip
    let value ← Routine.call anyExpression
    let _ ← expect closing .semicolonAfterPrint
    pure (.print token value)
  | .if => skip; ifStatement closing
  | .while => skip; whileStatement closing
  | .for => skip; forStatement closing
  | .return =>
    skip
    let value ← unlessAt closing .semicolon none (some <$> Routine.call anyExpression)
    let _ ← expect closing .semicolonAfterReturn
    pure (.return token value)
  | .leftBrace =>
    skip
    let body ← Routine.call block
    pure (.block body)
  | _ =>
    let value ← Routine.call anyExpression
    let _ ← expect closing .semicolonAfterExpression
    pure (.expression value)

/-- Read a statement or a declaration. -/
def anyDeclaration : StepOn ρ Stmt := do
  let token ← peek closing
  match token.kind with
  | .fun => skip; functionDeclaration closing
  | .var => skip; variableDeclaration closing
  | .class => Routine.fail ⟨token, .unsupportedClass⟩
  | _ => Routine.jump statement

/-- Read the declarations of a block and the brace that closes it. -/
def blockBody : StepOn ρ (List Stmt) := do
  let next ← peek closing
  if next.kind = .rightBrace || next.kind = .endOfInput then
    let _ ← expect closing .braceAfterBlock
    pure []
  else
    let first ← Routine.call declaration
    let others ← Routine.call block
    pure (first :: others)

end Statements

/-! ## Programs -/

/-- The keywords that a statement or declaration starts with. -/
def startsDeclaration (kind : Token.Kind) : Bool :=
  kind = .class || kind = .fun || kind = .var || kind = .for || kind = .if || kind = .while
    || kind = .print || kind = .return

/-- Read declarations to the end. A malformed one is recorded, and reading goes on behind it. -/
def programBody : StepOn ρ (List (Except ParseError Stmt)) := do
  if ← atEnd then
    pure []
  else
    let first ← (Routine.call declaration : StepOn ρ Stmt).attempt
    match first with
    | .ok _ => pure ()
    | .error _ => recover
    let others ← Routine.call program
    pure (first :: others)

/-- Read a phrase of a program. -/
def read (closing : κ) : (phrase : Phrase) → StepOn ρ phrase.Result
  | expression form => Phrase.form closing form
  | arguments count => argumentList closing count
  | parameters count => parameterList closing count
  | declaration => anyDeclaration closing
  | statement => anyStatement closing
  | block => blockBody closing
  | program => programBody

end Phrase

end Lox
