/-
# What can be wrong with a program's grammar

Most of the grammar's demands are of one kind: here a certain token has to stand. `Expectation`
lists them, with the kind of token each asks for and the words that say so; the few other ways to
break the grammar join them in `ParseProblem`.
-/

import Lox.Diagnostic

namespace Lox

/-- The places in the grammar where one kind of token has to stand. -/
inductive Expectation where
  | functionName | parenBeforeParameters | parameterName | parenAfterParameters | braceBeforeBody
  | variableName | semicolonAfterVariable
  | semicolonAfterPrint | semicolonAfterReturn | semicolonAfterExpression | braceAfterBlock
  | parenAfterIf | parenAfterIfCondition
  | parenAfterWhile | parenAfterWhileCondition
  | parenAfterFor | semicolonAfterForInitializer | semicolonAfterForCondition | parenAfterForClauses
  | colonInConditional | parenAfterArguments | parenAfterGroup | parenAfterHost | parenAfterHostCode
  deriving DecidableEq, Repr

namespace Expectation

/-- The kind of token that has to stand in a place. -/
def kind : Expectation → Token.Kind
  | functionName | parameterName | variableName => .identifier
  | parenBeforeParameters | parenAfterIf | parenAfterWhile | parenAfterFor | parenAfterHost =>
    .leftParen
  | parenAfterParameters | parenAfterIfCondition | parenAfterWhileCondition | parenAfterForClauses
  | parenAfterArguments | parenAfterGroup | parenAfterHostCode => .rightParen
  | braceBeforeBody => .leftBrace
  | braceAfterBlock => .rightBrace
  | semicolonAfterVariable | semicolonAfterPrint | semicolonAfterReturn | semicolonAfterExpression
  | semicolonAfterForInitializer | semicolonAfterForCondition => .semicolon
  | colonInConditional => .colon

/-- The demand in words. -/
def message : Expectation → String
  | functionName => "Expect function name."
  | parenBeforeParameters => "Expect '(' after function name."
  | parameterName => "Expect parameter name."
  | parenAfterParameters => "Expect ')' after parameters."
  | braceBeforeBody => "Expect '\x7b' before function body."
  | variableName => "Expect variable name."
  | semicolonAfterVariable => "Expect ';' after variable declaration."
  | semicolonAfterPrint => "Expect ';' after value."
  | semicolonAfterReturn => "Expect ';' after return value."
  | semicolonAfterExpression => "Expect ';' after expression."
  | braceAfterBlock => "Expect '\x7d' after block."
  | parenAfterIf => "Expect '(' after 'if'."
  | parenAfterIfCondition => "Expect ')' after if condition."
  | parenAfterWhile => "Expect '(' after 'while'."
  | parenAfterWhileCondition => "Expect ')' after condition."
  | parenAfterFor => "Expect '(' after 'for'."
  | semicolonAfterForInitializer => "Expect ';' after loop initializer."
  | semicolonAfterForCondition => "Expect ';' after loop condition."
  | parenAfterForClauses => "Expect ')' after for clauses."
  | colonInConditional => "Expect ':' in conditional expression."
  | parenAfterArguments => "Expect ')' after arguments."
  | parenAfterGroup => "Expect ')' after expression."
  | parenAfterHost => "Expect '(' after 'host'."
  | parenAfterHostCode => "Expect ')' after host code."

end Expectation

/-- The ways a program can break the grammar. -/
inductive ParseProblem where
  /-- Another token stands where one kind of token is due. -/
  | missing (expected : Expectation)
  /-- No expression starts here. -/
  | missingExpression
  /-- Something other than a bare name is assigned to. -/
  | invalidTarget
  /-- A class, or a word that only means something within one. -/
  | unsupportedClass
  /-- A function has more parameters than a call could pass. -/
  | tooManyParameters
  /-- A call passes too many arguments. -/
  | tooManyArguments
  /-- A string or number token that carries no value. -/
  | valuelessLiteral
  deriving DecidableEq, Repr

/-- How many parameters a function can have, and how many arguments a call can pass. -/
def maxArguments : Nat := 255

/-- What is wrong, in words. -/
def ParseProblem.message : ParseProblem → String
  | .missing expected => expected.message
  | .missingExpression => "Expect expression."
  | .invalidTarget => "Invalid assignment target."
  | .unsupportedClass => "Classes are not supported."
  | .tooManyParameters => "Can't have more than " ++ toString maxArguments ++ " parameters."
  | .tooManyArguments => "Can't have more than " ++ toString maxArguments ++ " arguments."
  | .valuelessLiteral => "Literal token without a value."

/-- A breach of the grammar and the token it was noticed at. -/
structure ParseError where
  /-- The token it was noticed at. -/
  token : Token
  /-- What is wrong. -/
  problem : ParseProblem
  deriving DecidableEq, Repr

namespace ParseError

/-- What is wrong, in words. -/
def message (error : ParseError) : String := error.problem.message

/-- The report of a parse error. -/
def diagnostic (error : ParseError) : Diagnostic := .atToken .parse error.token error.message

end ParseError

end Lox
