/-
# Tokens

A token is one word of a program: its kind, the text it was written as, the value it stands for if
it is a string or a number, and the line it ends on.
-/

namespace Lox

/-- The kinds of token. -/
inductive Token.Kind where
  | leftParen | rightParen | leftBrace | rightBrace | comma | dot | semicolon | colon | question
  | star | slash | bang | bangEqual | equal | equalEqual | less | lessEqual | greater | greaterEqual
  | minus | minusEqual | plus | plusEqual | and | or
  | identifier | string | number
  | «class» | «else» | false | «for» | «fun» | host | «if» | nil | print | «return» | super | this
  | true | var | «while»
  /-- The end of the program. -/
  | endOfInput
  deriving DecidableEq, Repr

/-- The value of a string or number token. Numbers are 64-bit signed integers. -/
inductive Token.Literal where
  | string (value : String)
  | number (value : Int64)
  deriving DecidableEq, Repr

/-- One word of a program. -/
structure Token where
  /-- What sort of word it is. -/
  kind : Token.Kind
  /-- The text it was written as. -/
  lexeme : String
  /-- The value it stands for, for a string or a number. -/
  literal : Option Token.Literal
  /-- The line it ends on, counted from one. -/
  line : Nat
  deriving DecidableEq, Repr

namespace Token

/-- The kind of a reserved word; any other word is an identifier. -/
def Kind.ofWord (word : String) : Kind :=
  match word with
  | "and" => .and
  | "class" => .class
  | "else" => .else
  | "false" => .false
  | "for" => .for
  | "fun" => .fun
  | "host" => .host
  | "if" => .if
  | "nil" => .nil
  | "or" => .or
  | "print" => .print
  | "return" => .return
  | "super" => .super
  | "this" => .this
  | "true" => .true
  | "var" => .var
  | "while" => .while
  | _ => .identifier

/-- The name of a variable or function as it stands on a line, when no source text spells it
there. -/
def identifier (name : String) (line : Nat) : Token := ⟨.identifier, name, none, line⟩

/-- The token that closes a program whose last line is `line`. -/
def endOfInput (line : Nat) : Token := ⟨.endOfInput, "", none, line⟩

/-- How a diagnostic refers to a token: by its text in quotes, or as the end of the program. -/
def location (token : Token) : String :=
  if token.kind = .endOfInput then "end" else "'" ++ token.lexeme ++ "'"

end Token

end Lox
