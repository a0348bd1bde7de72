/-
# Diagnostics

Whatever is wrong with a program, in whichever phase it is found, is reported as a diagnostic: a
line, possibly the token it was noticed at, and a message.
-/

import Lox.Token.Basic

namespace Lox

/-- The phases a program goes through. -/
inductive Phase where
  | scan | parse | resolve | runtime
  deriving DecidableEq, Repr

/-- A report of one thing wrong with a program. -/
structure Diagnostic where
  phase : Phase
  line : Nat
  /-- The token it was found at, as diagnostics refer to tokens, if it was found at one. -/
  location : Option String
  message : String
  deriving DecidableEq, Repr

namespace Diagnostic

/-- A report about a line as a whole. -/
def atLine (phase : Phase) (line : Nat) (message : String) : Diagnostic :=
  ⟨phase, line, none, message⟩

/-- A report about a token. -/
def atToken (phase : Phase) (token : Token) (message : String) : Diagnostic :=
  ⟨phase, token.line, some token.location, message⟩

/-- A diagnostic as one line of text. -/
def render (diagnostic : Diagnostic) : String :=
  let place := "[line " ++ toString diagnostic.line ++ "] Error"
  match diagnostic.location with
  | some location => place ++ " at " ++ location ++ ": " ++ diagnostic.message
  | none => place ++ ": " ++ diagnostic.message

end Diagnostic

end Lox
