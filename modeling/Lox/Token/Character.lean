/-
# Character classes

The classes of character that words and numbers are made of, and the characters that separate them.
All are within ASCII, whatever alphabet strings and comments use.
-/

namespace Lox.Character

/-- The decimal digits `0` to `9`. -/
def isDigit (c : Char) : Bool := '0' ≤ c && c ≤ '9'

/-- The characters a name can start with: ASCII letters and the underscore. -/
def isNameStart (c : Char) : Bool :=
  ('a' ≤ c && c ≤ 'z') || ('A' ≤ c && c ≤ 'Z') || c == '_'

/-- The characters a name can go on with. -/
def isNamePart (c : Char) : Bool := isNameStart c || isDigit c

/-- The blanks within a line. A newline is not among them: it also ends the line. -/
def isBlank (c : Char) : Bool := c == ' ' || c == '\t' || c == '\r'

end Lox.Character
