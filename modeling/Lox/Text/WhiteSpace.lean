/-
# White space in any script

The characters with the Unicode property White_Space, and the parts of a text that they delimit.
-/

namespace Lox.Text

/-- The characters with the Unicode property White_Space. -/
def isWhiteSpace (c : Char) : Bool :=
  ('\u0009' ≤ c && c ≤ '\u000d') || c == ' ' || c == '\u0085' || c == '\u00a0' || c == '\u1680'
    || ('\u2000' ≤ c && c ≤ '\u200a') || c == '\u2028' || c == '\u2029' || c == '\u202f'
    || c == '\u205f' || c == '\u3000'

/-- A text without the white space it starts with. -/
def trimStart (text : List Char) : List Char := text.dropWhile isWhiteSpace

/-- A text without the white space it ends with. -/
def trimEnd (text : List Char) : List Char := (text.reverse.dropWhile isWhiteSpace).reverse

/-- A text without the white space around it. -/
def trim (text : List Char) : List Char := trimEnd (trimStart text)

/-- The characters of a text before the first white space, and those behind the white space
there. -/
def splitWord (text : List Char) : List Char × List Char :=
  (text.takeWhile (!isWhiteSpace ·), trimStart (text.dropWhile (!isWhiteSpace ·)))

end Lox.Text
