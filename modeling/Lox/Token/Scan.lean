/-
# The tokens of a text

Scanning goes through the segments of a text with the number of the line it is on. It does not stop
at a malformed segment, so that all of them are reported together; but one of them is enough for the
text to have no tokens at all.
-/

import Lox.Diagnostic
import Lox.Token.Segment

namespace Lox

/-- A malformed segment and the line it is reported on. -/
structure ScanError where
  /-- What is wrong. -/
  problem : Segment.Problem
  /-- The line it is reported on. -/
  line : Nat
  deriving DecidableEq, Repr

/-- What is wrong with a malformed segment, in words. -/
def Segment.Problem.message : Segment.Problem → String
  | .unexpectedCharacter c => "Unexpected character '" ++ c.toString ++ "'"
  | .unterminatedString => "Unterminated string"
  | .unterminatedComment => "Unterminated block comment"
  | .numberTooLarge literal => "Number literal '" ++ literal ++ "' is too large"

/-- The line a malformed segment is reported on, out of the lines it starts and ends on: a comment
that is never closed is reported where it opens, everything else where it ends. -/
def Segment.Problem.line (problem : Segment.Problem) (first last : Nat) : Nat :=
  match problem with
  | .unterminatedComment => first
  | _ => last

namespace ScanError

/-- What is wrong, in words. -/
def message (error : ScanError) : String := error.problem.message

/-- The report of a scan error. It names a line only: there is no token to point at. -/
def diagnostic (error : ScanError) : Diagnostic := .atLine .scan error.line error.message

end ScanError

namespace Token

/-- What scanning has gathered: the line it has come to, and the tokens and errors so far, last
first. -/
structure Gathered where
  /-- The line reached. -/
  line : Nat
  /-- The tokens found, last first. -/
  tokens : List Token
  /-- The errors found, last first. -/
  errors : List ScanError

/-- Take one more segment into account. -/
def Gathered.add (gathered : Gathered) (segment : Segment) : Gathered :=
  let line := gathered.line + segment.newlines
  match segment.reading with
  | .skipped => { gathered with line }
  | .token kind literal =>
    { gathered with
      line, tokens := ⟨kind, String.ofList segment.text, literal, line⟩ :: gathered.tokens }
  | .malformed problem =>
    { gathered with line, errors := ⟨problem, problem.line gathered.line line⟩ :: gathered.errors }

/-- The tokens of a text, closed by an end token, or everything that is malformed in it. -/
def scan (source : String) : Except (List ScanError) (List Token) :=
  let gathered := (Segment.split source.toList).foldl Gathered.add ⟨1, [], []⟩
  match gathered.errors with
  | [] => .ok (endOfInput gathered.line :: gathered.tokens).reverse
  | errors => .error errors.reverse

end Token

end Lox
