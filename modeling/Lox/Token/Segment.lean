/-
# Segments

A program text falls into segments, each the longest that its first characters allow: white space,
comments, the words that become tokens, and the stretches that nothing can be made of.
`Segment.first` finds the segment at the start of a text, and `Segment.split` cuts a text into all
of them, so that their texts joined give the text again.
-/

import Lox.Token.Basic
import Lox.Token.Character

namespace Lox

/-- What can be wrong with a stretch of text. -/
inductive Segment.Problem where
  /-- No token starts with this character. -/
  | unexpectedCharacter (character : Char)
  /-- A string runs to the end of the text. -/
  | unterminatedString
  /-- A block comment runs to the end of the text. -/
  | unterminatedComment
  /-- A number does not fit 64 bits. -/
  | numberTooLarge (literal : String)
  deriving DecidableEq, Repr

/-- What a stretch of text is read as. -/
inductive Segment.Reading where
  /-- White space or a comment. -/
  | skipped
  /-- A token. -/
  | token (kind : Token.Kind) (literal : Option Token.Literal)
  /-- Nothing: the text is malformed here. -/
  | malformed (problem : Segment.Problem)
  deriving DecidableEq, Repr

/-- A stretch of text and what it is read as. -/
structure Segment where
  /-- The characters it covers. -/
  text : List Char
  /-- What they are read as. -/
  reading : Segment.Reading
  deriving DecidableEq, Repr

namespace Segment

/-- What a segment that starts with a given character is read as, and how many of the characters
after the first it covers. -/
structure Extent where
  /-- What the segment is read as. -/
  reading : Reading
  /-- How many characters it covers after its first. -/
  further : Nat

/-- A token without a value that covers `further` characters after its first. -/
def Extent.token (kind : Token.Kind) (further : Nat) : Extent := ⟨.token kind none, further⟩

/-- The tokens of one character that starts no longer one. -/
def punctuation? : Char → Option Token.Kind
  | '(' => some .leftParen
  | ')' => some .rightParen
  | '{' => some .leftBrace
  | '}' => some .rightBrace
  | ',' => some .comma
  | '.' => some .dot
  | ';' => some .semicolon
  | ':' => some .colon
  | '?' => some .question
  | '*' => some .star
  | _ => none

/-- The operators that an equals sign extends: the kind of the bare one and of the extended one. -/
def operator? : Char → Option (Token.Kind × Token.Kind)
  | '!' => some (.bang, .bangEqual)
  | '=' => some (.equal, .equalEqual)
  | '<' => some (.less, .lessEqual)
  | '>' => some (.greater, .greaterEqual)
  | '-' => some (.minus, .minusEqual)
  | '+' => some (.plus, .plusEqual)
  | _ => none

/-- The operators that exist only doubled. -/
def doubled? : Char → Option Token.Kind
  | '&' => some .and
  | '|' => some .or
  | _ => none

/-- How many characters a block comment covers through its closing `*/`, if it has one; `seen` of
them are counted already. -/
def commentExtent? : List Char → (seen : Nat) → Option Nat
  | [], _ => none
  | '*' :: '/' :: _, seen => some (seen + 2)
  | _ :: rest, seen => commentExtent? rest (seen + 1)

/-- How many characters a string covers through its closing quote, if it has one; `seen` of them are
counted already. A backslash takes the character after it along, so a quote there closes nothing. -/
def stringExtent? : List Char → (seen : Nat) → Option Nat
  | [], _ => none
  | '"' :: _, seen => some (seen + 1)
  | '\\' :: _ :: rest, seen => stringExtent? rest (seen + 2)
  | _ :: rest, seen => stringExtent? rest (seen + 1)

/-- The text a string stands for: each backslash is dropped and the character after it kept. The
characters in `done`, last first, come before. -/
def unescape : List Char → (done : List Char) → List Char
  | [], done => done.reverse
  | '\\' :: c :: rest, done => unescape rest (c :: done)
  | '\\' :: [], done => done.reverse
  | c :: rest, done => unescape rest (c :: done)

/-- How many characters the fraction of a number covers. Only a point with a digit behind it starts
a fraction. -/
def fractionExtent : List Char → Nat
  | '.' :: d :: rest =>
    if Character.isDigit d then 2 + (rest.takeWhile Character.isDigit).length else 0
  | _ => 0

/-- The largest number a program can write. -/
def maxNumber : Nat := Int64.maxValue.toNatClampNeg

/-- A number: digits, and a fraction that is read but does not count. The digits must fit 64
bits. -/
def number (c : Char) (rest : List Char) : Extent :=
  let digits := rest.takeWhile Character.isDigit
  let further := digits.length + fractionExtent (rest.dropWhile Character.isDigit)
  let value := Nat.ofDigitChars 10 (c :: digits) 0
  if value ≤ maxNumber then
    ⟨.token .number (some (.number (Int64.ofNat value))), further⟩
  else
    ⟨.malformed (.numberTooLarge (String.ofList (c :: rest.take further))), further⟩

/-- A name or a reserved word. -/
def word (c : Char) (rest : List Char) : Extent :=
  let part := rest.takeWhile Character.isNamePart
  .token (.ofWord (String.ofList (c :: part))) part.length

/-- A string, up to its closing quote or, for want of one, the whole rest of the text. -/
def string (rest : List Char) : Extent :=
  match stringExtent? rest 0 with
  | some further =>
    ⟨.token .string (some (.string (String.ofList (unescape (rest.take (further - 1)) [])))),
      further⟩
  | none => ⟨.malformed .unterminatedString, rest.length⟩

/-- A block comment, up to its closing mark or, for want of one, the whole rest of the text. The
star that opens it does not close it. -/
def blockComment (rest : List Char) : Extent :=
  match commentExtent? (rest.drop 1) 1 with
  | some further => ⟨.skipped, further⟩
  | none => ⟨.malformed .unterminatedComment, rest.length⟩

/-- A comment that runs to the end of its line, or a block comment, or a division sign. -/
def slash (rest : List Char) : Extent :=
  match rest with
  | '/' :: _ => ⟨.skipped, (rest.takeWhile (· != '\n')).length⟩
  | '*' :: _ => blockComment rest
  | _ => .token .slash 0

/-- What the segment is that starts with `c`, when `rest` comes after `c`. -/
def extent (c : Char) (rest : List Char) : Extent :=
  if let some kind := punctuation? c then
    .token kind 0
  else if let some (bare, extended) := operator? c then
    if rest.head? = some '=' then .token extended 1 else .token bare 0
  else if let some kind := doubled? c then
    if rest.head? = some c then .token kind 1 else ⟨.malformed (.unexpectedCharacter c), 0⟩
  else if c = '/' then
    slash rest
  else if c = '"' then
    string rest
  else if c = '\n' || Character.isBlank c then
    ⟨.skipped, 0⟩
  else if Character.isDigit c then
    number c rest
  else if Character.isNameStart c then
    word c rest
  else
    ⟨.malformed (.unexpectedCharacter c), 0⟩

/-- The segment at the start of the text `c :: rest`. -/
def first (c : Char) (rest : List Char) : Segment :=
  let extent := extent c rest
  ⟨c :: rest.take extent.further, extent.reading⟩

/-- The segments of a text of at most `size` characters, behind those in `done`, last first. -/
def splitFrom : (size : Nat) → List Char → (done : List Segment) → List Segment
  | size + 1, c :: rest, done =>
    splitFrom size (rest.drop (extent c rest).further) (first c rest :: done)
  | _, _, done => done.reverse

/-- The segments of a text, in order. -/
def split (text : List Char) : List Segment := splitFrom text.length text []

theorem text_first_append_drop (c : Char) (rest : List Char) :
    (first c rest).text ++ rest.drop (extent c rest).further = c :: rest := by
  simp only [first, List.cons_append, List.take_append_drop]

theorem flatMap_text_splitFrom {size : Nat} {text : List Char} (done : List Segment)
    (hsize : text.length ≤ size) :
    (splitFrom size text done).flatMap Segment.text =
      done.reverse.flatMap Segment.text ++ text := by
  induction size generalizing text done with
  | zero =>
    obtain rfl := List.length_eq_zero_iff.1 (Nat.le_zero.1 hsize)
    simp [splitFrom]
  | succ size ih =>
    cases text with
    | nil => simp [splitFrom]
    | cons c rest =>
      have hrest : (rest.drop (extent c rest).further).length ≤ size :=
        Nat.le_trans (by rw [List.length_drop]; exact Nat.sub_le _ _) (Nat.le_of_succ_le_succ hsize)
      rw [splitFrom, ih _ hrest, List.reverse_cons, List.flatMap_append, List.append_assoc,
        List.flatMap_singleton, text_first_append_drop]

/-- The segments of a text cover all of it. -/
theorem flatMap_text_split (text : List Char) : (split text).flatMap Segment.text = text :=
  flatMap_text_splitFrom [] (Nat.le_refl _)

/-- How many lines a segment ends. -/
def newlines (segment : Segment) : Nat := segment.text.count '\n'

end Segment

end Lox
