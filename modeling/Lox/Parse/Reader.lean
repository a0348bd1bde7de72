/-
# Tokens that are left

The plainest way of going along the tokens of a program is to keep those that have not been read
yet. Nothing is left before the token that closes the program once all others have been read.
-/

import Lox.Parse.Phrase

namespace Lox

/-- How far the reading of a program has come. -/
structure Reader where
  /-- The tokens not read yet, without the one that closes the program. -/
  rest : List Token
  /-- The number for the next variable access. -/
  nextId : AccessId

namespace Phrase

/-- A step in reading a phrase from the tokens that are left. -/
abbrev Reading (α : Type) : Type := StepOn Reader α

/-- The tokens from the next likely start of a declaration: behind a semicolon, or at a keyword that
a declaration starts with. `previous` stands before the tokens given. -/
def resumeAfter (previous : Token) : List Token → List Token
  | [] => []
  | token :: rest =>
    if previous.kind = .semicolon || startsDeclaration token.kind then token :: rest
    else resumeAfter token rest

/-- The tokens to go on with when a declaration turned out malformed. At least one is given up, so
that reading gets on even where nothing of the declaration could be read. -/
def resume : List Token → List Token
  | [] => []
  | token :: rest => resumeAfter token rest

instance : Stream Reader where
  atEnd := .gets fun reader => reader.rest.isEmpty
  skip := .modify fun reader => { reader with rest := reader.rest.tail }
  accept wanted := .step fun reader =>
    match reader.rest with
    | token :: rest =>
      if wanted token.kind then (.ok (some token), { reader with rest }) else (.ok none, reader)
    | [] => (.ok none, reader)
  recover := .modify fun reader => { reader with rest := resume reader.rest }
  freshId := .step fun reader => (.ok reader.nextId, { reader with nextId := reader.nextId + 1 })

instance : Sight Token Reader where
  peek closing := .gets fun reader => reader.rest.head?.getD closing

/-! ## What the steps do -/

theorem atEnd_eq : (atEnd : Reading Bool) = .gets fun reader => reader.rest.isEmpty := rfl

theorem skip_eq :
    (skip : Reading Unit) = .modify fun reader => { reader with rest := reader.rest.tail } := rfl

theorem accept_eq (wanted : Token.Kind → Bool) :
    (accept wanted : Reading (Option Token)) = .step fun reader =>
      match reader.rest with
      | token :: rest =>
        if wanted token.kind then (.ok (some token), { reader with rest }) else (.ok none, reader)
      | [] => (.ok none, reader) := rfl

theorem recover_eq :
    (recover : Reading Unit) = .modify fun reader => { reader with rest := resume reader.rest } :=
  rfl

theorem freshId_eq :
    (freshId : Reading AccessId) = .step fun reader =>
      (.ok reader.nextId, { reader with nextId := reader.nextId + 1 }) := rfl

theorem peek_eq (closing : Token) :
    (peek closing : Reading Token) = .gets fun reader => reader.rest.head?.getD closing := rfl

end Phrase

end Lox
