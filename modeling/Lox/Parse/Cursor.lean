/-
# A cursor on the tokens

A program is read from an array of tokens, the last of which closes a program. A cursor on them
holds the index of the token that comes next. It does not move past a token that closes the program,
and where it looks for a token it keeps to the indices there are: to the last one where it would
look behind the tokens, and to the first one where it would look before them.

A cursor that asks for a token at an index out of range all the same has gone astray
(`Cursor.strayed`), and whatever is read from then on means nothing.
-/

import Lox.Parse.Phrase

namespace Lox

/-- How far the reading of a program has come. -/
structure Cursor where
  /-- All tokens of the program, and whatever comes behind it. -/
  tokens : Array Token
  /-- The index of the token that comes next. -/
  current : Nat
  /-- The number for the next variable access. -/
  nextId : AccessId
  /-- Whether a token was asked for at an index out of range. -/
  strayed : Bool
  closed : tokens.back?.map (·.kind) = some .endOfInput

namespace Cursor

/-- The token at an index. -/
def fetch (cursor : Cursor) (i : Nat) : Token × Cursor :=
  match cursor.tokens[i]? with
  | some token => (token, cursor)
  | none => (.endOfInput 0, { cursor with strayed := true })

/-- The token that comes next. -/
def peek (cursor : Cursor) : Token × Cursor :=
  cursor.fetch (min cursor.current (cursor.tokens.size - 1))

/-- The token that the cursor has moved past last. -/
def previous (cursor : Cursor) : Token × Cursor := cursor.fetch (cursor.current - 1)

/-- Whether the token that comes next closes the program. -/
def atEnd (cursor : Cursor) : Bool × Cursor := (cursor.peek.1.kind = .endOfInput, cursor.peek.2)

/-- Move past the next token, unless it closes the program. -/
def advance (cursor : Cursor) : Token × Cursor :=
  let (ended, cursor) := cursor.atEnd
  if ended then cursor.previous else { cursor with current := cursor.current + 1 }.previous

section Moves

variable (cursor : Cursor) (i : Nat)

theorem fst_fetch : (cursor.fetch i).1 = cursor.tokens[i]?.getD (.endOfInput 0) := by
  unfold fetch
  split <;> rename_i h <;> rw [h] <;> rfl

@[simp]
theorem tokens_fetch : (cursor.fetch i).2.tokens = cursor.tokens := by
  unfold fetch
  split <;> rfl

@[simp]
theorem current_fetch : (cursor.fetch i).2.current = cursor.current := by
  unfold fetch
  split <;> rfl

@[simp]
theorem tokens_peek : cursor.peek.2.tokens = cursor.tokens := cursor.tokens_fetch _

@[simp]
theorem current_peek : cursor.peek.2.current = cursor.current := cursor.current_fetch _

@[simp]
theorem tokens_previous : cursor.previous.2.tokens = cursor.tokens := cursor.tokens_fetch _

@[simp]
theorem current_previous : cursor.previous.2.current = cursor.current := cursor.current_fetch _

@[simp]
theorem tokens_atEnd : cursor.atEnd.2.tokens = cursor.tokens := cursor.tokens_peek

@[simp]
theorem current_atEnd : cursor.atEnd.2.current = cursor.current := cursor.current_peek

@[simp]
theorem tokens_advance : cursor.advance.2.tokens = cursor.tokens := by
  unfold advance
  dsimp only
  split <;> simp

theorem current_advance :
    cursor.advance.2.current = if cursor.atEnd.1 then cursor.current else cursor.current + 1 := by
  unfold advance
  dsimp only
  split <;> simp

/-- What a cursor sees next is a matter of its tokens and its index. -/
theorem fst_atEnd_congr {cursor cursor' : Cursor} (htokens : cursor.tokens = cursor'.tokens)
    (hcurrent : cursor.current = cursor'.current) : cursor.atEnd.1 = cursor'.atEnd.1 := by
  simp only [atEnd, peek, fst_fetch, htokens, hcurrent]

/-- Before the end there are further tokens, since the last one closes a program. -/
theorem current_succ_lt (h : cursor.atEnd.1 = false) : cursor.current + 1 < cursor.tokens.size := by
  obtain ⟨last, hlast, hkind⟩ := Option.map_eq_some_iff.1 cursor.closed
  have hsize : cursor.tokens.size - 1 < cursor.tokens.size :=
    Nat.sub_one_lt fun hzero => by simp [Array.back?, hzero] at hlast
  apply Classical.byContradiction
  intro hnot
  have hindex : min cursor.current (cursor.tokens.size - 1) = cursor.tokens.size - 1 := by omega
  rw [Array.back?] at hlast
  have hseen : cursor.atEnd.1 = true := by
    simp only [atEnd, peek, fst_fetch, hindex, hlast]
    exact decide_eq_true hkind
  rw [h] at hseen
  cases hseen

end Moves

/-- Move on to the next token that may start a declaration, past so many tokens at most. -/
def seekWithin : Nat → Cursor → Cursor
  | 0, cursor => cursor
  | bound + 1, cursor =>
    if cursor.atEnd.1 then cursor.atEnd.2
    else
      let before := cursor.atEnd.2.previous
      if before.1.kind = .semicolon then before.2
      else
        let next := before.2.peek
        if Phrase.startsDeclaration next.1.kind then next.2 else next.2.advance.2.seekWithin bound

/-- Move on to the next token that may start a declaration. -/
def seek (cursor : Cursor) : Cursor := cursor.seekWithin (cursor.tokens.size - cursor.current + 1)

/-- The bound on the tokens is never met, since the last of them closes a program. -/
theorem seek_eq (cursor : Cursor) :
    cursor.seek =
      if cursor.atEnd.1 then cursor.atEnd.2
      else
        let before := cursor.atEnd.2.previous
        if before.1.kind = .semicolon then before.2
        else
          let next := before.2.peek
          if Phrase.startsDeclaration next.1.kind then next.2 else next.2.advance.2.seek := by
  by_cases hend : cursor.atEnd.1 = true
  · rw [seek, seekWithin, if_pos hend, if_pos hend]
  · have hlt := cursor.current_succ_lt (by simpa using hend)
    have hmoved : ∀ later : Cursor, later.tokens = cursor.tokens →
        later.current = cursor.current →
          later.advance.2.seekWithin (cursor.tokens.size - cursor.current) =
            later.advance.2.seek := by
      intro later htokens hcurrent
      have hseen : later.atEnd.1 = cursor.atEnd.1 := fst_atEnd_congr htokens hcurrent
      rw [seek, tokens_advance, current_advance, hseen, if_neg hend, htokens, hcurrent]
      congr 1
      omega
    rw [seek, seekWithin, if_neg hend, if_neg hend]
    dsimp only
    rw [hmoved _ (by simp) (by simp)]

/-- Move on to where reading may resume. At least one token is given up, so that reading gets on
even where nothing of a declaration could be read. -/
def recover (cursor : Cursor) : Cursor := cursor.advance.2.seek

/-- As long as all is in range, one more token is passed unless a declaration may start here. -/
theorem seek_of_eq {cursor : Cursor} {before next : Token} (hend : cursor.atEnd = (false, cursor))
    (hbefore : cursor.previous = (before, cursor)) (hnext : cursor.peek = (next, cursor)) :
    cursor.seek =
      if before.kind = .semicolon || Phrase.startsDeclaration next.kind then cursor
      else cursor.advance.2.seek := by
  rw [seek_eq]
  simp only [hend, hbefore, hnext, Bool.false_eq_true, if_false, Bool.or_eq_true, decide_eq_true_eq]
  split <;> simp_all

end Cursor

namespace Phrase

instance : Stream Cursor where
  atEnd := .step fun cursor => (.ok cursor.atEnd.1, cursor.atEnd.2)
  skip := .modify fun cursor => cursor.advance.2
  accept wanted := .step fun cursor =>
    let (token, cursor) := cursor.peek
    if wanted token.kind then (.ok (some cursor.advance.1), cursor.advance.2)
    else (.ok none, cursor)
  recover := .modify Cursor.recover
  freshId := .step fun cursor => (.ok cursor.nextId, { cursor with nextId := cursor.nextId + 1 })

instance : Sight Unit Cursor where
  peek _ := .step fun cursor => (.ok cursor.peek.1, cursor.peek.2)

end Phrase

end Lox
