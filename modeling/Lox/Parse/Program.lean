/-
# Programs out of tokens

A program ends at the first token that says so, whatever comes after it, and at the last token if
none does. `Program.ofTokens` reads all of its declarations. One malformed declaration is enough for
the program to be rejected, with everything that is wrong with it.

The machine that reads them is given as many rounds as reading can take; that these are enough is
known of the tokens that are left, with which the cursor goes in step (`exists_run_cursor`).
-/

import Lox.Parse.Agreement

namespace Lox.Program

/-! ## The token that closes a program -/

/-- The token that closes a program. Where none is given, one is put on the last line. -/
def closing (tokens : List Token) : Token :=
  (tokens.find? (·.kind = .endOfInput)).getD (.endOfInput ((tokens.getLast?.map (·.line)).getD 1))

/-- The tokens of a program before the one that closes it. -/
def opened (tokens : List Token) : List Token := tokens.takeWhile (·.kind ≠ .endOfInput)

/-- Some tokens, with one more that closes a program if the last of them does not. -/
def closed (tokens : List Token) : List Token :=
  if tokens.getLast?.map (·.kind) = some .endOfInput then tokens
  else tokens ++ [.endOfInput ((tokens.getLast?.map (·.line)).getD 1)]

theorem kind_closing (tokens : List Token) : (closing tokens).kind = .endOfInput := by
  unfold closing
  cases h : tokens.find? (·.kind = .endOfInput) with
  | none => rfl
  | some token => simpa using List.find?_some h

theorem kind_getLast?_closed (tokens : List Token) :
    (closed tokens).getLast?.map (·.kind) = some .endOfInput := by
  unfold closed
  split
  · assumption
  · rw [List.getLast?_concat]
    rfl

/-- The first token that closes a program is the one that counts. -/
theorem opened_closing_append_cons {front : List Token} {last : Token}
    (hfront : ∀ token ∈ front, token.kind ≠ .endOfInput) (hlast : last.kind = .endOfInput)
    (later : List Token) :
    opened (front ++ last :: later) = front ∧ closing (front ++ last :: later) = last := by
  have hpos : ∀ token ∈ front, decide (token.kind ≠ .endOfInput) = true :=
    fun token htoken => decide_eq_true (hfront token htoken)
  have hfind : (front ++ last :: later).find? (·.kind = .endOfInput) = some last :=
    List.find?_eq_some_iff_append.2 ⟨decide_eq_true hlast, front, later, rfl, fun token htoken => by
      rw [decide_eq_false (hfront token htoken)]
      rfl⟩
  constructor
  · unfold opened
    rw [List.takeWhile_append_of_pos hpos, List.takeWhile_cons_of_neg (by simpa using hlast),
      List.append_nil]
  · unfold closing
    rw [hfind]
    rfl

theorem exists_eq_append_closing {tokens : List Token}
    (h : ∃ token ∈ tokens, token.kind = .endOfInput) :
    ∃ later, tokens = opened tokens ++ closing tokens :: later ∧
      ∀ token ∈ opened tokens, token.kind ≠ .endOfInput := by
  obtain ⟨token, htoken, hkind⟩ := h
  have hfound : (tokens.find? (·.kind = .endOfInput)).isSome = true :=
    List.find?_isSome.2 ⟨token, htoken, decide_eq_true hkind⟩
  obtain ⟨last, hfind⟩ := Option.isSome_iff_exists.1 hfound
  obtain ⟨hlast, front, later, rfl, hfront⟩ := List.find?_eq_some_iff_append.1 hfind
  have hne : ∀ token ∈ front, token.kind ≠ .endOfInput := fun token htoken => by
    simpa using hfront token htoken
  obtain ⟨hopened, hclosing⟩ := opened_closing_append_cons hne (of_decide_eq_true hlast) later
  exact ⟨later, by rw [hopened, hclosing], by rwa [hopened]⟩

/-- Where no token closes a program, all of them come before the one that is put behind them. -/
theorem opened_closing_of_forall_ne {tokens : List Token}
    (h : ∀ token ∈ tokens, token.kind ≠ .endOfInput) :
    opened tokens = tokens ∧ closed tokens = tokens ++ [closing tokens] := by
  have hpos : ∀ token ∈ tokens, decide (token.kind ≠ .endOfInput) = true :=
    fun token htoken => decide_eq_true (h token htoken)
  have hfind : tokens.find? (·.kind = .endOfInput) = none :=
    List.find?_eq_none.2 fun token htoken => by simpa using h token htoken
  have hlast : ¬ tokens.getLast?.map (·.kind) = some .endOfInput := fun hlast => by
    obtain ⟨last, hmem, hkind⟩ := Option.map_eq_some_iff.1 hlast
    exact h last (List.mem_of_getLast? hmem) hkind
  constructor
  · unfold opened
    rw [← List.append_nil tokens, List.takeWhile_append_of_pos hpos]
    rfl
  · unfold closed closing
    rw [if_neg hlast, hfind]
    rfl

theorem closesBehind (tokens : List Token) :
    ClosesBehind (closed tokens).toArray (opened tokens) (closing tokens) := by
  by_cases h : ∃ token ∈ tokens, token.kind = .endOfInput
  · obtain ⟨later, heq, hne⟩ := exists_eq_append_closing h
    have hprefix : opened tokens ++ [closing tokens] <+: tokens :=
      ⟨later, by rw [List.append_assoc]; exact heq.symm⟩
    refine ⟨?_, hne, kind_closing tokens⟩
    unfold closed
    split
    · exact hprefix
    · exact hprefix.trans (List.prefix_append _ _)
  · have hne : ∀ token ∈ tokens, token.kind ≠ .endOfInput := fun token htoken hkind =>
      h ⟨token, htoken, hkind⟩
    obtain ⟨hopened, hclosed⟩ := opened_closing_of_forall_ne hne
    refine ⟨?_, hopened.symm ▸ hne, kind_closing tokens⟩
    have hwhole : opened tokens ++ [closing tokens] = closed tokens := by rw [hopened, hclosed]
    exact hwhole ▸ List.prefix_rfl

/-! ## Reading -/

/-- A cursor on the first token of a program, for which the number `nextId` is the first not in
use. -/
def cursor (tokens : List Token) (nextId : AccessId) : Cursor where
  tokens := (closed tokens).toArray
  current := 0
  nextId := nextId
  strayed := false
  closed := by rw [List.back?_toArray]; exact kind_getLast?_closed tokens

/-- What is left of a program before any of it has been read. -/
def start (tokens : List Token) (nextId : AccessId) : Reader := ⟨opened tokens, nextId⟩

theorem shows_start (tokens : List Token) (nextId : AccessId) :
    (cursor tokens nextId).Shows (closed tokens).toArray (opened tokens) (start tokens nextId) :=
  ⟨rfl, Nat.zero_le _, rfl, rfl, rfl⟩

/-- A bound on the rounds that it takes to read a program. -/
def roundsFor (tokens : List Token) : Nat := 192 * tokens.length + 2

theorem exists_run_cursor (tokens : List Token) (nextId : AccessId) {rounds : Nat}
    (hrounds : roundsFor tokens ≤ rounds) :
    ∃ outcome, Routine.run (Phrase.read ()) rounds .program (cursor tokens nextId) =
      some outcome := by
  have hlength : (start tokens nextId).rest.length ≤ tokens.length :=
    (List.takeWhile_prefix _).length_le
  have hprice : Phrase.price (.program, start tokens nextId) < rounds := by
    show 192 * (start tokens nextId).rest.length + 1 < rounds
    unfold roundsFor at hrounds
    omega
  obtain ⟨outcome, hrun⟩ := Phrase.exists_run_eq_some (kind_closing tokens) .program _ hprice
  have hrel := Phrase.rel_run_cursor (closesBehind tokens) (shows_start tokens nextId) .program
    rounds
  rw [hrun] at hrel
  cases hfound : Routine.run (Phrase.read ()) rounds .program (cursor tokens nextId) with
  | some found => exact ⟨found, rfl⟩
  | none =>
    rw [hfound] at hrel
    cases hrel

/-- The declarations of a program, malformed ones included, and how far reading has come. -/
def declarations (tokens : List Token) (nextId : AccessId) :
    Outcome Cursor ParseError (List (Except ParseError Stmt)) :=
  (Routine.run (Phrase.read ()) (roundsFor tokens) .program (cursor tokens nextId)).get (by
    obtain ⟨outcome, houtcome⟩ := exists_run_cursor tokens nextId (Nat.le_refl _)
    exact Option.isSome_of_eq_some houtcome)

/-- The statements of a program, or everything that is wrong with it, together with the first number
for variable accesses that is not in use afterwards. Numbers given out in a malformed program are
not given out again. -/
def ofTokens (tokens : List Token) (nextId : AccessId) :
    Except (List ParseError) (List Stmt) × AccessId :=
  match declarations tokens nextId with
  | (.error error, cursor) => (.error [error], cursor.nextId)
  | (.ok read, cursor) =>
    let errors := read.filterMap fun
      | .error error => some error
      | .ok _ => none
    let statements := read.filterMap fun
      | .error _ => none
      | .ok statement => some statement
    (if errors.isEmpty then .ok statements else .error errors, cursor.nextId)

end Lox.Program
