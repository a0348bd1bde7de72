/-
# Reading a program gets on

The loop over the declarations of a program stands at a position before each of its rounds, and at a
later one after it: a declaration that is well-formed covers a token, and behind a malformed one at
least one token is given up (`Recovery.Step.advances`). What a malformed declaration is reported at
lies between the two, or it is the token that closes the program and nothing is left. So the tokens
reported stand one behind the other, round by round (`Recovery.Orderly`).

The cursor that programs are read with goes through the same rounds (`Cursor.Rounds`).
`Program.reading_gets_on` puts this together with what holds of every phrase that comes to be read:
the cursor is in range before and after it, and has not gone back.
-/

import Lox.Proofs.Grammar.Cursor
import Lox.Proofs.Grammar.Recovery
import Mathlib.Data.List.Forall2
import Mathlib.Data.List.TakeWhile

namespace Lox

namespace Recovery

variable {tokens : List Token} {closing : Token} {before after : Recovery} {i : Nat}

/-- What a round changes: the reader has come further, and there may be one more error. The token
that it names is one the reader has come past or at the end of the tokens. -/
theorem Step.advances (h : Step closing before after) (hclosing : closing.kind = .endOfInput)
    (hat : before.reader.StandsAt tokens i) :
    ∃ k, after.reader.StandsAt tokens k ∧ i < k ∧
      (after.errors = before.errors ∨ ∃ error e, after.errors = before.errors ++ [error] ∧ i ≤ e ∧
        (e < k ∨ k = tokens.length) ∧ (tokens ++ [closing])[e]? = some error.token) := by
  obtain ⟨hrest, hread⟩ := h
  rename_i result reached
  have hlt := hat.rest_ne_nil_iff.1 hrest
  have hadvances := Phrase.advances_of_ends hclosing hat hread
  cases result with
  | ok statement =>
    obtain ⟨j, hreached, hle⟩ := hadvances
    exact ⟨j, hreached, hle, .inl rfl⟩
  | error error =>
    obtain ⟨e, j, hreached, hlow, hle, htoken⟩ := hadvances
    obtain ⟨k, hresumed, hjk, hstrict⟩ := hreached.resume
    have hj := hreached.le
    have hk := hresumed.le
    exact ⟨k, hresumed, by omega, .inr ⟨error, e, rfl, hlow, by omega, htoken⟩⟩

/-- After some rounds the reader stands at a position, and the errors so far name tokens at certain
others, which rise and lie behind it, unless nothing is left. -/
structure Orderly (tokens : List Token) (closing : Token) (positions : List Nat) (k : Nat)
    (recovery : Recovery) : Prop where
  standsAt : recovery.reader.StandsAt tokens k
  rising : positions.Pairwise (· < ·)
  named : List.Forall₂ (fun e error => (tokens ++ [closing])[e]? = some error.token) positions
    recovery.errors
  passed : ∀ e ∈ positions, e < k ∨ k = tokens.length
  count : positions.length ≤ k

theorem Step.orderly (h : Step closing before after) (hclosing : closing.kind = .endOfInput)
    {positions : List Nat} (hbefore : before.Orderly tokens closing positions i) :
    ∃ positions' k, after.Orderly tokens closing positions' k := by
  obtain ⟨k, hat, hlt, herrors⟩ := h.advances hclosing hbefore.standsAt
  have hk := hat.le
  rcases herrors with herrors | ⟨error, e, herrors, hlow, hpast, htoken⟩
  · refine ⟨positions, k, hat, hbefore.rising, herrors ▸ hbefore.named, fun e he => ?_,
      Nat.le_trans hbefore.count (Nat.le_of_lt hlt)⟩
    have := hbefore.passed e he
    omega
  · refine ⟨positions ++ [e], k, hat, ?_, ?_, ?_, ?_⟩
    · rw [List.pairwise_append]
      refine ⟨hbefore.rising, List.pairwise_singleton _ _, fun e' he' later hlater => ?_⟩
      obtain rfl := List.mem_singleton.1 hlater
      have := hbefore.passed e' he'
      omega
    · rw [herrors]
      exact List.rel_append hbefore.named (.cons htoken .nil)
    · intro e' he'
      rcases List.mem_append.1 he' with he' | he'
      · have := hbefore.passed e' he'
        omega
      · obtain rfl := List.mem_singleton.1 he'
        exact hpast
    · have := hbefore.count
      rw [List.length_append, List.length_singleton]
      omega

theorem Steps.orderly (h : Steps closing before after) (hclosing : closing.kind = .endOfInput)
    {positions : List Nat} (hbefore : before.Orderly tokens closing positions i) :
    ∃ positions' k, after.Orderly tokens closing positions' k := by
  induction h with
  | refl => exact ⟨positions, i, hbefore⟩
  | tail _ hstep ih =>
    obtain ⟨positions', k, horderly⟩ := ih
    exact hstep.orderly hclosing horderly

end Recovery

namespace Cursor

/-! ## Rounds of a cursor -/

/-- A round of the loop over the declarations: a cursor that is not at the end reads one more.
Behind a malformed one it moves on to where reading may resume. -/
inductive Round : Cursor → Except ParseError Stmt → Cursor → Prop
  | wellFormed {cursor ready reached : Cursor} {statement : Stmt}
      (hend : cursor.atEnd = (false, ready))
      (hread : Routine.Ends (Phrase.read ()) (Phrase.read () .declaration) ready
        (.ok statement, reached)) :
      Round cursor (.ok statement) reached
  | malformed {cursor ready reached : Cursor} {error : ParseError}
      (hend : cursor.atEnd = (false, ready))
      (hread : Routine.Ends (Phrase.read ()) (Phrase.read () .declaration) ready
        (.error error, reached)) :
      Round cursor (.error error) reached.recover

/-- Some rounds, one after the other, with what the declarations are read as. -/
inductive Rounds : Cursor → List (Except ParseError Stmt) → Cursor → Prop
  | none {cursor : Cursor} : Rounds cursor [] cursor
  | more {cursor reached after : Cursor} {results : List (Except ParseError Stmt)}
      {result : Except ParseError Stmt} (h : Rounds cursor results reached)
      (hround : Round reached result after) : Rounds cursor (results ++ [result]) after

section Shows

variable {tokens : Array Token} {before : List Token} {closing : Token} {cursor after : Cursor}
  {recovery recovery' : Recovery} {result : Except ParseError Stmt}
  (hcloses : ClosesBehind tokens before closing)
  (hshows : cursor.Shows tokens before recovery.reader)
include hcloses hshows

/-- A round of a cursor is a step of what reading has come to. -/
theorem Round.step (h : cursor.Round result after) :
    ∃ reached, Recovery.Step closing recovery (recovery.take reached result) ∧
      after.Shows tokens before (recovery.take reached result).reader := by
  have hready : ∀ ready, cursor.atEnd = (false, ready) →
      recovery.reader.rest ≠ [] ∧ ready = cursor := by
    intro ready hend
    rw [hshows.atEnd_eq hcloses] at hend
    obtain ⟨hempty, rfl⟩ := Prod.mk.inj hend
    refine ⟨fun hnil => ?_, rfl⟩
    rw [hnil] at hempty
    cases hempty
  obtain ⟨found, reached, reached', hcursor, hreader, hreached⟩ :=
    Phrase.exists_ends_alongside hcloses hshows .declaration
  cases h with
  | wellFormed hend hread =>
    obtain ⟨hrest, rfl⟩ := hready _ hend
    cases hread.unique hcursor
    exact ⟨reached', .take hrest hreader, hreached⟩
  | malformed hend hread =>
    obtain ⟨hrest, rfl⟩ := hready _ hend
    cases hread.unique hcursor
    exact ⟨reached', .take hrest hreader, hreached.recover hcloses⟩

/-- What reading comes to in a step, a cursor comes to in a round. -/
theorem exists_round_of_step (h : Recovery.Step closing recovery recovery') :
    ∃ result reached after, recovery' = recovery.take reached result ∧
      cursor.Round result after ∧ after.Shows tokens before recovery'.reader := by
  obtain ⟨hrest, hread⟩ := h
  rename_i result reached
  obtain ⟨found, place, reached', hcursor, hreader, hreached⟩ :=
    Phrase.exists_ends_alongside hcloses hshows .declaration
  cases hread.unique hreader
  have hend : cursor.atEnd = (false, cursor) := by
    rw [hshows.atEnd_eq hcloses]
    cases hleft : recovery.reader.rest with
    | nil => exact absurd hleft hrest
    | cons token rest => rfl
  cases result with
  | ok statement => exact ⟨_, _, _, rfl, .wellFormed hend hcursor, hreached⟩
  | error error => exact ⟨_, _, _, rfl, .malformed hend hcursor, hreached.recover hcloses⟩

theorem Rounds.steps {results : List (Except ParseError Stmt)} (h : cursor.Rounds results after) :
    ∃ last, Recovery.Steps closing recovery last ∧ after.Shows tokens before last.reader := by
  induction h with
  | none => exact ⟨recovery, .refl, hshows⟩
  | more _ hround ih =>
    obtain ⟨last, hsteps, hlast⟩ := ih
    obtain ⟨reached, hstep, hafter⟩ := hround.step hcloses hlast
    exact ⟨_, hsteps.tail hstep, hafter⟩

theorem exists_rounds_of_steps (h : Recovery.Steps closing recovery recovery') :
    ∃ results after, cursor.Rounds results after ∧ after.Shows tokens before recovery'.reader ∧
      (recovery'.statements = recovery.statements ++ results.filterMap fun
        | .error _ => none
        | .ok statement => some statement) ∧
      recovery'.errors = recovery.errors ++ results.filterMap fun
        | .error error => some error
        | .ok _ => none := by
  induction h with
  | refl => exact ⟨[], cursor, .none, hshows, (List.append_nil _).symm, (List.append_nil _).symm⟩
  | tail _ hstep ih =>
    obtain ⟨results, place, hrounds, hplace, hstatements, herrors⟩ := ih
    obtain ⟨result, reached, after, rfl, hround, hafter⟩ :=
      exists_round_of_step hcloses hplace hstep
    refine ⟨results ++ [result], after, .more hrounds hround, hafter, ?_, ?_⟩
    · rw [List.filterMap_append, ← List.append_assoc, ← hstatements]
      cases result with
      | ok statement => rfl
      | error error => exact (List.append_nil _).symm
    · rw [List.filterMap_append, ← List.append_assoc, ← herrors]
      cases result with
      | ok statement => exact (List.append_nil _).symm
      | error error => rfl

end Shows

end Cursor

namespace Program

variable {tokens : List Token} {nextId : AccessId}

/-- A cursor on the tokens of a program is in range, no token that closes a program stands before
it, and none was asked for that is out of range. -/
structure InRange (tokens : List Token) (cursor : Cursor) : Prop where
  tokens_eq : cursor.tokens = (closed tokens).toArray
  lt : cursor.current < (closed tokens).length
  kind_ne : ∀ token ∈ (closed tokens).take cursor.current, token.kind ≠ .endOfInput
  strayed : cursor.strayed = false

theorem inRange_of_shows {cursor : Cursor} {reader : Reader}
    (h : cursor.Shows (closed tokens).toArray (opened tokens) reader) : InRange tokens cursor := by
  have hcloses := closesBehind tokens
  obtain ⟨later, hlater⟩ := hcloses.isPrefix
  have hlater : opened tokens ++ [closing tokens] ++ later = closed tokens := hlater
  have hle := h.le
  refine ⟨h.tokens, ?_, fun token htoken => hcloses.kind_ne token ?_, h.strayed⟩
  · rw [← hlater, List.length_append, List.length_append, List.length_singleton]
    omega
  · rw [← hlater, List.append_assoc, List.take_append_of_le_length hle] at htoken
    exact List.mem_of_mem_take htoken

/-- A cursor that stands where a reader does has moved past so many tokens. -/
theorem standsAt_of_shows {tokens : Array Token} {before : List Token} {cursor : Cursor}
    {reader : Reader} (h : cursor.Shows tokens before reader) :
    reader.StandsAt before cursor.current :=
  ⟨h.le, h.rest⟩

/-! ## What reading comes to -/

theorem reading_congr {tokens' : List Token} (hopened : opened tokens = opened tokens')
    (hclosing : closing tokens = closing tokens') :
    reading tokens nextId = reading tokens' nextId := by
  have hstart : start tokens nextId = start tokens' nextId :=
    congrArg (fun rest => Reader.mk rest nextId) hopened
  have hends := ends_reading tokens' nextId
  rw [← hclosing, ← hstart] at hends
  exact (ends_reading tokens nextId).unique hends

/-- Nothing behind the first token that closes a program matters. -/
theorem ofTokens_append (h : ∃ token ∈ tokens, token.kind = .endOfInput) (later : List Token) :
    ofTokens (tokens ++ later) nextId = ofTokens tokens nextId := by
  obtain ⟨others, heq, hne⟩ := exists_eq_append_closing h
  have hwhole : tokens ++ later = opened tokens ++ closing tokens :: (others ++ later) := by
    rw [← List.cons_append, ← List.append_assoc, ← heq]
  obtain ⟨hopened, hclosing⟩ :=
    opened_closing_append_cons hne (kind_closing tokens) (others ++ later)
  rw [ofTokens_eq, ofTokens_eq, hwhole, reading_congr hopened hclosing]

/-- The machine reads a program in a number of rounds that is linear in the number of its tokens. -/
theorem run_eq_some_declarations {rounds : Nat} (hrounds : roundsFor tokens ≤ rounds) :
    Routine.run (Phrase.read ()) rounds .program (cursor tokens nextId) =
      some (declarations tokens nextId) := by
  obtain ⟨outcome, hrun⟩ := exists_run_cursor tokens nextId hrounds
  have hends := Routine.exists_run_iff_ends.1 ⟨rounds, hrun⟩
  have hread : Routine.run (Phrase.read ()) (roundsFor tokens) .program (cursor tokens nextId) =
      some (declarations tokens nextId) := Option.some_get _ |>.symm
  rw [hrun, hends.unique (Routine.exists_run_iff_ends.1 ⟨_, hread⟩)]

/-- The reading of a program comes to read a phrase, directly or within others. -/
def ComesToRead (tokens : List Token) (nextId : AccessId) (call : Phrase × Cursor) : Prop :=
  CallTree.Comes (fun call : Phrase × Cursor => Phrase.read () call.1 call.2)
    (Phrase.read () .program (cursor tokens nextId)) call

/-- Whatever phrase comes to be read, the cursor is in range before and after. -/
theorem inRange_of_comesToRead {call : Phrase × Cursor} (h : ComesToRead tokens nextId call) :
    InRange tokens call.2 ∧
      ∃ outcome, Routine.Ends (Phrase.read ()) (Phrase.read () call.1) call.2 outcome ∧
        InRange tokens outcome.2 ∧ call.2.Passes outcome.2 := by
  have hcloses := closesBehind tokens
  have hshows := Phrase.shows_of_comes hcloses (shows_start tokens nextId) h
  obtain ⟨result, reached, _, hends, -, hreached⟩ :=
    Phrase.exists_ends_alongside hcloses hshows call.1
  exact ⟨inRange_of_shows hshows, _, hends, inRange_of_shows hreached,
    Phrase.passes_of_ends hends⟩

/-- What has been read of a program before the first round of the loop over its declarations. -/
def beginning (tokens : List Token) (nextId : AccessId) : Recovery :=
  ⟨start tokens nextId, [], [], []⟩

theorem orderly_of_steps {recovery : Recovery}
    (h : Recovery.Steps (closing tokens) (beginning tokens nextId) recovery) :
    ∃ positions k, recovery.Orderly (opened tokens) (closing tokens) positions k := by
  have hbeginning : (beginning tokens nextId).Orderly (opened tokens) (closing tokens) [] 0 :=
    ⟨⟨Nat.zero_le _, rfl⟩, .nil, .nil, fun _ he => absurd he List.not_mem_nil, Nat.zero_le _⟩
  exact h.orderly (kind_closing tokens) hbeginning

/-- Each round moves the cursor past at least one more token. -/
theorem lt_of_round {results : List (Except ParseError Stmt)} {result : Except ParseError Stmt}
    {reached after : Cursor} (hrounds : (cursor tokens nextId).Rounds results reached)
    (hround : reached.Round result after) :
    InRange tokens reached ∧ InRange tokens after ∧ reached.current < after.current := by
  have hcloses := closesBehind tokens
  have hstart : (cursor tokens nextId).Shows (closed tokens).toArray (opened tokens)
      (beginning tokens nextId).reader := shows_start tokens nextId
  obtain ⟨last, -, hlast⟩ := hrounds.steps hcloses hstart
  obtain ⟨_, hstep, hafter⟩ := hround.step hcloses hlast
  obtain ⟨k, hat, hlt, -⟩ := hstep.advances (kind_closing tokens) (standsAt_of_shows hlast)
  obtain rfl := hat.unique (standsAt_of_shows hafter)
  exact ⟨inRange_of_shows hlast, inRange_of_shows hafter, hlt⟩

/-- Reading any tokens whatever gets on and stays among them.

* The machine comes to the declarations of the program, in a number of rounds that is linear in the
  number of tokens, and the cursor is in range at the end.
* Whatever a phrase is read with, the cursor keeps its tokens, does not go back, and remains astray
  once it has gone astray.
* Whatever phrase comes to be read, it ends, and before and after it the cursor is in range, not
  behind the first token that closes the program, and not astray.
* Where a token closes the program, nothing depends on the tokens behind it.
* Each round of the loop over the declarations moves the cursor past at least one token.
* The result is what the rounds come to, and the tokens that the errors name stand at positions that
  rise from one error to the next; so there are not more errors than tokens. -/
theorem reading_gets_on (tokens : List Token) (nextId : AccessId) :
    (∀ rounds, 192 * tokens.length + 1 < rounds →
      Routine.run (Phrase.read ()) rounds .program (cursor tokens nextId) =
        some (declarations tokens nextId)) ∧
    InRange tokens (declarations tokens nextId).2 ∧
    (∀ (phrase : Phrase) (place : Cursor) (outcome : Outcome Cursor ParseError phrase.Result),
      Routine.Ends (Phrase.read ()) (Phrase.read () phrase) place outcome →
        place.Passes outcome.2) ∧
    (∀ call, ComesToRead tokens nextId call → InRange tokens call.2 ∧
      ∃ outcome, Routine.Ends (Phrase.read ()) (Phrase.read () call.1) call.2 outcome ∧
        InRange tokens outcome.2 ∧ call.2.Passes outcome.2) ∧
    ((∃ token ∈ tokens, token.kind = .endOfInput) →
      ∀ later, ofTokens (tokens ++ later) nextId = ofTokens tokens nextId) ∧
    (∀ results reached result after, (cursor tokens nextId).Rounds results reached →
      reached.Round result after →
        InRange tokens reached ∧ InRange tokens after ∧ reached.current < after.current) ∧
    ∃ (results : List (Except ParseError Stmt)) (statements : List Stmt) (errors : List ParseError)
      (last : Cursor) (positions : List Nat),
      (cursor tokens nextId).Rounds results last ∧ last.atEnd.1 = true ∧
      (statements = results.filterMap fun
        | .error _ => none
        | .ok statement => some statement) ∧
      (errors = results.filterMap fun
        | .error error => some error
        | .ok _ => none) ∧
      ofTokens tokens nextId =
        (if errors = [] then .ok statements else .error errors, last.nextId) ∧
      List.Forall₂ (fun e error => (closed tokens)[e]? = some error.token) positions errors ∧
      positions.Pairwise (· < ·) ∧ errors.length ≤ tokens.length := by
  have hcloses := closesBehind tokens
  refine ⟨fun rounds hrounds => run_eq_some_declarations hrounds,
    inRange_of_shows (ends_shows_reading tokens nextId).2,
    fun phrase place outcome h => Phrase.passes_of_ends h,
    fun call hcomes => inRange_of_comesToRead hcomes, fun h later => ofTokens_append h later,
    fun results reached result after hrounds hround => lt_of_round hrounds hround, ?_⟩
  obtain ⟨last, hsteps, hrest, hresult⟩ := exists_steps tokens nextId []
  obtain ⟨positions, k, horderly⟩ := orderly_of_steps hsteps
  obtain ⟨results, place, hrounds, hplace, hstatements, herrors⟩ :=
    Cursor.exists_rounds_of_steps hcloses (shows_start tokens nextId) hsteps
  refine ⟨results, last.statements, last.errors, place, positions, hrounds, ?_, hstatements,
    herrors, ?_, ?_, horderly.rising, ?_⟩
  · rw [hplace.atEnd_eq hcloses, hrest]
    rfl
  · rw [hresult, hplace.nextId]
  · refine horderly.named.imp fun e error htoken => ?_
    obtain ⟨later, hlater⟩ := hcloses.isPrefix
    have hlater : opened tokens ++ [closing tokens] ++ later = closed tokens := hlater
    obtain ⟨hlt, -⟩ := List.getElem?_eq_some_iff.1 htoken
    rw [← hlater, List.getElem?_append_left hlt, htoken]
  · have hlength : (opened tokens).length ≤ tokens.length := (List.takeWhile_prefix _).length_le
    have hnumber := horderly.named.length_eq
    have hcount := horderly.count
    have hle := horderly.standsAt.le
    omega

end Program

end Lox
