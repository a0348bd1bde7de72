/-
# What readers are left with when they succeed

A specification says of each phrase how the reader before it, its result and the reader after it are
related, if reading it succeeds. `Yields` is the logic in which the steps of reading are followed:
whatever the phrases that are called yield according to the specification, the whole step yields
what is claimed. A failure owes nothing here.
-/

import Lox.Parse.Program
import Lox.Proofs.CallTree.Steps

namespace Lox

namespace Phrase

variable {α β : Type} {closing : Token} {reader : Reader} {post : α → Reader → Prop}

/-- How the reader before a phrase, its result and the reader after it are related. -/
abbrev Spec : Type := (phrase : Phrase) → Reader → phrase.Result → Reader → Prop

/-- An outcome, if it is a success, is as claimed. -/
def Success (post : α → Reader → Prop) : Outcome Reader ParseError α → Prop
  | (.ok answer, reader) => post answer reader
  | (.error _, _) => True

/-- A step that succeeds does so as claimed, if the phrases it calls keep to the specification. -/
def Yields (spec : Spec) (step : Reading α) (reader : Reader) (post : α → Reader → Prop) : Prop :=
  Routine.Ensures (fun _ => True) (fun call => Success (spec call.1 call.2)) step reader
    (Success post)

variable {spec : Spec}

theorem yields_pure {answer : α} (h : post answer reader) :
    Yields spec (pure answer) reader post :=
  h

theorem yields_fail {problem : ParseError} : Yields spec (Routine.fail problem) reader post :=
  trivial

theorem Yields.bind {first : Reading β} {next : β → Reading α}
    (h : Yields spec first reader fun answer reached => Yields spec (next answer) reached post) :
    Yields spec (first >>= next) reader post := by
  refine Routine.ensures_bind.2 (Routine.Ensures.mono h ?_)
  rintro ⟨problem | answer, reached⟩ hpost
  · trivial
  · exact hpost

theorem Yields.mono {step : Reading α} {post' : α → Reader → Prop}
    (h : Yields spec step reader post)
    (himp : ∀ answer reached, post answer reached → post' answer reached) :
    Yields spec step reader post' := by
  refine Routine.Ensures.mono h ?_
  rintro ⟨problem | answer, reached⟩ hpost
  · trivial
  · exact himp answer reached hpost

theorem yields_call {p : Phrase} {post : p.Result → Reader → Prop}
    (h : ∀ answer reached, spec p reader answer reached → post answer reached) :
    Yields spec (Routine.call p) reader post := by
  refine Routine.ensures_call.2 ⟨trivial, ?_⟩
  rintro ⟨problem | answer, reached⟩ hspec
  · trivial
  · exact h answer reached hspec

theorem yields_jump {p : Phrase} {post : p.Result → Reader → Prop}
    (h : ∀ answer reached, spec p reader answer reached → post answer reached) :
    Yields spec (Routine.jump p) reader post :=
  yields_call h

theorem yields_call_bind {p : Phrase} {next : p.Result → Reading α}
    (h : ∀ answer reached, spec p reader answer reached → Yields spec (next answer) reached post) :
    Yields spec (Routine.call p >>= next) reader post :=
  Yields.bind (yields_call h)

theorem yields_peek_bind {next : Token → Reading α} (hclosing : closing.kind = .endOfInput)
    (h : ∀ token, (token.kind ≠ .endOfInput → reader.rest = token :: reader.rest.tail) →
      Yields spec (next token) reader post) :
    Yields spec (peek closing >>= next) reader post := by
  refine Yields.bind (h (reader.rest.head?.getD closing) ?_)
  cases reader.rest with
  | nil => exact fun hkind => absurd hclosing hkind
  | cons token rest => exact fun _ => rfl

theorem yields_skip_bind {next : Unit → Reading α}
    (h : ∀ reached, reached.rest = reader.rest.tail → reached.nextId = reader.nextId →
      Yields spec (next ()) reached post) :
    Yields spec (skip >>= next) reader post :=
  Yields.bind (h { reader with rest := reader.rest.tail } rfl rfl)

theorem yields_freshId_bind {next : AccessId → Reading α}
    (h : ∀ reached, reached.rest = reader.rest → reached.nextId = reader.nextId + 1 →
      Yields spec (next reader.nextId) reached post) :
    Yields spec (freshId >>= next) reader post :=
  Yields.bind (h { reader with nextId := reader.nextId + 1 } rfl rfl)

theorem yields_accept_bind {wanted : Token.Kind → Bool} {next : Option Token → Reading α}
    (htake : ∀ token reached, reader.rest = token :: reached.rest →
      reached.nextId = reader.nextId → wanted token.kind = true →
        Yields spec (next (some token)) reached post)
    (hleave : (∀ token ∈ reader.rest.head?, wanted token.kind = false) →
      Yields spec (next none) reader post) :
    Yields spec (accept wanted >>= next) reader post := by
  refine Yields.bind ?_
  obtain ⟨_ | ⟨token, rest⟩, nextId⟩ := reader
  · exact hleave (by simp)
  · show Success _ (if wanted token.kind then _ else _)
    by_cases hwanted : wanted token.kind
    · rw [if_pos hwanted]
      exact htake token ⟨rest, nextId⟩ rfl rfl hwanted
    · rw [if_neg hwanted]
      exact hleave (by simpa using hwanted)

theorem yields_reject {problem : ParseProblem} :
    Yields spec (reject closing problem : Reading α) reader post := by
  refine Yields.bind ?_
  show Yields spec (Routine.fail ⟨reader.rest.head?.getD closing, problem⟩) reader post
  exact yields_fail

theorem yields_expect_bind {expected : Expectation} {next : Token → Reading α}
    (h : ∀ token reached, reader.rest = token :: reached.rest →
      reached.nextId = reader.nextId → token.kind = expected.kind →
        Yields spec (next token) reached post) :
    Yields spec (expect closing expected >>= next) reader post := by
  refine Yields.bind (yields_accept_bind (fun token reached hrest hid hkind => ?_) fun _ => ?_)
  · exact h token reached hrest hid (of_decide_eq_true hkind)
  · exact yields_reject

theorem yields_unlessAt_bind {kind : Token.Kind} {absent : β} {present : Reading β}
    {next : β → Reading α} (hclosing : closing.kind = .endOfInput)
    (habsent : Yields spec (next absent) reader post)
    (hpresent : Yields spec (present >>= next) reader post) :
    Yields spec (unlessAt closing kind absent present >>= next) reader post := by
  unfold unlessAt
  rw [Routine.bind_assoc]
  refine yields_peek_bind hclosing fun token _ => ?_
  split
  · exact habsent
  · exact hpresent

/-- If every phrase keeps to the specification as long as the phrases do that it calls, then every
phrase that is read successfully is read as specified. -/
theorem read_of_yields
    (h : ∀ phrase reader, Yields spec (read closing phrase) reader (spec phrase reader))
    {phrase : Phrase} {result : phrase.Result} {reached : Reader}
    (hread : Routine.Ends (read closing) (read closing phrase) reader (.ok result, reached)) :
    spec phrase reader result reached := by
  exact @Routine.Ends.of_ensures Phrase Reader ParseError Result (read closing) reader
    (fun _ => True) (fun call => Success (spec call.1 call.2))
    (fun phrase reader _ => h phrase reader) phrase (.ok result, reached) trivial hread

end Phrase

/-- What is left of a program where a cursor stands. -/
def Cursor.left (cursor : Cursor) : Reader :=
  ⟨(cursor.tokens.toList.takeWhile (·.kind ≠ .endOfInput)).drop cursor.current, cursor.nextId⟩

theorem ClosesBehind.takeWhile_eq {tokens : Array Token} {before : List Token} {closing : Token}
    (h : ClosesBehind tokens before closing) :
    tokens.toList.takeWhile (·.kind ≠ .endOfInput) = before := by
  obtain ⟨later, heq⟩ := h.isPrefix
  rw [← heq, List.append_assoc]
  exact (Program.opened_closing_append_cons h.kind_ne h.kind later).1

theorem Cursor.Shows.left_eq {tokens : Array Token} {before : List Token} {closing : Token}
    {cursor : Cursor} {reader : Reader} (hcloses : ClosesBehind tokens before closing)
    (h : cursor.Shows tokens before reader) : cursor.left = reader := by
  unfold Cursor.left
  rw [h.tokens, hcloses.takeWhile_eq, ← h.rest, ← h.nextId]

namespace Program

/-- The declarations of a program, malformed ones included, and what is left of it. -/
def reading (tokens : List Token) (nextId : AccessId) :
    Outcome Reader ParseError (List (Except ParseError Stmt)) :=
  ((declarations tokens nextId).1, (declarations tokens nextId).2.left)

/-- A cursor reads the declarations of a program as they are read from the tokens that are left, and
comes to stand where these are used up. -/
theorem ends_shows_reading (tokens : List Token) (nextId : AccessId) :
    Routine.Ends (Phrase.read (closing tokens)) (Phrase.read (closing tokens) .program)
        (start tokens nextId) (reading tokens nextId) ∧
      (declarations tokens nextId).2.Shows (closed tokens).toArray (opened tokens)
        (reading tokens nextId).2 := by
  have hrun : Routine.run (Phrase.read ()) (roundsFor tokens) .program (cursor tokens nextId) =
      some (declarations tokens nextId) := Option.some_get _ |>.symm
  have hrel := Phrase.rel_run_cursor (closesBehind tokens) (shows_start tokens nextId) .program
    (roundsFor tokens)
  rw [hrun] at hrel
  unfold reading
  generalize declarations tokens nextId = declared at hrel
  cases hfound : Routine.run (Phrase.read (closing tokens)) (roundsFor tokens) .program
      (start tokens nextId) with
  | none =>
    rw [hfound] at hrel
    cases hrel
  | some found =>
    rw [hfound] at hrel
    have hends := Routine.exists_run_iff_ends.1 ⟨_, hfound⟩
    obtain ⟨⟨heq, hshows⟩ | ⟨heq, hshows⟩⟩ := hrel
    · cases heq
      rw [hshows.left_eq (closesBehind tokens)]
      exact ⟨hends, hshows⟩
    · cases heq
      rw [hshows.left_eq (closesBehind tokens)]
      exact ⟨hends, hshows⟩

/-- What reading the declarations of a program ends in is what the machine finds. -/
theorem ends_reading (tokens : List Token) (nextId : AccessId) :
    Routine.Ends (Phrase.read (closing tokens)) (Phrase.read (closing tokens) .program)
      (start tokens nextId) (reading tokens nextId) :=
  (ends_shows_reading tokens nextId).1

theorem ofTokens_eq (tokens : List Token) (nextId : AccessId) :
    ofTokens tokens nextId =
      match reading tokens nextId with
      | (.error error, reader) => (.error [error], reader.nextId)
      | (.ok read, reader) =>
        let errors := read.filterMap fun
          | .error error => some error
          | .ok _ => none
        let statements := read.filterMap fun
          | .error _ => none
          | .ok statement => some statement
        (if errors.isEmpty then .ok statements else .error errors, reader.nextId) := by
  unfold ofTokens reading
  obtain ⟨problem | read, cursor⟩ := declarations tokens nextId <;> rfl

theorem nextId_ofTokens (tokens : List Token) (nextId : AccessId) :
    (ofTokens tokens nextId).2 = (reading tokens nextId).2.nextId := by
  rw [ofTokens_eq]
  split
  · rename_i error reader hdeclarations
    rw [hdeclarations]
  · rename_i read reader hdeclarations
    rw [hdeclarations]

/-- No declaration is malformed exactly if there are only statements. -/
theorem filterMap_error_eq_nil_iff {read : List (Except ParseError Stmt)} {program : List Stmt} :
    ((read.filterMap fun
        | .error error => some error
        | .ok _ => none) = [] ∧
      (read.filterMap fun
        | .error _ => none
        | .ok statement => some statement) = program) ↔ read = program.map .ok := by
  induction read generalizing program with
  | nil => simp [eq_comm]
  | cons first rest ih =>
    cases first with
    | error problem => cases program <;> simp
    | ok s =>
      cases program with
      | nil => simp
      | cons s' program => simp [← ih, and_left_comm]

/-- What the statements of a program are, if none of its declarations is malformed. -/
theorem ofTokens_eq_ok_iff {tokens : List Token} {nextId next : AccessId} {program : List Stmt} :
    ofTokens tokens nextId = (.ok program, next) ↔
      ∃ reader, reading tokens nextId = (.ok (program.map .ok), reader) ∧
        reader.nextId = next := by
  rw [ofTokens_eq]
  obtain ⟨problem | read, reader⟩ := reading tokens nextId
  · simp
  · constructor
    · intro h
      obtain ⟨hresult, hnext⟩ := Prod.mk.inj h
      split at hresult
      · rename_i hempty
        cases hresult
        have hread := filterMap_error_eq_nil_iff.1 ⟨List.isEmpty_iff.1 hempty, rfl⟩
        exact ⟨reader, congrArg (fun read => (Except.ok read, reader)) hread, hnext⟩
      · cases hresult
    · rintro ⟨reader', hread, hnext⟩
      cases hread
      obtain ⟨herrors, hstatements⟩ := (@filterMap_error_eq_nil_iff _ program).2 rfl
      refine Prod.ext ?_ hnext
      exact (if_pos (List.isEmpty_iff.2 herrors)).trans (congrArg Except.ok hstatements)

/-- Statements are found by reading the tokens that are left, without a cursor. -/
theorem ofTokens_eq_of_run {tokens rest : List Token} {nextId next : AccessId}
    {program : List Stmt} (rounds : Nat)
    (h : Routine.run (Phrase.read (closing tokens)) rounds .program (start tokens nextId) =
      some (.ok (program.map .ok), ⟨rest, next⟩)) :
    ofTokens tokens nextId = (.ok program, next) := by
  have hends := Routine.exists_run_iff_ends.1 ⟨_, h⟩
  exact ofTokens_eq_ok_iff.2 ⟨_, (ends_reading tokens nextId).unique hends, rfl⟩

end Program

end Lox
