/-
# Reading on behind what is malformed

The declarations of a program are read one after the other. Where one turns out malformed, this is
recorded and reported, and reading resumes where a statement can begin. `Recovery.Step` is one round
of this loop, and the result of a program is what the rounds come to (`Program.exists_steps`).
-/

import Mathlib.Logic.Basic
import Mathlib.Logic.Relation
import Lox.Proofs.Grammar.Reading

namespace Lox

/-- What has been reported so far, in that order. -/
abbrev Sink : Type := List Diagnostic

/-- Report one more thing. -/
def Sink.report (sink : Sink) (diagnostic : Diagnostic) : Sink := sink ++ [diagnostic]

/-- How far the reading of the declarations of a program has come. -/
structure Recovery where
  /-- What is left to be read. -/
  reader : Reader
  /-- The declarations that were well-formed. -/
  statements : List Stmt
  /-- What was wrong with the others. -/
  errors : List ParseError
  /-- What has been reported. -/
  sink : Sink

namespace Recovery

/-- Go on behind a declaration. A malformed one is reported at once, and reading resumes where a
statement can begin. -/
def take (before : Recovery) (reached : Reader) : Except ParseError Stmt → Recovery
  | .ok statement =>
    { before with reader := reached, statements := before.statements ++ [statement] }
  | .error error =>
    { before with
      reader := { reached with rest := Phrase.resume reached.rest }
      errors := before.errors ++ [error]
      sink := before.sink.report (.atToken .parse error.token error.message) }

/-- As long as tokens are left, one more declaration is read. -/
inductive Step (closing : Token) (before : Recovery) : Recovery → Prop where
  | take {result : Except ParseError Stmt} {reached : Reader} (hrest : before.reader.rest ≠ [])
      (hread : Routine.Ends (Phrase.read closing) (Phrase.read closing .declaration) before.reader
        (result, reached)) :
      Step closing before (before.take reached result)

/-- Reading takes one declaration after another. -/
abbrev Steps (closing : Token) : Recovery → Recovery → Prop := Relation.ReflTransGen (Step closing)

variable {closing : Token} {before after after' : Recovery}

/-- A declaration is read in one way only. -/
theorem rightUnique_step : Relator.RightUnique (Step closing) := by
  rintro before _ _ ⟨hrest, hread⟩ ⟨hrest', hread'⟩
  cases hread.unique hread'
  rfl

theorem not_step_of_rest_eq_nil (hrest : before.reader.rest = []) : ¬ Step closing before after :=
  fun ⟨hne, _⟩ => hne hrest

/-- So a program is read to its end in one way only. -/
theorem Steps.unique (h : Steps closing before after) (hrest : after.reader.rest = [])
    (h' : Steps closing before after') (hrest' : after'.reader.rest = []) : after = after' := by
  rcases h.total_of_right_unique rightUnique_step h' with hsteps | hsteps
  · rcases hsteps.cases_head with heq | ⟨_, hstep, -⟩
    · exact heq
    · exact absurd hstep (not_step_of_rest_eq_nil hrest)
  · rcases hsteps.cases_head with heq | ⟨_, hstep, -⟩
    · exact heq.symm
    · exact absurd hstep (not_step_of_rest_eq_nil hrest')

/-- The reading of a program goes step by step: it gathers the statements and the errors among what
the declarations are read as, and comes to the end. -/
def Gathers (closing : Token) :
    (call : Phrase × Reader) → Outcome Reader ParseError call.1.Result → Prop
  | (.program, reader), (outcome, reached) =>
    ∃ read, outcome = .ok read ∧ reached.rest = [] ∧
      ∀ before : Recovery, before.reader = reader → ∃ after, Steps closing before after ∧
        after.reader = reached ∧
        (after.statements = before.statements ++ read.filterMap fun
          | .error _ => none
          | .ok statement => some statement) ∧
        after.errors = before.errors ++ read.filterMap fun
          | .error error => some error
          | .ok _ => none
  | _, _ => True

/-- Once one declaration has been taken, the others are gathered as well. -/
theorem gathers_cons {reader reached last : Reader} {first : Except ParseError Stmt}
    (hrest : reader.rest ≠ [])
    (hread : Routine.Ends (Phrase.read closing) (Phrase.read closing .declaration) reader
      (first, reached))
    {resumed : Reader} (hresumed : ∀ before : Recovery,
      (before.take reached first).reader = resumed)
    {others : List (Except ParseError Stmt)}
    (hothers : Gathers closing (.program, resumed) (.ok others, last)) :
    Gathers closing (.program, reader) (.ok (first :: others), last) := by
  obtain ⟨_, hok, hlast, hsteps⟩ := hothers
  cases hok
  refine ⟨first :: others, rfl, hlast, ?_⟩
  rintro before rfl
  obtain ⟨after, hafter, hreader, hstatements, herrors⟩ :=
    hsteps (before.take reached first) (hresumed before)
  refine ⟨after, .head (.take hrest hread) hafter, hreader, hstatements.trans ?_,
    herrors.trans ?_⟩
  · cases first with
    | ok statement => exact List.append_assoc _ _ _
    | error error => rfl
  · cases first with
    | ok statement => rfl
    | error error => exact List.append_assoc _ _ _

/-- What is known of the phrases that the reading of a program calls. -/
abbrev Known (closing : Token) (call : Phrase × Reader)
    (outcome : Outcome Reader ParseError call.1.Result) : Prop :=
  Gathers closing call outcome ∧
    Routine.Ends (Phrase.read closing) (Phrase.read closing call.1) call.2 outcome

theorem ensures_programBody (reader : Reader) :
    Routine.Ensures (fun _ => True) (Known closing) Phrase.programBody reader
      (Gathers closing (.program, reader)) := by
  unfold Phrase.programBody
  rw [Routine.ensures_bind, Phrase.atEnd_eq, Routine.ensures_gets]
  dsimp only
  split
  · rename_i hempty
    refine ⟨[], rfl, List.isEmpty_iff.1 hempty, ?_⟩
    rintro before rfl
    exact ⟨before, .refl, rfl, (List.append_nil _).symm, (List.append_nil _).symm⟩
  · rename_i hempty
    have hrest : reader.rest ≠ [] := fun hnil => hempty (List.isEmpty_iff.2 hnil)
    rw [Routine.ensures_bind, Routine.ensures_attempt, Routine.ensures_call]
    refine ⟨trivial, ?_⟩
    rintro ⟨first, reached⟩ ⟨-, hread⟩
    have hothers : ∀ resumed, (∀ before : Recovery, (before.take reached first).reader = resumed) →
        Routine.Ensures (fun _ => True) (Known closing)
          (do
            let others ← Routine.call Phrase.program
            pure (first :: others) : Phrase.Reading (List (Except ParseError Stmt)))
          resumed (Gathers closing (.program, reader)) := by
      intro resumed hresumed
      refine Routine.Ensures.call_bind trivial ?_ ?_
      · rintro error last ⟨⟨_, hok, -⟩, -⟩
        cases hok
      · rintro others last ⟨hothers, -⟩
        exact gathers_cons hrest hread hresumed hothers
    cases first with
    | ok statement => exact hothers _ fun _ => rfl
    | error error => exact Routine.ensures_bind.2 (hothers _ fun _ => rfl)

/-- Whatever the declarations of a program are read as, the reading gathers it. -/
theorem gathers_of_ends {reader : Reader}
    {outcome : Outcome Reader ParseError (List (Except ParseError Stmt))}
    (h : Routine.Ends (Phrase.read closing) (Phrase.read closing .program) reader outcome) :
    Gathers closing (.program, reader) outcome := by
  have hbody : ∀ call : Phrase × Reader, True →
      CallTree.Watched (fun call : Phrase × Reader => Phrase.read closing call.1 call.2)
        (fun _ => True) (Gathers closing) (Phrase.read closing call.1 call.2)
        (Gathers closing call) := by
    rintro ⟨phrase, reader⟩ -
    suffices Routine.Ensures (fun _ => True) (Known closing) (Phrase.read closing phrase) reader
        (Gathers closing (phrase, reader)) from
      CallTree.Ensures.weaken this fun _ _ _ => trivial
    have hends : Routine.Ensures (fun _ => True) (Known closing) (Phrase.read closing phrase) reader
        fun _ => True :=
      (CallTree.ensures_ends (Phrase.read closing phrase reader) fun _ _ h => h.2).mono
        fun _ _ => trivial
    cases phrase with
    | program => exact ensures_programBody reader
    | _ => exact hends
  have hanswers : CallTree.Answers (fun call : Phrase × Reader => Phrase.read closing call.1 call.2)
      (.program, reader) outcome := h
  exact CallTree.Answers.of_watched hbody trivial hanswers

end Recovery

namespace Program

variable {tokens : List Token} {nextId next : AccessId}

/-- Step by step, reading comes to the result of the program. -/
theorem exists_steps (tokens : List Token) (nextId : AccessId) (sink : Sink) :
    ∃ last, Recovery.Steps (closing tokens) ⟨start tokens nextId, [], [], sink⟩ last ∧
      last.reader.rest = [] ∧
      ofTokens tokens nextId =
        (if last.errors = [] then .ok last.statements else .error last.errors,
          last.reader.nextId) := by
  have hgathers := Recovery.gathers_of_ends (ends_reading tokens nextId)
  rw [ofTokens_eq]
  generalize reading tokens nextId = declared at hgathers
  obtain ⟨outcome, reached⟩ := declared
  obtain ⟨read, rfl, hrest, hsteps⟩ := hgathers
  obtain ⟨last, hlast, rfl, hstatements, herrors⟩ := hsteps ⟨_, [], [], sink⟩ rfl
  refine ⟨last, hlast, hrest, ?_⟩
  rw [hstatements, herrors]
  refine Prod.ext ?_ rfl
  exact if_congr List.isEmpty_iff rfl rfl

theorem ofTokens_error_ne_nil {errors : List ParseError}
    (h : ofTokens tokens nextId = (.error errors, next)) : errors ≠ [] := by
  obtain ⟨last, -, -, hresult⟩ := exists_steps tokens nextId []
  rw [hresult] at h
  split at h
  · cases h
  · rename_i herrors
    cases h
    exact herrors

end Program

end Lox
