/-
# Programs read with a cursor

What is known of reading from the tokens that are left holds of reading with a cursor as well. From
where a cursor and a reader stand at the same place, every phrase ends, in the same result and at
the same place (`Phrase.exists_ends_alongside`); and whatever phrase comes to be read on the way is
read from such a place (`Phrase.shows_of_comes`).

Wherever a cursor stands, its tokens stay what they are, it does not go back, and once it has gone
astray it remains so (`Cursor.Passes`).
-/

import Lox.Proofs.CallTree.Order
import Lox.Proofs.CallTree.Similar
import Lox.Proofs.Grammar.Position
import Lox.Proofs.Grammar.Reading

namespace Lox

/-! ## What every cursor keeps to -/

/-- A cursor may have become another one by reading. -/
structure Cursor.Passes (cursor later : Cursor) : Prop where
  tokens : later.tokens = cursor.tokens
  current : cursor.current ≤ later.current
  strayed : cursor.strayed = true → later.strayed = true

instance : IsPreorder Cursor Cursor.Passes where
  refl _ := ⟨rfl, Nat.le_refl _, id⟩
  trans _ _ _ h h' := ⟨h'.tokens.trans h.tokens, Nat.le_trans h.current h'.current,
    fun hstrayed => h'.strayed (h.strayed hstrayed)⟩

namespace Cursor

variable (cursor : Cursor)

theorem passes_fetch (i : Nat) : cursor.Passes (cursor.fetch i).2 := by
  refine ⟨cursor.tokens_fetch i, Nat.le_of_eq (cursor.current_fetch i).symm, fun hstrayed => ?_⟩
  unfold fetch
  split
  · exact hstrayed
  · rfl

theorem passes_peek : cursor.Passes cursor.peek.2 := cursor.passes_fetch _

theorem passes_advance : cursor.Passes cursor.advance.2 := by
  have hend : cursor.Passes cursor.atEnd.2 := cursor.passes_peek
  unfold advance
  dsimp only
  split
  · exact trans_of Passes hend (cursor.atEnd.2.passes_fetch _)
  · have hmoved : cursor.atEnd.2.Passes
        { cursor.atEnd.2 with current := cursor.atEnd.2.current + 1 } :=
      ⟨rfl, Nat.le_succ _, id⟩
    exact trans_of Passes hend (trans_of Passes hmoved (passes_fetch _ _))

theorem passes_seekWithin (bound : Nat) : cursor.Passes (cursor.seekWithin bound) := by
  induction bound generalizing cursor with
  | zero => exact refl_of Passes cursor
  | succ bound ih =>
    have hend : cursor.Passes cursor.atEnd.2 := cursor.passes_peek
    have hbefore : cursor.Passes cursor.atEnd.2.previous.2 :=
      trans_of Passes hend (passes_fetch _ _)
    have hnext : cursor.Passes cursor.atEnd.2.previous.2.peek.2 :=
      trans_of Passes hbefore (passes_fetch _ _)
    unfold seekWithin
    dsimp only
    split
    · exact hend
    · split
      · exact hbefore
      · split
        · exact hnext
        · exact trans_of Passes hnext (trans_of Passes (passes_advance _) (ih _))

theorem passes_recover : cursor.Passes cursor.recover :=
  trans_of Passes cursor.passes_advance (passes_seekWithin _ _)

end Cursor

namespace Phrase

variable {κ ρ α β : Type} [Stream ρ] [Sight κ ρ] {rel : ρ → ρ → Prop} [IsPreorder ρ rel]
  {closing : κ}

/-- Every single step along the tokens keeps a relation. -/
structure StepsKeep (rel : ρ → ρ → Prop) (closing : κ) : Prop where
  peek : Routine.Keeps rel (peek closing : StepOn ρ Token)
  atEnd : Routine.Keeps rel (atEnd : StepOn ρ Bool)
  skip : Routine.Keeps rel (skip : StepOn ρ Unit)
  accept (wanted : Token.Kind → Bool) : Routine.Keeps rel (accept wanted : StepOn ρ (Option Token))
  recover : Routine.Keeps rel (recover : StepOn ρ Unit)
  freshId : Routine.Keeps rel (freshId : StepOn ρ AccessId)

section Keeps

open Routine (Keeps keeps_pure keeps_fail keeps_call keeps_jump ensures_attempt)

variable (h : StepsKeep rel closing)
include h

theorem keeps_reject {problem : ParseProblem} :
    Keeps rel (reject closing problem : StepOn ρ α) :=
  h.peek.bind fun _ => keeps_fail

theorem keeps_expect (expected : Expectation) : Keeps rel (expect closing expected) := by
  refine (h.accept _).bind fun taken => ?_
  cases taken with
  | none => exact keeps_reject h
  | some token => exact keeps_pure

theorem keeps_unlessAt {kind : Token.Kind} {absent : α} {present : StepOn ρ α}
    (hpresent : Keeps rel present) : Keeps rel (unlessAt closing kind absent present) := by
  refine h.peek.bind fun token => ?_
  split
  · exact keeps_pure
  · exact hpresent

theorem keeps_assignment (target : Expr) (operator : Token) (value : Expr) :
    Keeps rel (assignment target operator value : StepOn ρ Expr) := by
  unfold assignment
  split
  · split
    · exact h.freshId.bind fun id => keeps_pure
    · exact h.freshId.bind fun readId => h.freshId.bind fun id => keeps_pure
  · exact keeps_fail

theorem keeps_primary : Keeps rel (primary closing) := by
  have htaken : ∀ answer : Expr, Keeps rel (skip >>= fun _ => pure answer : StepOn ρ Expr) :=
    fun answer => h.skip.bind fun _ => keeps_pure
  refine h.peek.bind fun token => ?_
  split
  · exact htaken _
  · exact htaken _
  · exact htaken _
  · split
    · exact htaken _
    · exact htaken _
    · exact keeps_fail
  · split
    · exact htaken _
    · exact htaken _
    · exact keeps_fail
  · exact h.freshId.bind fun id => htaken _
  · exact h.skip.bind fun _ => keeps_call.bind fun inner =>
      (keeps_expect h _).bind fun _ => keeps_pure
  · exact h.skip.bind fun _ => (keeps_expect h _).bind fun _ => keeps_call.bind fun code =>
      (keeps_expect h _).bind fun _ => keeps_pure
  · exact keeps_fail
  · exact keeps_fail
  · exact keeps_fail

theorem keeps_form (f : Form) : Keeps rel (form closing f) := by
  cases f with
  | assignment =>
    refine keeps_call.bind fun target => (h.accept _).bind fun operator => ?_
    cases operator with
    | none => exact keeps_pure
    | some operator => exact keeps_call.bind fun value => keeps_assignment h target operator value
  | conditional =>
    refine keeps_call.bind fun condition => (h.accept _).bind fun question => ?_
    cases question with
    | none => exact keeps_pure
    | some question =>
      exact keeps_call.bind fun whenTrue => (keeps_expect h _).bind fun _ =>
        keeps_call.bind fun whenFalse => keeps_pure
  | operation level => exact keeps_call.bind fun left => keeps_jump
  | operations level left =>
    refine (h.accept _).bind fun operator => ?_
    cases operator with
    | none => exact keeps_pure
    | some operator => exact keeps_call.bind fun right => keeps_jump
  | unary =>
    refine (h.accept _).bind fun operator => ?_
    cases operator with
    | none => exact keeps_jump
    | some operator => exact keeps_call.bind fun operand => keeps_pure
  | call => exact (keeps_primary h).bind fun callee => keeps_jump
  | calls callee =>
    refine (h.accept _).bind fun paren => ?_
    cases paren with
    | none => exact keeps_pure
    | some paren =>
      exact (keeps_unlessAt h keeps_call).bind fun passed => (keeps_expect h _).bind fun paren =>
        keeps_jump

theorem keeps_argumentList (count : Nat) : Keeps rel (argumentList closing count) := by
  unfold argumentList
  split
  · exact keeps_reject h
  · refine keeps_call.bind fun argument => (h.accept _).bind fun comma => ?_
    cases comma with
    | none => exact keeps_pure
    | some comma => exact keeps_call.bind fun others => keeps_pure

theorem keeps_parameterList (count : Nat) : Keeps rel (parameterList closing count) := by
  unfold parameterList
  split
  · exact keeps_reject h
  · refine (keeps_expect h _).bind fun parameter => (h.accept _).bind fun comma => ?_
    cases comma with
    | none => exact keeps_pure
    | some comma => exact keeps_call.bind fun others => keeps_pure

theorem keeps_functionDeclaration : Keeps rel (functionDeclaration closing) :=
  (keeps_expect h _).bind fun _ => (keeps_expect h _).bind fun _ =>
    (keeps_unlessAt h keeps_call).bind fun _ => (keeps_expect h _).bind fun _ =>
      (keeps_expect h _).bind fun _ => keeps_call.bind fun _ => keeps_pure

theorem keeps_variableDeclaration : Keeps rel (variableDeclaration closing) := by
  refine (keeps_expect h _).bind fun _ => (h.accept _).bind fun equal => ?_
  cases equal with
  | none => exact (keeps_expect h _).bind fun _ => keeps_pure
  | some equal => exact keeps_call.bind fun _ => (keeps_expect h _).bind fun _ => keeps_pure

theorem keeps_ifStatement : Keeps rel (ifStatement closing) := by
  refine (keeps_expect h _).bind fun _ => keeps_call.bind fun _ =>
    (keeps_expect h _).bind fun _ => keeps_call.bind fun _ =>
      (h.accept _).bind fun keyword => ?_
  cases keyword with
  | none => exact keeps_pure
  | some keyword => exact keeps_call.bind fun whenFalse => keeps_pure

theorem keeps_whileStatement : Keeps rel (whileStatement closing) :=
  (keeps_expect h _).bind fun _ => keeps_call.bind fun _ =>
    (keeps_expect h _).bind fun _ => keeps_call.bind fun _ => keeps_pure

theorem keeps_forInitializer : Keeps rel (forInitializer closing) := by
  refine (h.accept _).bind fun semicolon => ?_
  cases semicolon with
  | some semicolon => exact keeps_pure
  | none =>
    refine (h.accept _).bind fun keyword => ?_
    cases keyword with
    | some keyword => exact (keeps_variableDeclaration h).bind fun _ => keeps_pure
    | none => exact keeps_call.bind fun _ => (keeps_expect h _).bind fun _ => keeps_pure

omit [Stream ρ] h in
theorem keeps_optional : Keeps rel (some <$> Routine.call anyExpression : StepOn ρ (Option Expr)) :=
  keeps_call.bind fun _ => keeps_pure

theorem keeps_forStatement : Keeps rel (forStatement closing) :=
  (keeps_expect h _).bind fun _ => (keeps_forInitializer h).bind fun _ =>
    (keeps_unlessAt h keeps_call).bind fun _ => (keeps_expect h _).bind fun _ =>
      (keeps_unlessAt h keeps_optional).bind fun _ => (keeps_expect h _).bind fun _ =>
        keeps_call.bind fun _ => keeps_pure

theorem keeps_anyStatement : Keeps rel (anyStatement closing) := by
  refine h.peek.bind fun token => ?_
  split
  · exact h.skip.bind fun _ => keeps_call.bind fun value => (keeps_expect h _).bind fun _ =>
      keeps_pure
  · exact h.skip.bind fun _ => keeps_ifStatement h
  · exact h.skip.bind fun _ => keeps_whileStatement h
  · exact h.skip.bind fun _ => keeps_forStatement h
  · exact h.skip.bind fun _ => (keeps_unlessAt h keeps_optional).bind fun value =>
      (keeps_expect h _).bind fun _ => keeps_pure
  · exact h.skip.bind fun _ => keeps_call.bind fun body => keeps_pure
  · exact keeps_call.bind fun value => (keeps_expect h _).bind fun _ => keeps_pure

theorem keeps_anyDeclaration : Keeps rel (anyDeclaration closing) := by
  refine h.peek.bind fun token => ?_
  split
  · exact h.skip.bind fun _ => keeps_functionDeclaration h
  · exact h.skip.bind fun _ => keeps_variableDeclaration h
  · exact keeps_fail
  · exact keeps_jump

theorem keeps_blockBody : Keeps rel (blockBody closing) := by
  refine h.peek.bind fun next => ?_
  split
  · exact (keeps_expect h _).bind fun _ => keeps_pure
  · exact keeps_call.bind fun first => keeps_call.bind fun others => keeps_pure

theorem keeps_programBody : Keeps rel (programBody : StepOn ρ _) := by
  have hothers : ∀ first : Except ParseError Stmt, Keeps rel
      (Routine.call program >>= fun others => pure (first :: others) : StepOn ρ _) :=
    fun first => keeps_call.bind fun others => keeps_pure
  refine h.atEnd.bind fun ended => ?_
  split
  · exact keeps_pure
  · refine Keeps.bind (fun place => ?_) fun first => ?_
    · exact ensures_attempt.2 (keeps_call place)
    · cases first with
      | ok statement => exact hothers _
      | error error => exact h.recover.bind fun _ => hothers _

/-- So every phrase keeps it. -/
theorem keeps_read (phrase : Phrase) : Keeps rel (read closing phrase) := by
  cases phrase with
  | expression f => exact keeps_form h f
  | arguments count => exact keeps_argumentList h count
  | parameters count => exact keeps_parameterList h count
  | declaration => exact keeps_anyDeclaration h
  | statement => exact keeps_anyStatement h
  | block => exact keeps_blockBody h
  | program => exact keeps_programBody h

end Keeps

theorem stepsKeep_passes : StepsKeep Cursor.Passes () where
  peek := Routine.keeps_step Cursor.passes_peek
  atEnd := Routine.keeps_step Cursor.passes_peek
  skip := Routine.keeps_modify Cursor.passes_advance
  accept wanted := Routine.keeps_step fun cursor => by
    dsimp only
    split
    · exact trans_of Cursor.Passes cursor.passes_peek (Cursor.passes_advance _)
    · exact cursor.passes_peek
  recover := Routine.keeps_modify Cursor.passes_recover
  freshId := Routine.keeps_step fun cursor => ⟨rfl, Nat.le_refl _, id⟩

/-- Whatever a phrase ends in, the cursor has passed on. -/
theorem passes_of_ends {phrase : Phrase} {cursor : Cursor}
    {outcome : Outcome Cursor ParseError phrase.Result}
    (h : Routine.Ends (read ()) (read () phrase) cursor outcome) : cursor.Passes outcome.2 :=
  Routine.rel_of_ends (keeps_read stepsKeep_passes) (keeps_read stepsKeep_passes phrase) h

end Phrase

/-! ## Where a reader stands as well -/

namespace Phrase

variable {tokens : Array Token} {before : List Token} {closing : Token} {cursor : Cursor}
  {reader : Reader} (hcloses : ClosesBehind tokens before closing)
include hcloses

/-- From the same place, a cursor and a reader read a phrase as the same, and come to the same
place. -/
theorem exists_ends_alongside (hshows : cursor.Shows tokens before reader) (phrase : Phrase) :
    ∃ result reached reached', Routine.Ends (read ()) (read () phrase) cursor (result, reached) ∧
      Routine.Ends (read closing) (read closing phrase) reader (result, reached') ∧
      reached.Shows tokens before reached' := by
  obtain ⟨outcome, hrun⟩ := exists_run_eq_some hcloses.kind phrase reader (Nat.lt_succ_self _)
  have hrel := rel_run_cursor hcloses hshows phrase (price (phrase, reader) + 1)
  rw [hrun] at hrel
  have hends := Routine.exists_run_iff_ends.1 ⟨_, hrun⟩
  cases hfound : Routine.run (read ()) (price (phrase, reader) + 1) phrase cursor with
  | none =>
    rw [hfound] at hrel
    cases hrel
  | some found =>
    rw [hfound] at hrel
    have hends' := Routine.exists_run_iff_ends.1 ⟨_, hfound⟩
    obtain ⟨⟨heq, hreached⟩ | ⟨heq, hreached⟩⟩ := hrel
    · cases heq
      exact ⟨_, _, _, hends', hends, hreached⟩
    · cases heq
      exact ⟨_, _, _, hends', hends, hreached⟩

/-- Whatever phrase a cursor comes to read on the way, a reader could stand at the same place. -/
theorem shows_of_comes (hshows : cursor.Shows tokens before reader) {phrase : Phrase}
    {call : Phrase × Cursor}
    (h : CallTree.Comes (fun call : Phrase × Cursor => read () call.1 call.2)
      (read () phrase cursor) call) : call.2.Shows tokens before call.2.left := by
  have hbody : ∀ (p : Phrase) (cursor : Cursor) (reader : Reader),
      cursor.Shows tokens before reader → CallTree.Ensures
        (fun call : Phrase × Cursor => call.2.Shows tokens before call.2.left)
        (fun _ outcome => outcome.2.Shows tokens before outcome.2.left) (read () p cursor)
        fun outcome => outcome.2.Shows tokens before outcome.2.left := by
    intro p cursor reader hshows
    have hsimilar := similar_read_cursor hcloses p p rfl cursor reader hshows
    refine CallTree.Ensures.mono (hsimilar.ensures ?_ ?_) ?_
    · rintro ⟨p, cursor⟩ ⟨p', reader⟩ ⟨-, hcall⟩
      exact hcall.left_eq hcloses ▸ hcall
    · rintro ⟨p, cursor⟩ ⟨p', reader⟩ ⟨result, reached⟩ ⟨heq, -⟩ hreached
      cases heq
      cases result with
      | ok answer => exact ⟨_, .ok HEq.rfl hreached⟩
      | error problem => exact ⟨_, .error rfl hreached⟩
    · rintro _ ⟨_, ⟨-, hreached⟩ | ⟨-, hreached⟩⟩
      · exact hreached.left_eq hcloses ▸ hreached
      · exact hreached.left_eq hcloses ▸ hreached
  exact CallTree.Comes.of_ensures (fun call hcall => hbody call.1 call.2 call.2.left hcall)
    (hbody phrase cursor reader hshows) h

end Phrase

end Lox
