/-
# A cursor reads what a reader does

A cursor on the tokens of a program and a reader of those that are left see the same as long as they
stand at the same place (`Cursor.Shows`): the next token is in range, and nothing behind the token
that closes the program comes into it. Every step of reading keeps them together. So whatever is
read is read alike, and in the same number of rounds (`Phrase.rel_run_cursor`).
-/

import Lox.CallTree.Similar
import Lox.Parse.Budget
import Lox.Parse.Cursor

namespace Lox

/-- The first of some tokens that closes a program is `closing`, and it stands behind `before`. -/
structure ClosesBehind (tokens : Array Token) (before : List Token) (closing : Token) : Prop where
  isPrefix : before ++ [closing] <+: tokens.toList
  kind_ne : ∀ token ∈ before, token.kind ≠ .endOfInput
  kind : closing.kind = .endOfInput

/-- A cursor and a reader stand at the same place, which is not behind the token that closes the
program. -/
structure Cursor.Shows (tokens : Array Token) (before : List Token) (cursor : Cursor)
    (reader : Reader) : Prop where
  tokens : cursor.tokens = tokens
  le : cursor.current ≤ before.length
  rest : reader.rest = before.drop cursor.current
  nextId : reader.nextId = cursor.nextId
  strayed : cursor.strayed = false

/-! ## Single steps of a cursor -/

namespace Cursor.Shows

variable {tokens : Array Token} {before : List Token} {closing : Token} {cursor : Cursor}
  {reader : Reader}

section Closed

variable (hcloses : ClosesBehind tokens before closing)
include hcloses

/-- Up to the token that closes the program, nothing is out of range. -/
theorem fetch_eq (h : cursor.Shows tokens before reader) {i : Nat} (hi : i ≤ before.length) :
    ∃ token, (before ++ [closing])[i]? = some token ∧ cursor.fetch i = (token, cursor) := by
  have hlt : i < (before ++ [closing]).length := by
    rw [List.length_append, List.length_singleton]
    exact Nat.lt_succ_of_le hi
  have htoken := List.getElem?_eq_getElem hlt
  refine ⟨_, htoken, ?_⟩
  have hfound : cursor.tokens[i]? = some (before ++ [closing])[i] := by
    rw [h.tokens, ← Array.getElem?_toList]
    exact List.prefix_iff_getElem?.1 hcloses.isPrefix i hlt
  unfold fetch
  rw [hfound]

theorem previous_eq (h : cursor.Shows tokens before reader) :
    ∃ token, (before ++ [closing])[cursor.current - 1]? = some token ∧
      cursor.previous = (token, cursor) :=
  h.fetch_eq hcloses (Nat.le_trans (Nat.sub_le _ _) h.le)

theorem peek_eq (h : cursor.Shows tokens before reader) :
    cursor.peek = (reader.rest.head?.getD closing, cursor) := by
  have hsize : before.length < cursor.tokens.size := by
    have hle := hcloses.isPrefix.length_le
    rw [List.length_append, List.length_singleton, Array.length_toList] at hle
    rw [h.tokens]
    exact hle
  have hle := h.le
  have hmin : min cursor.current (cursor.tokens.size - 1) = cursor.current := by omega
  obtain ⟨token, htoken, hfetch⟩ := h.fetch_eq hcloses hle
  unfold peek
  rw [hmin, hfetch, h.rest, List.head?_drop]
  rcases Nat.lt_or_eq_of_le hle with hlt | heq
  · rw [List.getElem?_append_left hlt] at htoken
    rw [htoken]
    rfl
  · rw [heq, List.getElem?_concat_length] at htoken
    rw [heq, List.getElem?_eq_none (Nat.le_refl _), ← Option.some.inj htoken]
    rfl

theorem atEnd_eq (h : cursor.Shows tokens before reader) :
    cursor.atEnd = (reader.rest.isEmpty, cursor) := by
  unfold atEnd
  rw [h.peek_eq hcloses]
  cases hrest : reader.rest with
  | nil => exact congrArg (·, cursor) (decide_eq_true hcloses.kind)
  | cons token rest =>
    have hmem : token ∈ before := List.mem_of_mem_drop (h.rest ▸ hrest ▸ List.mem_cons_self)
    exact congrArg (·, cursor) (decide_eq_false (hcloses.kind_ne token hmem))

/-- At the end a cursor stays where it is. -/
theorem snd_advance_eq (h : cursor.Shows tokens before reader) (hrest : reader.rest = []) :
    cursor.advance.2 = cursor := by
  obtain ⟨token, -, hprevious⟩ := h.previous_eq hcloses
  unfold advance
  rw [h.atEnd_eq hcloses, hrest]
  dsimp only [List.isEmpty_nil]
  rw [if_pos rfl, hprevious]

/-- Before the end it moves past the next token, and that is what it has moved past last. -/
theorem advance {token : Token} {rest : List Token} (h : cursor.Shows tokens before reader)
    (hrest : reader.rest = token :: rest) :
    cursor.advance.1 = token ∧ cursor.advance.2.previous.1 = token ∧
      cursor.advance.2.Shows tokens before { reader with rest } := by
  have hdrop : before.drop cursor.current = token :: rest := h.rest.symm.trans hrest
  have hlt : cursor.current < before.length := by
    apply Classical.byContradiction
    intro hnot
    rw [List.drop_eq_nil_of_le (by omega)] at hdrop
    cases hdrop
  have hleft : rest = before.drop (cursor.current + 1) := by
    rw [← List.drop_drop, hdrop, List.drop_one, List.tail_cons]
  have hmoved : ({ cursor with current := cursor.current + 1 } : Cursor).Shows tokens before
      { reader with rest } :=
    ⟨h.tokens, hlt, hleft, h.nextId, h.strayed⟩
  obtain ⟨found, hfound, hprevious⟩ := hmoved.previous_eq hcloses
  have hfirst : before[cursor.current]? = some token := by
    rw [← List.head?_drop, hdrop, List.head?_cons]
  have heq : found = token := by
    rw [Nat.add_sub_cancel, List.getElem?_append_left hlt, hfirst] at hfound
    exact (Option.some.inj hfound).symm
  have hadvance : cursor.advance = (token, { cursor with current := cursor.current + 1 }) := by
    unfold Cursor.advance
    rw [h.atEnd_eq hcloses, hrest]
    dsimp only [List.isEmpty_cons]
    rw [if_neg Bool.false_ne_true, hprevious, heq]
  rw [hadvance]
  exact ⟨rfl, by rw [hprevious, heq], hmoved⟩

/-- A cursor moves on to where reading goes on behind a token. -/
theorem seek {previous : Token} (h : cursor.Shows tokens before reader)
    (hprevious : cursor.previous.1 = previous) :
    cursor.seek.Shows tokens before
      { reader with rest := Phrase.resumeAfter previous reader.rest } := by
  obtain ⟨rest, nextId⟩ := reader
  induction rest generalizing cursor previous with
  | nil =>
    rw [Cursor.seek_eq, h.atEnd_eq hcloses]
    exact h
  | cons token rest ih =>
    obtain ⟨found, -, hfound⟩ := h.previous_eq hcloses
    obtain rfl : found = previous := by rw [← hprevious, hfound]
    obtain ⟨-, hnext, hmoved⟩ := h.advance hcloses rfl
    have hpeek : cursor.peek = (token, cursor) := h.peek_eq hcloses
    rw [Cursor.seek_of_eq (h.atEnd_eq hcloses) hfound hpeek]
    unfold Phrase.resumeAfter
    by_cases hstop : (decide (found.kind = .semicolon) ||
        Phrase.startsDeclaration token.kind) = true
    · rw [if_pos hstop, if_pos hstop]
      exact h
    · rw [if_neg hstop, if_neg hstop]
      exact ih hnext hmoved

theorem recover (h : cursor.Shows tokens before reader) :
    cursor.recover.Shows tokens before { reader with rest := Phrase.resume reader.rest } := by
  obtain ⟨rest, nextId⟩ := reader
  unfold Cursor.recover
  cases rest with
  | nil =>
    rw [h.snd_advance_eq hcloses rfl]
    exact h.seek hcloses rfl
  | cons token rest =>
    obtain ⟨-, hprevious, hmoved⟩ := h.advance hcloses rfl
    exact hmoved.seek hcloses hprevious

end Closed

end Cursor.Shows

namespace Phrase

/-! ## Reading in step -/

/-- What corresponds when phrases are read with a cursor and with a reader that stand at the same
place. The phrases are the same, and so is what they are read as. -/
def alongside (tokens : Array Token) (before : List Token) :
    Routine.Likeness Cursor Reader ParseError Result where
  procedures := Eq
  results _ _ answer answer' := HEq answer answer'
  states := Cursor.Shows tokens before
  problems := Eq

variable {tokens : Array Token} {before : List Token} {closing : Token} {α β : Type}

/-- A step of a cursor and a step of a reader do the same. -/
abbrev InStep (tokens : Array Token) (before : List Token) (step : StepOn Cursor α)
    (step' : Reading α) : Prop :=
  (alongside tokens before).Similar Eq step step'

theorem inStep_pure {answer : α} : InStep tokens before (pure answer) (pure answer) :=
  Routine.Likeness.similar_pure rfl

theorem inStep_fail {problem : ParseError} :
    InStep tokens before (Routine.fail problem : StepOn Cursor α) (Routine.fail problem) :=
  Routine.Likeness.similar_fail rfl

theorem InStep.bind {first : StepOn Cursor β} {first' : Reading β} {next : β → StepOn Cursor α}
    {next' : β → Reading α} (h : InStep tokens before first first')
    (hnext : ∀ answer, InStep tokens before (next answer) (next' answer)) :
    InStep tokens before (first >>= next) (first' >>= next') :=
  Routine.Likeness.Similar.bind h fun answer _ heq => heq ▸ hnext answer

theorem inStep_call (p : Phrase) :
    InStep tokens before (Routine.call p : StepOn Cursor p.Result) (Routine.call p) := by
  intro cursor reader hshows
  refine CallTree.Similar.mono (Routine.Likeness.similar_call rfl cursor reader hshows) ?_
  rintro _ _ (⟨heq, hreached⟩ | ⟨hproblem, hreached⟩)
  · exact .ok (eq_of_heq heq) hreached
  · exact .error hproblem hreached

theorem inStep_jump (p : Phrase) :
    InStep tokens before (Routine.jump p : StepOn Cursor p.Result) (Routine.jump p) := by
  intro cursor reader hshows
  refine CallTree.Similar.mono (Routine.Likeness.similar_jump rfl cursor reader hshows) ?_
  rintro _ _ (⟨heq, hreached⟩ | ⟨hproblem, hreached⟩)
  · exact .ok (eq_of_heq heq) hreached
  · exact .error hproblem hreached

theorem inStep_freshId : InStep tokens before freshId freshId :=
  Routine.Likeness.similar_step fun cursor reader (h : cursor.Shows tokens before reader) =>
    .ok h.nextId.symm ⟨h.tokens, h.le, h.rest, congrArg (· + 1) h.nextId, h.strayed⟩

section Tokens

variable (hcloses : ClosesBehind tokens before closing)
include hcloses

theorem inStep_atEnd : InStep tokens before atEnd atEnd := by
  intro cursor reader (h : cursor.Shows tokens before reader)
  show CallTree.Similar _ _ _ (.done (Except.ok cursor.atEnd.1, cursor.atEnd.2)) _
  rw [h.atEnd_eq hcloses]
  exact CallTree.Similar.done (Routine.Likeness.Outcomes.ok rfl h)

theorem inStep_peek : InStep tokens before (peek ()) (peek closing) := by
  intro cursor reader (h : cursor.Shows tokens before reader)
  show CallTree.Similar _ _ _ (.done (Except.ok cursor.peek.1, cursor.peek.2)) _
  rw [h.peek_eq hcloses]
  exact CallTree.Similar.done (Routine.Likeness.Outcomes.ok rfl h)

theorem inStep_skip : InStep tokens before skip skip := by
  refine Routine.Likeness.similar_modify rfl fun cursor reader
    (h : cursor.Shows tokens before reader) => ?_
  obtain ⟨rest, nextId⟩ := reader
  cases rest with
  | nil =>
    rw [h.snd_advance_eq hcloses rfl]
    exact h
  | cons token rest => exact (h.advance hcloses rfl).2.2

theorem inStep_recover : InStep tokens before recover recover :=
  Routine.Likeness.similar_modify rfl fun _ _ h => Cursor.Shows.recover hcloses h

/-- No step takes the token that closes the program. -/
theorem inStep_accept {wanted : Token.Kind → Bool} (hwanted : wanted .endOfInput = false) :
    InStep tokens before (accept wanted) (accept wanted) := by
  refine Routine.Likeness.similar_step fun cursor reader
    (h : cursor.Shows tokens before reader) => ?_
  obtain ⟨rest, nextId⟩ := reader
  rw [h.peek_eq hcloses]
  cases rest with
  | nil =>
    dsimp only [List.head?_nil, Option.getD_none]
    rw [hcloses.kind, if_neg (by rw [hwanted]; exact Bool.false_ne_true)]
    exact .ok rfl h
  | cons token rest =>
    obtain ⟨htoken, -, hmoved⟩ := h.advance hcloses rfl
    dsimp only [List.head?_cons, Option.getD_some]
    split
    · exact .ok (congrArg some htoken) hmoved
    · exact .ok rfl h

theorem inStep_reject {problem : ParseProblem} :
    InStep tokens before (reject () problem : StepOn Cursor α) (reject closing problem) :=
  (inStep_peek hcloses).bind fun _ => inStep_fail

theorem inStep_expect (expected : Expectation) :
    InStep tokens before (expect () expected) (expect closing expected) := by
  refine (inStep_accept hcloses (by cases expected <;> rfl)).bind fun taken => ?_
  cases taken with
  | none => exact inStep_reject hcloses
  | some token => exact inStep_pure

theorem inStep_unlessAt {kind : Token.Kind} {absent : α} {present : StepOn Cursor α}
    {present' : Reading α} (h : InStep tokens before present present') :
    InStep tokens before (unlessAt () kind absent present)
      (unlessAt closing kind absent present') := by
  refine (inStep_peek hcloses).bind fun token => ?_
  split
  · exact inStep_pure
  · exact h

end Tokens

/-! ## Phrases -/

theorem inStep_assignment (target : Expr) (operator : Token) (value : Expr) :
    InStep tokens before (assignment target operator value) (assignment target operator value) := by
  cases target with
  | read id name =>
    unfold assignment
    dsimp only
    split
    · exact inStep_freshId.bind fun id => inStep_pure
    · exact inStep_freshId.bind fun readId => inStep_freshId.bind fun id => inStep_pure
  | _ => exact inStep_fail

/-- What may be left out is read alike. -/
theorem inStep_optional : InStep tokens before (some <$> Routine.call anyExpression)
    (some <$> Routine.call anyExpression : Reading (Option Expr)) :=
  Routine.Likeness.similar_map (inStep_call anyExpression) fun _ _ heq => congrArg some heq

section Phrases

variable (hcloses : ClosesBehind tokens before closing)
include hcloses

theorem inStep_primary : InStep tokens before (primary ()) (primary closing) := by
  have htaken : ∀ answer : Expr, InStep tokens before (skip >>= fun _ => pure answer)
      (skip >>= fun _ => pure answer) :=
    fun answer => (inStep_skip hcloses).bind fun _ => inStep_pure
  refine (inStep_peek hcloses).bind fun token => ?_
  split
  · exact htaken _
  · exact htaken _
  · exact htaken _
  · split
    · exact htaken _
    · exact htaken _
    · exact inStep_fail
  · split
    · exact htaken _
    · exact htaken _
    · exact inStep_fail
  · exact inStep_freshId.bind fun id => htaken _
  · refine (inStep_skip hcloses).bind fun _ => (inStep_call _).bind fun inner => ?_
    exact (inStep_expect hcloses _).bind fun _ => inStep_pure
  · refine (inStep_skip hcloses).bind fun _ => (inStep_expect hcloses _).bind fun _ => ?_
    exact (inStep_call _).bind fun code => (inStep_expect hcloses _).bind fun _ => inStep_pure
  · exact inStep_fail
  · exact inStep_fail
  · exact inStep_fail

theorem inStep_form (f : Form) : InStep tokens before (form () f) (form closing f) := by
  cases f with
  | assignment =>
    refine (inStep_call _).bind fun target => ?_
    refine (inStep_accept hcloses rfl).bind fun operator => ?_
    cases operator with
    | none => exact inStep_pure
    | some operator =>
      exact (inStep_call _).bind fun value => inStep_assignment target operator value
  | conditional =>
    refine (inStep_call _).bind fun condition => ?_
    refine (inStep_accept hcloses rfl).bind fun question => ?_
    cases question with
    | none => exact inStep_pure
    | some question =>
      refine (inStep_call _).bind fun whenTrue => (inStep_expect hcloses _).bind fun _ => ?_
      exact (inStep_call _).bind fun whenFalse => inStep_pure
  | operation level => exact (inStep_call _).bind fun left => inStep_jump _
  | operations level left =>
    refine (inStep_accept hcloses (by cases level <;> rfl)).bind fun operator => ?_
    cases operator with
    | none => exact inStep_pure
    | some operator => exact (inStep_call _).bind fun right => inStep_jump _
  | unary =>
    refine (inStep_accept hcloses rfl).bind fun operator => ?_
    cases operator with
    | none => exact inStep_jump _
    | some operator => exact (inStep_call _).bind fun operand => inStep_pure
  | call => exact (inStep_primary hcloses).bind fun callee => inStep_jump _
  | calls callee =>
    refine (inStep_accept hcloses rfl).bind fun paren => ?_
    cases paren with
    | none => exact inStep_pure
    | some paren =>
      refine (inStep_unlessAt hcloses (inStep_call _)).bind fun passed => ?_
      exact (inStep_expect hcloses _).bind fun paren => inStep_jump _

theorem inStep_argumentList (count : Nat) :
    InStep tokens before (argumentList () count) (argumentList closing count) := by
  unfold argumentList
  split
  · exact inStep_reject hcloses
  · refine (inStep_call _).bind fun argument => (inStep_accept hcloses rfl).bind fun comma => ?_
    cases comma with
    | none => exact inStep_pure
    | some comma => exact (inStep_call _).bind fun others => inStep_pure

theorem inStep_parameterList (count : Nat) :
    InStep tokens before (parameterList () count) (parameterList closing count) := by
  unfold parameterList
  split
  · exact inStep_reject hcloses
  · refine (inStep_expect hcloses _).bind fun parameter => ?_
    refine (inStep_accept hcloses rfl).bind fun comma => ?_
    cases comma with
    | none => exact inStep_pure
    | some comma => exact (inStep_call _).bind fun others => inStep_pure

theorem inStep_functionDeclaration :
    InStep tokens before (functionDeclaration ()) (functionDeclaration closing) := by
  refine (inStep_expect hcloses _).bind fun name => (inStep_expect hcloses _).bind fun _ => ?_
  refine (inStep_unlessAt hcloses (inStep_call _)).bind fun declared => ?_
  refine (inStep_expect hcloses _).bind fun _ => (inStep_expect hcloses _).bind fun _ => ?_
  exact (inStep_call _).bind fun body => inStep_pure

theorem inStep_variableDeclaration :
    InStep tokens before (variableDeclaration ()) (variableDeclaration closing) := by
  refine (inStep_expect hcloses _).bind fun name => (inStep_accept hcloses rfl).bind fun equal => ?_
  cases equal with
  | none => exact (inStep_expect hcloses _).bind fun _ => inStep_pure
  | some equal =>
    exact (inStep_call _).bind fun value => (inStep_expect hcloses _).bind fun _ => inStep_pure

theorem inStep_ifStatement : InStep tokens before (ifStatement ()) (ifStatement closing) := by
  refine (inStep_expect hcloses _).bind fun _ => (inStep_call _).bind fun condition => ?_
  refine (inStep_expect hcloses _).bind fun _ => (inStep_call _).bind fun whenTrue => ?_
  refine (inStep_accept hcloses rfl).bind fun keyword => ?_
  cases keyword with
  | none => exact inStep_pure
  | some keyword => exact (inStep_call _).bind fun whenFalse => inStep_pure

theorem inStep_whileStatement :
    InStep tokens before (whileStatement ()) (whileStatement closing) := by
  refine (inStep_expect hcloses _).bind fun _ => (inStep_call _).bind fun condition => ?_
  exact (inStep_expect hcloses _).bind fun _ => (inStep_call _).bind fun body => inStep_pure

theorem inStep_forInitializer :
    InStep tokens before (forInitializer ()) (forInitializer closing) := by
  refine (inStep_accept hcloses rfl).bind fun semicolon => ?_
  cases semicolon with
  | some semicolon => exact inStep_pure
  | none =>
    refine (inStep_accept hcloses rfl).bind fun keyword => ?_
    cases keyword with
    | some keyword => exact (inStep_variableDeclaration hcloses).bind fun declared => inStep_pure
    | none =>
      exact (inStep_call _).bind fun value => (inStep_expect hcloses _).bind fun _ => inStep_pure

theorem inStep_forStatement : InStep tokens before (forStatement ()) (forStatement closing) := by
  refine (inStep_expect hcloses _).bind fun _ => ?_
  refine (inStep_forInitializer hcloses).bind fun initializer => ?_
  refine (inStep_unlessAt hcloses (inStep_call _)).bind fun condition => ?_
  refine (inStep_expect hcloses _).bind fun _ => ?_
  refine (inStep_unlessAt hcloses inStep_optional).bind fun increment => ?_
  exact (inStep_expect hcloses _).bind fun _ => (inStep_call _).bind fun body => inStep_pure

theorem inStep_anyStatement : InStep tokens before (anyStatement ()) (anyStatement closing) := by
  refine (inStep_peek hcloses).bind fun token => ?_
  split
  · refine (inStep_skip hcloses).bind fun _ => (inStep_call _).bind fun value => ?_
    exact (inStep_expect hcloses _).bind fun _ => inStep_pure
  · exact (inStep_skip hcloses).bind fun _ => inStep_ifStatement hcloses
  · exact (inStep_skip hcloses).bind fun _ => inStep_whileStatement hcloses
  · exact (inStep_skip hcloses).bind fun _ => inStep_forStatement hcloses
  · refine (inStep_skip hcloses).bind fun _ => ?_
    refine (inStep_unlessAt hcloses inStep_optional).bind fun value => ?_
    exact (inStep_expect hcloses _).bind fun _ => inStep_pure
  · exact (inStep_skip hcloses).bind fun _ => (inStep_call _).bind fun body => inStep_pure
  · exact (inStep_call _).bind fun value => (inStep_expect hcloses _).bind fun _ => inStep_pure

theorem inStep_anyDeclaration :
    InStep tokens before (anyDeclaration ()) (anyDeclaration closing) := by
  refine (inStep_peek hcloses).bind fun token => ?_
  split
  · exact (inStep_skip hcloses).bind fun _ => inStep_functionDeclaration hcloses
  · exact (inStep_skip hcloses).bind fun _ => inStep_variableDeclaration hcloses
  · exact inStep_fail
  · exact inStep_jump _

theorem inStep_blockBody : InStep tokens before (blockBody ()) (blockBody closing) := by
  refine (inStep_peek hcloses).bind fun next => ?_
  split
  · exact (inStep_expect hcloses _).bind fun _ => inStep_pure
  · exact (inStep_call _).bind fun first => (inStep_call _).bind fun others => inStep_pure

theorem inStep_programBody : InStep tokens before programBody programBody := by
  refine (inStep_atEnd hcloses).bind fun ended => ?_
  split
  · exact inStep_pure
  · refine Routine.Likeness.Similar.bind (Routine.Likeness.similar_attempt (inStep_call _))
      fun first first' hfirst => ?_
    have hothers : ∀ first : Except ParseError Stmt, InStep tokens before
        (Routine.call program >>= fun others => pure (first :: others))
        (Routine.call program >>= fun others => pure (first :: others)) :=
      fun first => (inStep_call _).bind fun others => inStep_pure
    cases hfirst with
    | ok heq =>
      cases heq
      exact hothers _
    | error heq =>
      cases heq
      exact (inStep_recover hcloses).bind fun _ => hothers _

/-- Every phrase is read alike with a cursor and with a reader. -/
theorem inStep_read (phrase : Phrase) :
    InStep tokens before (read () phrase) (read closing phrase) := by
  cases phrase with
  | expression f => exact inStep_form hcloses f
  | arguments count => exact inStep_argumentList hcloses count
  | parameters count => exact inStep_parameterList hcloses count
  | declaration => exact inStep_anyDeclaration hcloses
  | statement => exact inStep_anyStatement hcloses
  | block => exact inStep_blockBody hcloses
  | program => exact inStep_programBody hcloses

theorem similar_read_cursor (p p' : Phrase) (h : (alongside tokens before).procedures p p') :
    (alongside tokens before).Similar ((alongside tokens before).results p p') (read () p)
      (read closing p') := by
  cases h
  intro cursor reader hshows
  refine CallTree.Similar.mono (inStep_read hcloses p cursor reader hshows) ?_
  rintro _ _ (⟨heq, hreached⟩ | ⟨hproblem, hreached⟩)
  · exact .ok (heq_of_eq heq) hreached
  · exact .error hproblem hreached

/-- Within any number of rounds, a phrase is read as the same, or as nothing in either way. -/
theorem rel_run_cursor {cursor : Cursor} {reader : Reader}
    (hshows : cursor.Shows tokens before reader) (phrase : Phrase) (rounds : Nat) :
    Option.Rel ((alongside tokens before).Outcomes Eq) (Routine.run (read ()) rounds phrase cursor)
      (Routine.run (read closing) rounds phrase reader) :=
  CallTree.Similar.rel_run
    (fun call call' hcalls => similar_read_cursor hcloses call.1 call'.1 hcalls.1 _ _ hcalls.2)
    (inStep_read hcloses phrase cursor reader hshows) rounds

end Phrases

end Phrase

end Lox
