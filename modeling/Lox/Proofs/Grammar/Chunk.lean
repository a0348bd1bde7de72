/-
# Reading within one simple statement

A chunk is what a simple statement is written as, or could be: it ends in its only semicolon and has
no braces and no keywords of declarations, save perhaps one at its start. However malformed it is,
reading it never passes its semicolon except to be done with it, so it never finds out what comes
behind. `Phrase.Together` is the logic in which two readings of one chunk are followed that have
other tokens behind it: they do the same, and come to the same result.
-/

import Lox.Proofs.CallTree.Similar
import Lox.Proofs.Grammar.Position

namespace Lox.Phrase

/-- The tokens of a simple statement that may be malformed. There is a semicolon at their end and
nowhere else, there is no brace and no token that closes a program, and there is no keyword that
declarations start with, but that the first token may be `var`, `print` or `return`. -/
structure Chunk (tokens : List Token) : Prop where
  ends : tokens.getLast?.map (·.kind) = some .semicolon
  body : ∀ token ∈ tokens.dropLast,
    token.kind ∉ [.semicolon, .leftBrace, .rightBrace, .endOfInput]
  plain : ∀ token ∈ tokens.tail, startsDeclaration token.kind = false
  begins : ∀ token ∈ tokens.head?, startsDeclaration token.kind = true →
    token.kind ∈ [.var, .print, .return]

instance (tokens : List Token) : Decidable (Chunk tokens) :=
  decidable_of_iff
    (tokens.getLast?.map (·.kind) = some .semicolon ∧
      (∀ token ∈ tokens.dropLast,
        token.kind ∉ [.semicolon, .leftBrace, .rightBrace, .endOfInput]) ∧
      (∀ token ∈ tokens.tail, startsDeclaration token.kind = false) ∧
      ∀ token ∈ tokens.head?, startsDeclaration token.kind = true →
        token.kind ∈ [.var, .print, .return])
    ⟨fun h => ⟨h.1, h.2.1, h.2.2.1, h.2.2.2⟩, fun h => ⟨h.ends, h.body, h.plain, h.begins⟩⟩

theorem Chunk.exists_eq_append {tokens : List Token} (h : Chunk tokens) :
    ∃ body last, tokens = body ++ [last] ∧ last.kind = .semicolon ∧
      ∀ token ∈ body, token.kind ∉ [.semicolon, .leftBrace, .rightBrace, .endOfInput] := by
  obtain ⟨last, hlast, hkind⟩ := Option.map_eq_some_iff.1 h.ends
  obtain ⟨body, rfl⟩ := List.getLast?_eq_some_iff.1 hlast
  refine ⟨body, last, rfl, hkind, ?_⟩
  have hbody := h.body
  rwa [List.dropLast_concat] at hbody

/-- The kinds of token that stand in a chunk before its semicolon and behind its first token. -/
def ordinary (kind : Token.Kind) : Bool :=
  kind ∉ [.semicolon, .leftBrace, .rightBrace, .endOfInput] && !startsDeclaration kind

/-- What is left of a chunk, when the keyword that it may start with has been read. -/
inductive Plain : List Token → Prop
  | last {token : Token} (hkind : token.kind = .semicolon) : Plain [token]
  | cons {token : Token} {rest : List Token} (hkind : ordinary token.kind = true)
      (hrest : Plain rest) : Plain (token :: rest)

theorem plain_append {body : List Token} {last : Token}
    (hbody : ∀ token ∈ body, ordinary token.kind = true) (hlast : last.kind = .semicolon) :
    Plain (body ++ [last]) := by
  induction body with
  | nil => exact .last hlast
  | cons token body ih =>
    obtain ⟨htoken, hbody⟩ := List.forall_mem_cons.1 hbody
    exact .cons htoken (ih hbody)

/-- A chunk is plain but for the keyword that it may start with. -/
theorem Chunk.cases {tokens : List Token} (h : Chunk tokens) :
    Plain tokens ∨ ∃ token rest, tokens = token :: rest ∧ token.kind ∈ [.var, .print, .return] ∧
      Plain rest := by
  obtain ⟨body, last, rfl, hlast, hbody⟩ := h.exists_eq_append
  have hplain := h.plain
  have hordinary : ∀ token ∈ body, startsDeclaration token.kind = false →
      ordinary token.kind = true := by
    intro token htoken hstarts
    unfold ordinary
    rw [decide_eq_true (hbody token htoken), hstarts]
    rfl
  cases body with
  | nil => exact .inl (.last hlast)
  | cons token body =>
    have hrest : ∀ token ∈ body, ordinary token.kind = true := fun other hother =>
      hordinary other (List.mem_cons_of_mem _ hother) (hplain other (List.mem_append_left _ hother))
    cases hstarts : startsDeclaration token.kind with
    | true =>
      have hkeyword := h.begins token rfl hstarts
      exact .inr ⟨token, body ++ [last], rfl, hkeyword, plain_append hrest hlast⟩
    | false =>
      have hfirst := hordinary token List.mem_cons_self hstarts
      exact .inl (.cons hfirst (plain_append hrest hlast))

/-! ## Where two readings stand -/

section Together

variable (after after' : List Token)

/-- Two readers stand at the same token of one chunk, where other tokens may come behind it. -/
inductive Inside : Reader → Reader → Prop
  | intro {tokens : List Token} {nextId : AccessId} (h : Plain tokens) :
      Inside ⟨tokens ++ after, nextId⟩ ⟨tokens ++ after', nextId⟩

/-- Two readers stand at the start of one chunk, which may be one of some keywords. -/
inductive Ahead (keywords : List Token.Kind) : Reader → Reader → Prop
  | plain {reader reader' : Reader} (h : Inside after after' reader reader') :
      Ahead keywords reader reader'
  | keyword {token : Token} {tokens : List Token} {nextId : AccessId}
      (hkind : token.kind ∈ keywords) (h : Plain tokens) :
      Ahead keywords ⟨token :: tokens ++ after, nextId⟩ ⟨token :: tokens ++ after', nextId⟩

/-- Two readers stand behind one chunk. -/
inductive Behind : Reader → Reader → Prop
  | intro {nextId : AccessId} : Behind ⟨after, nextId⟩ ⟨after', nextId⟩

/-- Two readings come to the same: they both succeed, and the readers stand where they are expected
to, or they both fail within the chunk. -/
inductive Agree {α : Type} (ends : Reader → Reader → Prop) :
    Outcome Reader ParseError α → Outcome Reader ParseError α → Prop
  | ok {answer : α} {reader reader' : Reader} (h : ends reader reader') :
      Agree ends (.ok answer, reader) (.ok answer, reader')
  | error {error : ParseError} {reader reader' : Reader}
      (h : Inside after after' reader reader') :
      Agree ends (.error error, reader) (.error error, reader')

/-- The phrases that come to be read of a chunk, and where they are read. -/
inductive Calls : Phrase × Reader → Phrase × Reader → Prop
  | expression {form : Form} {reader reader' : Reader} (h : Inside after after' reader reader') :
      Calls (expression form, reader) (expression form, reader')
  | arguments {count : Nat} {reader reader' : Reader} (h : Inside after after' reader reader') :
      Calls (arguments count, reader) (arguments count, reader')
  | statement {reader reader' : Reader}
      (h : Ahead after after' [.print, .return] reader reader') :
      Calls (statement, reader) (statement, reader')

/-- What reading these phrases comes to: only a statement is over behind the chunk. -/
inductive Answers : (call call' : Phrase × Reader) →
    Outcome Reader ParseError call.1.Result → Outcome Reader ParseError call'.1.Result → Prop
  | expression {form : Form} {reader reader' : Reader}
      {outcome outcome' : Outcome Reader ParseError Expr}
      (h : Agree after after' (Inside after after') outcome outcome') :
      Answers (expression form, reader) (expression form, reader') outcome outcome'
  | arguments {count : Nat} {reader reader' : Reader}
      {outcome outcome' : Outcome Reader ParseError (List Expr)}
      (h : Agree after after' (Inside after after') outcome outcome') :
      Answers (arguments count, reader) (arguments count, reader') outcome outcome'
  | statement {reader reader' : Reader} {outcome outcome' : Outcome Reader ParseError Stmt}
      (h : Agree after after' (Behind after after') outcome outcome') :
      Answers (statement, reader) (statement, reader') outcome outcome'

/-- Two steps go on together, and the readers stand where they are expected to if they succeed, as
long as the phrases that they read come to the same. -/
def Together {α : Type} (ends : Reader → Reader → Prop) (step step' : Reading α)
    (reader reader' : Reader) : Prop :=
  CallTree.Similar (Calls after after') (Answers after after') (Agree after after' ends)
    (step reader) (step' reader')

end Together

variable {α β : Type} {after after' : List Token} {closing closing' : Token}
  {ends middle : Reader → Reader → Prop} {reader reader' : Reader}

/-! ## Single steps -/

theorem together_pure {answer : α} (h : ends reader reader') :
    Together after after' ends (pure answer) (pure answer) reader reader' :=
  .done (.ok h)

theorem together_fail {error : ParseError} (h : Inside after after' reader reader') :
    Together after after' ends (Routine.fail error : Reading α) (Routine.fail error) reader
      reader' :=
  .done (.error h)

theorem Together.bind {first first' : Reading β} {next next' : β → Reading α}
    (h : Together after after' middle first first' reader reader')
    (hnext : ∀ answer reached reached', middle reached reached' →
      Together after after' ends (next answer) (next' answer) reached reached') :
    Together after after' ends (first >>= next) (first' >>= next') reader reader' := by
  refine CallTree.Similar.bind h fun outcome outcome' hagree => ?_
  cases hagree with
  | ok hmiddle => exact hnext _ _ _ hmiddle
  | error hinside => exact .done (.error hinside)

theorem together_expression {form : Form} (h : Inside after after' reader reader') :
    Together after after' (Inside after after') (Routine.call (expression form))
      (Routine.call (expression form)) reader reader' := by
  refine .call (.expression h) fun outcome outcome' hanswers => .done ?_
  cases hanswers with
  | expression hagree => exact hagree

theorem together_jump_expression {form : Form} (h : Inside after after' reader reader') :
    Together after after' (Inside after after') (Routine.jump (expression form))
      (Routine.jump (expression form)) reader reader' := by
  refine .jump (.expression h) fun outcome outcome' hanswers => ?_
  cases hanswers with
  | expression hagree => exact hagree

theorem together_arguments {count : Nat} (h : Inside after after' reader reader') :
    Together after after' (Inside after after') (Routine.call (arguments count))
      (Routine.call (arguments count)) reader reader' := by
  refine .call (.arguments h) fun outcome outcome' hanswers => .done ?_
  cases hanswers with
  | arguments hagree => exact hagree

theorem together_jump_statement (h : Ahead after after' [.print, .return] reader reader') :
    Together after after' (Behind after after') (Routine.jump statement) (Routine.jump statement)
      reader reader' := by
  refine .jump (.statement h) fun outcome outcome' hanswers => ?_
  cases hanswers with
  | statement hagree => exact hagree

/-- Within a chunk both readers stand at the same token, and only behind a semicolon are they out of
it. -/
theorem Inside.head (h : Inside after after' reader reader') :
    ∃ token rest rest' nextId, reader = ⟨token :: rest, nextId⟩ ∧
      reader' = ⟨token :: rest', nextId⟩ ∧
      (token.kind = .semicolon ∧ rest = after ∧ rest' = after' ∨
        ordinary token.kind = true ∧ Inside after after' ⟨rest, nextId⟩ ⟨rest', nextId⟩) := by
  obtain ⟨hplain⟩ := h
  rename_i nextId
  cases hplain with
  | last hkind => exact ⟨_, after, after', nextId, rfl, rfl, .inl ⟨hkind, rfl, rfl⟩⟩
  | cons hkind hrest => exact ⟨_, _, _, nextId, rfl, rfl, .inr ⟨hkind, .intro hrest⟩⟩

theorem Inside.nextId_eq (h : Inside after after' reader reader') :
    reader.nextId = reader'.nextId := by
  obtain ⟨_⟩ := h
  rfl

theorem Inside.renumbered (h : Inside after after' reader reader') (nextId : AccessId) :
    Inside after after' { reader with nextId } { reader' with nextId } := by
  obtain ⟨hplain⟩ := h
  exact .intro hplain

theorem together_peek_bind {next next' : Token → Reading α}
    (h : Inside after after' reader reader')
    (hnext : ∀ token, (token.kind ≠ .semicolon → Inside after after'
        { reader with rest := reader.rest.tail } { reader' with rest := reader'.rest.tail }) →
      token.kind = .semicolon ∨ ordinary token.kind = true →
        Together after after' ends (next token) (next' token) reader reader') :
    Together after after' ends (peek closing >>= next) (peek closing' >>= next') reader
      reader' := by
  obtain ⟨token, rest, rest', nextId, rfl, rfl, ⟨hkind, -⟩ | ⟨hkind, hinside⟩⟩ := h.head
  · exact hnext token (fun hne => absurd hkind hne) (.inl hkind)
  · exact hnext token (fun _ => hinside) (.inr hkind)

/-- A keyword may come first. -/
theorem together_peek_ahead_bind {keywords : List Token.Kind} {next next' : Token → Reading α}
    (h : Ahead after after' keywords reader reader')
    (hplain : ∀ token, Inside after after' reader reader' →
      token.kind = .semicolon ∨ ordinary token.kind = true →
        Together after after' ends (next token) (next' token) reader reader')
    (hkeyword : ∀ token, token.kind ∈ keywords → Inside after after'
        { reader with rest := reader.rest.tail } { reader' with rest := reader'.rest.tail } →
      (∀ keywords', token.kind ∈ keywords' → Ahead after after' keywords' reader reader') →
        Together after after' ends (next token) (next' token) reader reader') :
    Together after after' ends (peek closing >>= next) (peek closing' >>= next') reader
      reader' := by
  cases h with
  | plain h => exact together_peek_bind h fun token _ hkind => hplain token h hkind
  | keyword hkind h =>
    exact hkeyword _ hkind (.intro h) fun _ hmem => .keyword hmem h

theorem together_skip_bind {next next' : Unit → Reading α}
    (h : Inside after after' { reader with rest := reader.rest.tail }
      { reader' with rest := reader'.rest.tail })
    (hnext : ∀ reached reached', Inside after after' reached reached' →
      Together after after' ends (next ()) (next' ()) reached reached') :
    Together after after' ends (skip >>= next) (skip >>= next') reader reader' :=
  hnext _ _ h

theorem together_freshId_bind {next next' : AccessId → Reading α}
    (hnextId : reader.nextId = reader'.nextId)
    (hnext : Together after after' ends (next reader.nextId) (next' reader.nextId)
      { reader with nextId := reader.nextId + 1 } { reader' with nextId := reader.nextId + 1 }) :
    Together after after' ends (freshId >>= next) (freshId >>= next') reader reader' := by
  obtain ⟨rest, nextId⟩ := reader
  obtain ⟨rest', nextId'⟩ := reader'
  cases hnextId
  exact hnext

section Front

variable {token : Token} {rest : List Token} {nextId : AccessId}

theorem bind_of_ok {first : Reading β} {next : β → Reading α} {answer : β} {reached : Reader}
    (h : first reader = .done (.ok answer, reached)) :
    (first >>= next) reader = next answer reached := by
  show CallTree.bind (first reader) _ = _
  rw [h]
  rfl

theorem bind_of_error {first : Reading β} {next : β → Reading α} {error : ParseError}
    {reached : Reader} (h : first reader = .done (.error error, reached)) :
    (first >>= next) reader = .done (.error error, reached) := by
  show CallTree.bind (first reader) _ = _
  rw [h]
  rfl

theorem accept_of_wanted {wanted : Token.Kind → Bool} (h : wanted token.kind = true) :
    accept wanted (Reader.mk (token :: rest) nextId) =
      .done (.ok (some token), ⟨rest, nextId⟩) := by
  show CallTree.done (if wanted token.kind = true then _ else _) = _
  rw [if_pos h]

theorem accept_of_unwanted {wanted : Token.Kind → Bool} (h : ¬ wanted token.kind = true) :
    accept wanted (Reader.mk (token :: rest) nextId) =
      .done (.ok none, ⟨token :: rest, nextId⟩) := by
  show CallTree.done (if wanted token.kind = true then _ else _) = _
  rw [if_neg h]

theorem expect_of_eq {expected : Expectation} (h : token.kind = expected.kind) :
    expect closing expected ⟨token :: rest, nextId⟩ = .done (.ok token, ⟨rest, nextId⟩) :=
  bind_of_ok (accept_of_wanted (decide_eq_true h))

theorem expect_of_ne {expected : Expectation} (h : token.kind ≠ expected.kind) :
    expect closing expected ⟨token :: rest, nextId⟩ =
      .done (.error ⟨token, .missing expected⟩, ⟨token :: rest, nextId⟩) :=
  bind_of_ok (accept_of_unwanted (mt of_decide_eq_true h))

end Front

theorem together_accept_bind {wanted : Token.Kind → Bool} {next next' : Option Token → Reading α}
    (hwanted : wanted .semicolon = false) (h : Inside after after' reader reader')
    (htake : ∀ token reached reached', Inside after after' reached reached' →
      Together after after' ends (next (some token)) (next' (some token)) reached reached')
    (hleave : Together after after' ends (next none) (next' none) reader reader') :
    Together after after' ends (accept wanted >>= next) (accept wanted >>= next') reader
      reader' := by
  obtain ⟨token, rest, rest', nextId, rfl, rfl, hkind⟩ := h.head
  unfold Together
  by_cases htaken : wanted token.kind = true
  · rw [bind_of_ok (accept_of_wanted htaken), bind_of_ok (accept_of_wanted htaken)]
    rcases hkind with ⟨hkind, -⟩ | ⟨-, hinside⟩
    · rw [hkind, hwanted] at htaken
      cases htaken
    · exact htake token _ _ hinside
  · rw [bind_of_ok (accept_of_unwanted htaken), bind_of_ok (accept_of_unwanted htaken)]
    exact hleave

theorem together_reject {problem : ParseProblem} (h : Inside after after' reader reader') :
    Together after after' ends (reject closing problem : Reading α) (reject closing' problem) reader
      reader' :=
  together_peek_bind h fun _ _ _ => together_fail h

theorem together_expect {expected : Expectation} (hkind : expected.kind ≠ .semicolon)
    (h : Inside after after' reader reader') :
    Together after after' (Inside after after') (expect closing expected)
      (expect closing' expected) reader reader' :=
  together_accept_bind (decide_eq_false fun heq => hkind heq.symm) h
    (fun _ _ _ hinside => together_pure hinside) (together_reject h)

/-- The semicolon that is due at the end of a chunk is there, or both readings fail in front of
another token. -/
theorem together_close {expected : Expectation} (hkind : expected.kind = .semicolon) {answer : α}
    (h : Inside after after' reader reader') :
    Together after after' (Behind after after')
      (expect closing expected >>= fun _ => pure answer)
      (expect closing' expected >>= fun _ => pure answer) reader reader' := by
  obtain ⟨token, rest, rest', nextId, rfl, rfl, htoken⟩ := h.head
  unfold Together
  rcases htoken with ⟨htoken, rfl, rfl⟩ | ⟨htoken, -⟩
  · have hdue : token.kind = expected.kind := htoken.trans hkind.symm
    rw [bind_of_ok (expect_of_eq hdue), bind_of_ok (expect_of_eq hdue)]
    exact .done (.ok .intro)
  · have hdue : token.kind ≠ expected.kind := by
      intro heq
      rw [heq, hkind] at htoken
      cases htoken
    rw [bind_of_error (expect_of_ne hdue), bind_of_error (expect_of_ne hdue)]
    exact .done (.error h)

theorem together_unlessAt_bind {kind : Token.Kind} {absent : β} {present present' : Reading β}
    {next next' : β → Reading α} (h : Inside after after' reader reader')
    (habsent : Together after after' ends (next absent) (next' absent) reader reader')
    (hpresent : Together after after' ends (present >>= next) (present' >>= next') reader reader') :
    Together after after' ends (unlessAt closing kind absent present >>= next)
      (unlessAt closing' kind absent present' >>= next') reader reader' := by
  unfold unlessAt
  rw [Routine.bind_assoc, Routine.bind_assoc]
  refine together_peek_bind h fun token _ _ => ?_
  split
  · exact habsent
  · exact hpresent

/-! ## Phrases -/

theorem together_assignment {target value : Expr} {operator : Token}
    (h : Inside after after' reader reader') :
    Together after after' (Inside after after') (assignment target operator value)
      (assignment target operator value) reader reader' := by
  unfold assignment
  split
  · split
    · exact together_freshId_bind h.nextId_eq (together_pure (h.renumbered _))
    · exact together_freshId_bind h.nextId_eq
        (together_freshId_bind rfl (together_pure (h.renumbered _)))
  · exact together_fail h

theorem together_primary (h : Inside after after' reader reader') :
    Together after after' (Inside after after') (primary closing) (primary closing') reader
      reader' := by
  unfold primary
  refine together_peek_bind h fun token htail _ => ?_
  have htaken : token.kind ≠ .semicolon → ∀ answer : Expr, Together after after'
      (Inside after after') (skip >>= fun _ => pure answer) (skip >>= fun _ => pure answer) reader
      reader' :=
    fun hne answer => together_skip_bind (htail hne) fun _ _ h₁ => together_pure h₁
  split <;> rename_i hkind
  all_goals try exact together_fail h
  all_goals
    have hne : token.kind ≠ .semicolon := by rw [hkind]; decide
    try exact htaken hne _
  · split
    · exact htaken hne _
    · exact htaken hne _
    · exact together_fail h
  · split
    · exact htaken hne _
    · exact htaken hne _
    · exact together_fail h
  · refine together_freshId_bind h.nextId_eq ?_
    exact together_skip_bind ((htail hne).renumbered _) fun _ _ h₁ => together_pure h₁
  · refine together_skip_bind (htail hne) fun _ _ h₁ => ?_
    refine (together_expression h₁).bind fun inner _ _ h₂ => ?_
    exact (together_expect (by decide) h₂).bind fun _ _ _ h₃ => together_pure h₃
  · refine together_skip_bind (htail hne) fun _ _ h₁ => ?_
    refine (together_expect (by decide) h₁).bind fun _ _ _ h₂ => ?_
    refine (together_expression h₂).bind fun code _ _ h₃ => ?_
    exact (together_expect (by decide) h₃).bind fun _ _ _ h₄ => together_pure h₄

theorem together_form (f : Form) (h : Inside after after' reader reader') :
    Together after after' (Inside after after') (form closing f) (form closing' f) reader
      reader' := by
  cases f with
  | assignment =>
    refine (together_expression h).bind fun target _ _ h₁ => ?_
    refine together_accept_bind rfl h₁ (fun operator _ _ h₂ => ?_) (together_pure h₁)
    exact (together_expression h₂).bind fun value _ _ h₃ => together_assignment h₃
  | conditional =>
    refine (together_expression h).bind fun condition _ _ h₁ => ?_
    refine together_accept_bind rfl h₁ (fun question _ _ h₂ => ?_) (together_pure h₁)
    refine (together_expression h₂).bind fun whenTrue _ _ h₃ => ?_
    refine (together_expect (by decide) h₃).bind fun colon _ _ h₄ => ?_
    exact (together_expression h₄).bind fun whenFalse _ _ h₅ => together_pure h₅
  | operation level =>
    exact (together_expression h).bind fun left _ _ h₁ => together_jump_expression h₁
  | operations level left =>
    have hlevel : level.has .semicolon = false := by cases level <;> rfl
    refine together_accept_bind hlevel h (fun operator _ _ h₁ => ?_) (together_pure h)
    exact (together_expression h₁).bind fun right _ _ h₂ => together_jump_expression h₂
  | unary =>
    refine together_accept_bind rfl h (fun operator _ _ h₁ => ?_) (together_jump_expression h)
    exact (together_expression h₁).bind fun operand _ _ h₂ => together_pure h₂
  | call => exact (together_primary h).bind fun callee _ _ h₁ => together_jump_expression h₁
  | calls callee =>
    have hrest : ∀ passed reached reached', Inside after after' reached reached' →
        Together after after' (Inside after after')
          (do
            let paren ← expect closing .parenAfterArguments
            Routine.jump (expression (.calls (.call callee paren passed))))
          (do
            let paren ← expect closing' .parenAfterArguments
            Routine.jump (expression (.calls (.call callee paren passed)))) reached reached' :=
      fun passed _ _ hinside =>
        (together_expect (by decide) hinside).bind fun paren _ _ h₁ => together_jump_expression h₁
    refine together_accept_bind rfl h (fun paren _ _ h₁ => ?_) (together_pure h)
    refine together_unlessAt_bind h₁ (hrest _ _ _ h₁) ?_
    exact (together_arguments h₁).bind hrest

theorem together_argumentList (count : Nat) (h : Inside after after' reader reader') :
    Together after after' (Inside after after') (argumentList closing count)
      (argumentList closing' count) reader reader' := by
  unfold argumentList
  split
  · exact together_reject h
  · refine (together_expression h).bind fun argument _ _ h₁ => ?_
    refine together_accept_bind rfl h₁ (fun comma _ _ h₂ => ?_) (together_pure h₁)
    exact (together_arguments h₂).bind fun others _ _ h₃ => together_pure h₃

theorem together_variableDeclaration (h : Inside after after' reader reader') :
    Together after after' (Behind after after') (variableDeclaration closing)
      (variableDeclaration closing') reader reader' := by
  refine (together_expect (by decide) h).bind fun name _ _ h₁ => ?_
  refine together_accept_bind rfl h₁ (fun equal _ _ h₂ => ?_) (together_close rfl h₁)
  refine (together_expression h₂).bind fun value _ _ h₃ => ?_
  exact together_close rfl h₃

theorem together_anyStatement (h : Ahead after after' [.print, .return] reader reader') :
    Together after after' (Behind after after') (anyStatement closing) (anyStatement closing')
      reader reader' := by
  refine together_peek_ahead_bind h (fun token hinside hkind => ?_)
    fun token hkeyword htail _ => ?_
  · split <;> rename_i hstarts
    all_goals try
      rw [hstarts] at hkind
      exact absurd hkind (by decide)
    exact (together_expression hinside).bind fun value _ _ h₁ => together_close rfl h₁
  · have hcases : token.kind = .print ∨ token.kind = .return := by simpa using hkeyword
    rcases hcases with hkind | hkind
    · rw [hkind]
      refine together_skip_bind htail fun _ _ h₁ => ?_
      exact (together_expression h₁).bind fun value _ _ h₂ => together_close rfl h₂
    · rw [hkind]
      refine together_skip_bind htail fun _ _ h₁ => ?_
      refine together_unlessAt_bind h₁ (together_close rfl h₁) ?_
      simp only [Routine.map_eq_bind, Routine.bind_assoc, Routine.pure_bind]
      refine (together_expression h₁).bind fun value _ _ h₂ => ?_
      exact together_close rfl h₂

theorem together_anyDeclaration (h : Ahead after after' [.var, .print, .return] reader reader') :
    Together after after' (Behind after after') (anyDeclaration closing) (anyDeclaration closing')
      reader reader' := by
  refine together_peek_ahead_bind h (fun token hinside hkind => ?_)
    fun token hkeyword htail hfirst => ?_
  · split <;> rename_i hstarts
    all_goals try
      rw [hstarts] at hkind
      exact absurd hkind (by decide)
    exact together_jump_statement (.plain hinside)
  · have hcases : token.kind = .var ∨ token.kind = .print ∨ token.kind = .return := by
      simpa using hkeyword
    rcases hcases with hkind | hkind | hkind
    · rw [hkind]
      exact together_skip_bind htail fun _ _ h₁ => together_variableDeclaration h₁
    · rw [hkind]
      exact together_jump_statement (hfirst _ (by rw [hkind]; decide))
    · rw [hkind]
      exact together_jump_statement (hfirst _ (by rw [hkind]; decide))

/-- Whatever phrase is read of a chunk, both readings come to the same. -/
theorem together_read {call call' : Phrase × Reader} (h : Calls after after' call call') :
    CallTree.Similar (Calls after after') (Answers after after') (Answers after after' call call')
      (read closing call.1 call.2) (read closing' call'.1 call'.2) := by
  cases h with
  | expression h =>
    exact CallTree.Similar.mono (together_form _ h) fun _ _ hagree => .expression hagree
  | arguments h =>
    exact CallTree.Similar.mono (together_argumentList _ h) fun _ _ hagree => .arguments hagree
  | statement h =>
    exact CallTree.Similar.mono (together_anyStatement h) fun _ _ hagree => .statement hagree

/-- Reading a declaration at the start of a chunk comes to the same whatever stands behind it. -/
theorem agree_of_ends (h : Ahead after after' [.var, .print, .return] reader reader')
    (closing' : Token) {outcome : Outcome Reader ParseError Stmt}
    (hends : Routine.Ends (read closing) (read closing .declaration) reader outcome) :
    ∃ outcome', Routine.Ends (read closing') (read closing' .declaration) reader' outcome' ∧
      Agree after after' (Behind after after') outcome outcome' :=
  CallTree.Similar.ends (fun _ _ hcalls => together_read hcalls) (together_anyDeclaration h) hends

end Lox.Phrase
