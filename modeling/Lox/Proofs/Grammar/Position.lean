/-
# Where reading stands

A reader of some tokens stands at a position: so many of them have been read (`Reader.StandsAt`).
`Phrase.Onward` is the logic in which the steps of reading are followed from position to position.
Reading never goes back and never passes the token that closes the program. When it succeeds it has
covered as many tokens as its phrase has at least, and when it fails it names a token that it has
come past or stands at.
-/

import Lox.Parse.Budget
import Lox.Proofs.CallTree.Order

namespace Lox

/-- A reader of a program, of which some tokens stand before the one that closes it, stands at a
position: so many of them have been read. -/
structure Reader.StandsAt (before : List Token) (i : Nat) (reader : Reader) : Prop where
  le : i ≤ before.length
  rest : reader.rest = before.drop i

namespace Reader.StandsAt

variable {before : List Token} {closing : Token} {i : Nat} {reader : Reader}
  (h : reader.StandsAt before i)
include h

/-- The next token is the one at the position, and that is never out of range. -/
theorem getElem?_eq (closing : Token) :
    (before ++ [closing])[i]? = some (reader.rest.head?.getD closing) := by
  rw [h.rest, List.head?_drop]
  rcases Nat.lt_or_eq_of_le h.le with hlt | rfl
  · rw [List.getElem?_append_left hlt, List.getElem?_eq_getElem hlt]
    rfl
  · rw [List.getElem?_concat_length, List.getElem?_eq_none (Nat.le_refl _)]
    rfl

/-- Tokens are left as long as the closing one is not reached. -/
theorem rest_ne_nil_iff : reader.rest ≠ [] ↔ i < before.length := by
  rw [h.rest, Ne, List.drop_eq_nil_iff, Nat.not_le]

/-- To read on past a token is to stand at the next position. -/
theorem tail (hlt : i < before.length) :
    ({ reader with rest := reader.rest.tail } : Reader).StandsAt before (i + 1) where
  le := hlt
  rest := by
    show reader.rest.tail = _
    rw [h.rest, List.tail_drop]

/-- A reader stands at one position only. -/
theorem unique {j : Nat} (h' : reader.StandsAt before j) : i = j := by
  have hlength := congrArg List.length (h.rest.symm.trans h'.rest)
  rw [List.length_drop, List.length_drop] at hlength
  have hle := h.le
  have hle' := h'.le
  omega

/-- The number for the next variable access does not matter. -/
theorem numbered (nextId : AccessId) :
    ({ reader with nextId } : Reader).StandsAt before i :=
  ⟨h.le, h.rest⟩

end Reader.StandsAt

namespace Phrase

variable {α β : Type} {before : List Token} {closing : Token} {low covered i : Nat}
  {reader : Reader}

/-- What a step leaves that reads from a position on. If it succeeds, it has covered some tokens; if
it fails, it names one that is no further on than the reader is. -/
def Advances (before : List Token) (closing : Token) (low covered : Nat) :
    Outcome Reader ParseError α → Prop
  | (.ok _, reached) => ∃ j, reached.StandsAt before j ∧ low + covered ≤ j
  | (.error error, reached) =>
    ∃ e j, reached.StandsAt before j ∧ low ≤ e ∧ e ≤ j ∧
      (before ++ [closing])[e]? = some error.token

/-- A phrase is read from some position. -/
def Placed (before : List Token) (call : Phrase × Reader) : Prop :=
  ∃ i, call.2.StandsAt before i

/-- What is known of a phrase: from whatever position it is read, it advances from there. -/
def Moves (before : List Token) (closing : Token) (call : Phrase × Reader)
    (outcome : Outcome Reader ParseError call.1.Result) : Prop :=
  ∀ i, call.2.StandsAt before i → Advances before closing i call.1.covers outcome

/-- A step advances from position `low` and covers some tokens if it succeeds, as long as the
phrases that it reads do what is known of them; and they are all read from positions. -/
def Onward (before : List Token) (closing : Token) (low covered : Nat) (step : Reading α)
    (reader : Reader) : Prop :=
  Routine.Ensures (Placed before) (Moves before closing) step reader
    (Advances before closing low covered)

/-! ## Single steps -/

theorem onward_pure {answer : α} (hat : reader.StandsAt before i) (hcovered : low + covered ≤ i) :
    Onward before closing low covered (pure answer) reader :=
  ⟨i, hat, hcovered⟩

theorem onward_fail {error : ParseError} {e : Nat} (hat : reader.StandsAt before i) (hlow : low ≤ e)
    (hle : e ≤ i) (htoken : (before ++ [closing])[e]? = some error.token) :
    Onward before closing low covered (Routine.fail error : Reading α) reader :=
  ⟨e, i, hat, hlow, hle, htoken⟩

theorem onward_reject {problem : ParseProblem} (hat : reader.StandsAt before i) (hlow : low ≤ i) :
    Onward before closing low covered (reject closing problem : Reading α) reader :=
  onward_fail hat hlow (Nat.le_refl i) (hat.getElem?_eq closing)

theorem Onward.mono {step : Reading α} {low' covered' : Nat}
    (h : Onward before closing low' covered' step reader) (hlow : low ≤ low')
    (hcovered : low + covered ≤ low' + covered') :
    Onward before closing low covered step reader := by
  refine Routine.Ensures.mono h ?_
  rintro ⟨error | answer, reached⟩ hadvances
  · obtain ⟨e, j, hat, hle, hrest⟩ := hadvances
    exact ⟨e, j, hat, Nat.le_trans hlow hle, hrest⟩
  · obtain ⟨j, hat, hle⟩ := hadvances
    exact ⟨j, hat, Nat.le_trans hcovered hle⟩

theorem onward_bind {first : Reading β} {next : β → Reading α} {low' covered' : Nat}
    (hfirst : Onward before closing low' covered' first reader) (hlow : low ≤ low')
    (h : ∀ answer reached j, reached.StandsAt before j → low' + covered' ≤ j →
      Onward before closing low covered (next answer) reached) :
    Onward before closing low covered (first >>= next) reader := by
  refine Routine.ensures_bind.2 (Routine.Ensures.mono hfirst ?_)
  rintro ⟨error | answer, reached⟩ hadvances
  · obtain ⟨e, j, hat, hle, hrest⟩ := hadvances
    exact ⟨e, j, hat, Nat.le_trans hlow hle, hrest⟩
  · obtain ⟨j, hat, hle⟩ := hadvances
    exact h answer reached j hat hle

theorem onward_call {p : Phrase} (hat : reader.StandsAt before i) :
    Onward before closing i p.covers (Routine.call p) reader :=
  Routine.ensures_call.2 ⟨⟨i, hat⟩, fun _ hmoves => hmoves i hat⟩

theorem onward_jump {p : Phrase} (hat : reader.StandsAt before i) (hlow : low ≤ i)
    (hcovered : low + covered ≤ i + p.covers) :
    Onward before closing low covered (Routine.jump p) reader :=
  Onward.mono (Routine.ensures_jump.2 ⟨⟨i, hat⟩, fun _ hmoves => hmoves i hat⟩) hlow hcovered

theorem onward_call_bind {p : Phrase} {next : p.Result → Reading α}
    (hat : reader.StandsAt before i) (hlow : low ≤ i) (hcovers : p.covers = 1)
    (h : ∀ answer reached j, reached.StandsAt before j → i + 1 ≤ j →
      Onward before closing low covered (next answer) reached) :
    Onward before closing low covered (Routine.call p >>= next) reader :=
  onward_bind (onward_call hat) hlow (hcovers ▸ h)

theorem onward_peek_bind {next : Token → Reading α} (hclosing : closing.kind = .endOfInput)
    (hat : reader.StandsAt before i)
    (h : ∀ token, (before ++ [closing])[i]? = some token →
      (token.kind ≠ .endOfInput → i < before.length) →
        Onward before closing low covered (next token) reader) :
    Onward before closing low covered (peek closing >>= next) reader := by
  refine Routine.ensures_bind.2 (h _ (hat.getElem?_eq closing) fun hkind => ?_)
  refine hat.rest_ne_nil_iff.1 fun hnil => hkind ?_
  show (reader.rest.head?.getD closing).kind = _
  rw [hnil]
  exact hclosing

theorem onward_skip_bind {next : Unit → Reading α} (hat : reader.StandsAt before i)
    (hlt : i < before.length)
    (h : ∀ reached, reached.StandsAt before (i + 1) →
      Onward before closing low covered (next ()) reached) :
    Onward before closing low covered (skip >>= next) reader :=
  Routine.ensures_bind.2 (h _ (hat.tail hlt))

theorem onward_freshId_bind {next : AccessId → Reading α} (hat : reader.StandsAt before i)
    (h : ∀ id reached, reached.StandsAt before i →
      Onward before closing low covered (next id) reached) :
    Onward before closing low covered (freshId >>= next) reader :=
  Routine.ensures_bind.2 (h _ _ (hat.numbered _))

theorem onward_accept_bind {wanted : Token.Kind → Bool} {next : Option Token → Reading α}
    (hat : reader.StandsAt before i)
    (htake : ∀ token reached, reached.StandsAt before (i + 1) →
      (before ++ [closing])[i]? = some token →
        Onward before closing low covered (next (some token)) reached)
    (hleave : Onward before closing low covered (next none) reader) :
    Onward before closing low covered (accept wanted >>= next) reader := by
  refine Routine.ensures_bind.2 ?_
  have htoken := hat.getElem?_eq closing
  have htail := hat.rest_ne_nil_iff
  obtain ⟨_ | ⟨token, rest⟩, nextId⟩ := reader
  · exact hleave
  · show Routine.Ensures _ _ (Routine.step fun _ => if wanted token.kind then _ else _) _ _
    rw [Routine.ensures_step]
    by_cases hwanted : wanted token.kind
    · rw [if_pos hwanted]
      exact htake token ⟨rest, nextId⟩ (hat.tail (htail.1 (List.cons_ne_nil _ _))) htoken
    · rw [if_neg hwanted]
      exact hleave

theorem onward_expect_bind {expected : Expectation} {next : Token → Reading α}
    (hat : reader.StandsAt before i) (hlow : low ≤ i)
    (h : ∀ token reached, reached.StandsAt before (i + 1) →
      Onward before closing low covered (next token) reached) :
    Onward before closing low covered (expect closing expected >>= next) reader := by
  unfold expect
  rw [Routine.bind_assoc]
  refine onward_accept_bind hat (fun token reached hat' _ => h token reached hat') ?_
  exact Routine.ensures_bind.2 (onward_reject hat hlow)

theorem onward_unlessAt_bind {kind : Token.Kind} {absent : β} {present : Reading β}
    {next : β → Reading α} (hclosing : closing.kind = .endOfInput) (hat : reader.StandsAt before i)
    (habsent : Onward before closing low covered (next absent) reader)
    (hpresent : Onward before closing low covered (present >>= next) reader) :
    Onward before closing low covered (unlessAt closing kind absent present >>= next) reader := by
  unfold unlessAt
  rw [Routine.bind_assoc]
  refine onward_peek_bind hclosing hat fun token _ _ => ?_
  split
  · exact habsent
  · exact hpresent

/-! ## Phrases -/

section Phrases

/-- What cannot be assigned to is reported at the operator, which may be far behind. -/
theorem onward_assignment {target value : Expr} {operator : Token} {e : Nat}
    (hat : reader.StandsAt before i) (hcovered : low + covered ≤ i) (hlow : low ≤ e) (hle : e ≤ i)
    (htoken : (before ++ [closing])[e]? = some operator) :
    Onward before closing low covered (assignment target operator value) reader := by
  unfold assignment
  split
  · split
    · exact onward_freshId_bind hat fun id reader₁ h₁ => onward_pure h₁ hcovered
    · exact onward_freshId_bind hat fun id reader₁ h₁ =>
        onward_freshId_bind h₁ fun id reader₂ h₂ => onward_pure h₂ hcovered
  · exact onward_fail hat hlow hle htoken

variable (hclosing : closing.kind = .endOfInput)
include hclosing

theorem onward_primary (hat : reader.StandsAt before i) :
    Onward before closing i 1 (primary closing) reader := by
  refine onward_peek_bind hclosing hat fun token htoken hleft => ?_
  have hfail : ∀ problem, Onward before closing i 1
      (Routine.fail ⟨token, problem⟩ : Reading Expr) reader :=
    fun problem => onward_fail hat (Nat.le_refl i) (Nat.le_refl i) htoken
  have htaken : token.kind ≠ .endOfInput → ∀ answer : Expr, Onward before closing i 1
      (skip >>= fun _ => pure answer) reader :=
    fun hkind answer => onward_skip_bind hat (hleft hkind) fun reader₁ h₁ =>
      onward_pure h₁ (Nat.le_refl _)
  split <;> rename_i hkind
  all_goals try exact hfail _
  all_goals
    have hne : token.kind ≠ .endOfInput := by rw [hkind]; decide
    try exact htaken hne _
  · split
    · exact htaken hne _
    · exact htaken hne _
    · exact hfail _
  · split
    · exact htaken hne _
    · exact htaken hne _
    · exact hfail _
  · refine onward_freshId_bind hat fun id reader₁ h₁ => ?_
    exact onward_skip_bind h₁ (hleft hne) fun reader₂ h₂ => onward_pure h₂ (Nat.le_refl _)
  · refine onward_skip_bind hat (hleft hne) fun reader₁ h₁ => ?_
    refine onward_call_bind h₁ (by omega) rfl fun inner reader₂ j h₂ hj => ?_
    refine onward_expect_bind h₂ (by omega) fun paren reader₃ h₃ => ?_
    exact onward_pure h₃ (by omega)
  · refine onward_skip_bind hat (hleft hne) fun reader₁ h₁ => ?_
    refine onward_expect_bind h₁ (by omega) fun paren reader₂ h₂ => ?_
    refine onward_call_bind h₂ (by omega) rfl fun code reader₃ j h₃ hj => ?_
    refine onward_expect_bind h₃ (by omega) fun paren reader₄ h₄ => ?_
    exact onward_pure h₄ (by omega)

theorem onward_form (f : Form) (hat : reader.StandsAt before i) :
    Onward before closing i (expression f).covers (form closing f) reader := by
  cases f with
  | assignment =>
    show Onward before closing i 1 _ reader
    refine onward_call_bind hat (Nat.le_refl i) rfl fun target reader₁ j h₁ hj => ?_
    refine onward_accept_bind h₁ (fun operator reader₂ h₂ htoken => ?_) (onward_pure h₁ hj)
    refine onward_call_bind h₂ (by omega) rfl fun value reader₃ k h₃ hk => ?_
    exact onward_assignment h₃ (by omega) (by omega) (by omega) htoken
  | conditional =>
    show Onward before closing i 1 _ reader
    refine onward_call_bind hat (Nat.le_refl i) rfl fun condition reader₁ j h₁ hj => ?_
    refine onward_accept_bind h₁ (fun question reader₂ h₂ _ => ?_) (onward_pure h₁ hj)
    refine onward_call_bind h₂ (by omega) rfl fun whenTrue reader₃ k h₃ hk => ?_
    refine onward_expect_bind h₃ (by omega) fun colon reader₄ h₄ => ?_
    refine onward_call_bind h₄ (by omega) rfl fun whenFalse reader₅ l h₅ hl => ?_
    exact onward_pure h₅ (by omega)
  | operation level =>
    show Onward before closing i 1 _ reader
    refine onward_call_bind hat (Nat.le_refl i) level.covers_operand fun left reader₁ j h₁ hj => ?_
    exact onward_jump h₁ (by omega) hj
  | operations level left =>
    show Onward before closing i 0 _ reader
    refine onward_accept_bind hat (fun operator reader₁ h₁ _ => ?_)
      (onward_pure hat (Nat.le_refl i))
    refine onward_call_bind h₁ (by omega) level.covers_operand fun right reader₂ j h₂ hj => ?_
    exact onward_jump h₂ (by omega) (by omega)
  | unary =>
    show Onward before closing i 1 _ reader
    refine onward_accept_bind hat (fun operator reader₁ h₁ _ => ?_)
      (onward_jump hat (Nat.le_refl i) (Nat.le_refl _))
    refine onward_call_bind h₁ (by omega) rfl fun operand reader₂ j h₂ hj => ?_
    exact onward_pure h₂ (by omega)
  | call =>
    show Onward before closing i 1 _ reader
    refine onward_bind (onward_primary hclosing hat) (Nat.le_refl i)
      fun callee reader₁ j h₁ hj => ?_
    exact onward_jump h₁ (by omega) hj
  | calls callee =>
    show Onward before closing i 0 _ reader
    have hrest : ∀ passed reached j, reached.StandsAt before j → i + 1 ≤ j →
        Onward before closing i 0 (do
          let paren ← expect closing .parenAfterArguments
          Routine.jump (expression (.calls (.call callee paren passed)))) reached := by
      intro passed reached j hat' hj
      refine onward_expect_bind hat' (by omega) fun paren reader₁ h₁ => ?_
      exact onward_jump h₁ (by omega) (by omega)
    refine onward_accept_bind hat (fun paren reader₁ h₁ _ => ?_) (onward_pure hat (Nat.le_refl i))
    refine onward_unlessAt_bind hclosing h₁ (hrest _ _ _ h₁ (Nat.le_refl _)) ?_
    exact onward_call_bind h₁ (by omega) rfl fun passed reader₂ j h₂ hj =>
      hrest passed reader₂ j h₂ (by omega)

omit hclosing in
theorem onward_argumentList (count : Nat) (hat : reader.StandsAt before i) :
    Onward before closing i 1 (argumentList closing count) reader := by
  unfold argumentList
  split
  · exact onward_reject hat (Nat.le_refl i)
  · refine onward_call_bind hat (Nat.le_refl i) rfl fun argument reader₁ j h₁ hj => ?_
    refine onward_accept_bind h₁ (fun comma reader₂ h₂ _ => ?_) (onward_pure h₁ hj)
    refine onward_call_bind h₂ (by omega) rfl fun others reader₃ k h₃ hk => ?_
    exact onward_pure h₃ (by omega)

omit hclosing in
theorem onward_parameterList (count : Nat) (hat : reader.StandsAt before i) :
    Onward before closing i 1 (parameterList closing count) reader := by
  unfold parameterList
  split
  · exact onward_reject hat (Nat.le_refl i)
  · refine onward_expect_bind hat (Nat.le_refl i) fun parameter reader₁ h₁ => ?_
    refine onward_accept_bind h₁ (fun comma reader₂ h₂ _ => ?_) (onward_pure h₁ (Nat.le_refl _))
    refine onward_call_bind h₂ (by omega) rfl fun others reader₃ j h₃ hj => ?_
    exact onward_pure h₃ (by omega)

theorem onward_functionDeclaration (hat : reader.StandsAt before i) (hlow : low + 1 ≤ i) :
    Onward before closing low 1 (functionDeclaration closing) reader := by
  have hrest : ∀ name declared reached j, reached.StandsAt before j → i ≤ j →
      Onward before closing low 1 (do
        let _ ← expect closing .parenAfterParameters
        let _ ← expect closing .braceBeforeBody
        let body ← Routine.call block
        pure (Stmt.function name declared body)) reached := by
    intro name declared reached j hat' hj
    refine onward_expect_bind hat' (by omega) fun paren reader₁ h₁ => ?_
    refine onward_expect_bind h₁ (by omega) fun brace reader₂ h₂ => ?_
    refine onward_call_bind h₂ (by omega) rfl fun body reader₃ k h₃ hk => ?_
    exact onward_pure h₃ (by omega)
  refine onward_expect_bind hat (by omega) fun name reader₁ h₁ => ?_
  refine onward_expect_bind h₁ (by omega) fun paren reader₂ h₂ => ?_
  refine onward_unlessAt_bind hclosing h₂ (hrest _ _ _ _ h₂ (by omega)) ?_
  exact onward_call_bind h₂ (by omega) rfl fun declared reader₃ j h₃ hj =>
    hrest name declared reader₃ j h₃ (by omega)

omit hclosing in
theorem onward_variableDeclaration (hat : reader.StandsAt before i) :
    Onward before closing i 1 (variableDeclaration closing) reader := by
  refine onward_expect_bind hat (Nat.le_refl i) fun name reader₁ h₁ => ?_
  refine onward_accept_bind h₁ (fun equal reader₂ h₂ _ => ?_) ?_
  · refine onward_call_bind h₂ (by omega) rfl fun value reader₃ j h₃ hj => ?_
    refine onward_expect_bind h₃ (by omega) fun semicolon reader₄ h₄ => ?_
    exact onward_pure h₄ (by omega)
  · refine onward_expect_bind h₁ (by omega) fun semicolon reader₂ h₂ => ?_
    exact onward_pure h₂ (by omega)

omit hclosing in
theorem onward_ifStatement (hat : reader.StandsAt before i) (hlow : low + 1 ≤ i) :
    Onward before closing low 1 (ifStatement closing) reader := by
  refine onward_expect_bind hat (by omega) fun paren reader₁ h₁ => ?_
  refine onward_call_bind h₁ (by omega) rfl fun condition reader₂ j h₂ hj => ?_
  refine onward_expect_bind h₂ (by omega) fun paren reader₃ h₃ => ?_
  refine onward_call_bind h₃ (by omega) rfl fun whenTrue reader₄ k h₄ hk => ?_
  refine onward_accept_bind h₄ (fun keyword reader₅ h₅ _ => ?_) (onward_pure h₄ (by omega))
  refine onward_call_bind h₅ (by omega) rfl fun whenFalse reader₆ l h₆ hl => ?_
  exact onward_pure h₆ (by omega)

omit hclosing in
theorem onward_whileStatement (hat : reader.StandsAt before i) (hlow : low + 1 ≤ i) :
    Onward before closing low 1 (whileStatement closing) reader := by
  refine onward_expect_bind hat (by omega) fun paren reader₁ h₁ => ?_
  refine onward_call_bind h₁ (by omega) rfl fun condition reader₂ j h₂ hj => ?_
  refine onward_expect_bind h₂ (by omega) fun paren reader₃ h₃ => ?_
  refine onward_call_bind h₃ (by omega) rfl fun body reader₄ k h₄ hk => ?_
  exact onward_pure h₄ (by omega)

omit hclosing in
theorem onward_forInitializer (hat : reader.StandsAt before i) :
    Onward before closing i 1 (forInitializer closing) reader := by
  refine onward_accept_bind hat (fun semicolon reader₁ h₁ _ => onward_pure h₁ (Nat.le_refl _)) ?_
  refine onward_accept_bind hat (fun keyword reader₁ h₁ _ => ?_) ?_
  · refine onward_bind (onward_variableDeclaration h₁) (by omega) fun declared reader₂ j h₂ hj => ?_
    exact onward_pure h₂ (by omega)
  · refine onward_call_bind hat (Nat.le_refl i) rfl fun value reader₁ j h₁ hj => ?_
    refine onward_expect_bind h₁ (by omega) fun semicolon reader₂ h₂ => ?_
    exact onward_pure h₂ (by omega)

theorem onward_forStatement (hat : reader.StandsAt before i) (hlow : low + 1 ≤ i) :
    Onward before closing low 1 (forStatement closing) reader := by
  have hbody : ∀ initializer condition increment reached j, reached.StandsAt before j → i ≤ j →
      Onward before closing low 1 (do
        let _ ← expect closing .parenAfterForClauses
        let body ← Routine.call statement
        pure (forLoop initializer condition increment body)) reached := by
    intro initializer condition increment reached j hat' hj
    refine onward_expect_bind hat' (by omega) fun paren reader₁ h₁ => ?_
    refine onward_call_bind h₁ (by omega) rfl fun body reader₂ k h₂ hk => ?_
    exact onward_pure h₂ (by omega)
  have hincrement : ∀ initializer condition reached j, reached.StandsAt before j → i ≤ j →
      Onward before closing low 1 (do
        let _ ← expect closing .semicolonAfterForCondition
        let increment ← unlessAt closing .rightParen none (some <$> Routine.call anyExpression)
        let _ ← expect closing .parenAfterForClauses
        let body ← Routine.call statement
        pure (forLoop initializer condition increment body)) reached := by
    intro initializer condition reached j hat' hj
    refine onward_expect_bind hat' (by omega) fun semicolon reader₁ h₁ => ?_
    refine onward_unlessAt_bind hclosing h₁ (hbody _ _ _ _ _ h₁ (by omega)) ?_
    rw [Routine.map_eq_bind, Routine.bind_assoc]
    exact onward_call_bind h₁ (by omega) rfl fun value reader₂ k h₂ hk =>
      hbody _ _ _ reader₂ k h₂ (by omega)
  refine onward_expect_bind hat (by omega) fun paren reader₁ h₁ => ?_
  refine onward_bind (onward_forInitializer h₁) (by omega) fun initializer reader₂ j h₂ hj => ?_
  refine onward_unlessAt_bind hclosing h₂ (hincrement _ _ _ _ h₂ (by omega)) ?_
  exact onward_call_bind h₂ (by omega) rfl fun condition reader₃ k h₃ hk =>
    hincrement _ _ reader₃ k h₃ (by omega)

theorem onward_anyStatement (hat : reader.StandsAt before i) :
    Onward before closing i 1 (anyStatement closing) reader := by
  refine onward_peek_bind hclosing hat fun token htoken hleft => ?_
  have hclose : ∀ {expected : Expectation} {answer : Stmt} {reached j},
      reached.StandsAt before j → i + 1 ≤ j →
        Onward before closing i 1 (do
          let _ ← expect closing expected
          pure answer) reached := by
    intro expected answer reached j hat' hj
    refine onward_expect_bind hat' (by omega) fun semicolon reader₁ h₁ => ?_
    exact onward_pure h₁ (by omega)
  split <;> rename_i hkind
  all_goals try
    have hlt : i < before.length := hleft (by rw [hkind]; decide)
    refine onward_skip_bind hat hlt fun reader₁ h₁ => ?_
  · refine onward_call_bind h₁ (by omega) rfl fun value reader₂ j h₂ hj => ?_
    exact hclose h₂ (by omega)
  · exact onward_ifStatement h₁ (Nat.le_refl _)
  · exact onward_whileStatement h₁ (Nat.le_refl _)
  · exact onward_forStatement hclosing h₁ (Nat.le_refl _)
  · refine onward_unlessAt_bind hclosing h₁ (hclose h₁ (Nat.le_refl _)) ?_
    rw [Routine.map_eq_bind, Routine.bind_assoc]
    refine onward_call_bind h₁ (by omega) rfl fun value reader₂ j h₂ hj => ?_
    exact hclose h₂ (by omega)
  · refine onward_call_bind h₁ (by omega) rfl fun body reader₂ j h₂ hj => ?_
    exact onward_pure h₂ (by omega)
  · refine onward_call_bind hat (Nat.le_refl i) rfl fun value reader₁ j h₁ hj => ?_
    exact hclose h₁ hj

theorem onward_anyDeclaration (hat : reader.StandsAt before i) :
    Onward before closing i 1 (anyDeclaration closing) reader := by
  refine onward_peek_bind hclosing hat fun token htoken hleft => ?_
  split <;> rename_i hkind
  · have hlt : i < before.length := hleft (by rw [hkind]; decide)
    refine onward_skip_bind hat hlt fun reader₁ h₁ => ?_
    exact onward_functionDeclaration hclosing h₁ (Nat.le_refl _)
  · have hlt : i < before.length := hleft (by rw [hkind]; decide)
    refine onward_skip_bind hat hlt fun reader₁ h₁ => ?_
    exact (onward_variableDeclaration h₁).mono (by omega) (by omega)
  · exact onward_fail hat (Nat.le_refl i) (Nat.le_refl i) htoken
  · exact onward_jump hat (Nat.le_refl i) (Nat.le_refl _)

theorem onward_blockBody (hat : reader.StandsAt before i) :
    Onward before closing i 1 (blockBody closing) reader := by
  refine onward_peek_bind hclosing hat fun next _ _ => ?_
  split
  · refine onward_expect_bind hat (Nat.le_refl i) fun brace reader₁ h₁ => ?_
    exact onward_pure h₁ (Nat.le_refl _)
  · refine onward_call_bind hat (Nat.le_refl i) rfl fun first reader₁ j h₁ hj => ?_
    refine onward_call_bind h₁ (by omega) rfl fun others reader₂ k h₂ hk => ?_
    exact onward_pure h₂ (by omega)

end Phrases

/-! ## Programs -/

theorem exists_resumeAfter_eq_drop (previous : Token) (tokens : List Token) :
    ∃ n ≤ tokens.length, resumeAfter previous tokens = tokens.drop n := by
  induction tokens generalizing previous with
  | nil => exact ⟨0, Nat.le_refl 0, rfl⟩
  | cons token rest ih =>
    unfold resumeAfter
    split
    · exact ⟨0, Nat.zero_le _, rfl⟩
    · obtain ⟨n, hn, hdrop⟩ := ih token
      exact ⟨n + 1, Nat.succ_le_succ hn, hdrop⟩

end Phrase

/-- Reading resumes further on, unless there is nothing left to go on with. -/
theorem Reader.StandsAt.resume {before : List Token} {i : Nat} {reader : Reader}
    (h : reader.StandsAt before i) :
    ∃ k, ({ reader with rest := Phrase.resume reader.rest } : Reader).StandsAt before k ∧ i ≤ k ∧
      (i < before.length → i < k) := by
  have hleft := h.rest_ne_nil_iff
  obtain ⟨rest, nextId⟩ := reader
  cases rest with
  | nil => exact ⟨i, h, Nat.le_refl i, fun hlt => absurd rfl (hleft.2 hlt)⟩
  | cons token rest =>
    obtain ⟨n, hn, hdrop⟩ := Phrase.exists_resumeAfter_eq_drop token rest
    have htail := h.tail (hleft.1 (List.cons_ne_nil token rest))
    have hrest : rest = before.drop (i + 1) := htail.rest
    have hle := htail.le
    rw [hrest, List.length_drop] at hn
    refine ⟨i + 1 + n, ⟨by omega, ?_⟩, by omega, fun _ => by omega⟩
    show Phrase.resumeAfter token rest = _
    rw [hdrop, hrest, List.drop_drop]

namespace Phrase

section Read

variable {before : List Token} {closing : Token} {i : Nat} {reader : Reader}

theorem onward_programBody (hat : reader.StandsAt before i) :
    Onward before closing i 0 programBody reader := by
  have hothers : ∀ first reached j, reached.StandsAt before j → i ≤ j →
      Onward before closing i 0 (do
        let others ← Routine.call program
        pure (first :: others)) reached := by
    intro first reached j hat' hj
    refine onward_bind (onward_call hat') hj fun others reader₁ k h₁ hk => ?_
    exact onward_pure h₁ (Nat.le_trans hj hk)
  unfold programBody
  rw [Onward, Routine.ensures_bind, atEnd_eq, Routine.ensures_gets]
  dsimp only
  split
  · exact onward_pure hat (Nat.le_refl i)
  · rw [Routine.ensures_bind, Routine.ensures_attempt, Routine.ensures_call]
    refine ⟨⟨i, hat⟩, ?_⟩
    rintro ⟨error | statement, reached⟩ hmoves
    · obtain ⟨e, j, hat', hlow, hle, -⟩ := hmoves i hat
      obtain ⟨k, hresumed, hk, -⟩ := hat'.resume
      exact Routine.ensures_bind.2 (hothers _ _ k hresumed (by omega))
    · obtain ⟨j, hat', hle⟩ := hmoves i hat
      exact hothers _ reached j hat' (Nat.le_trans (Nat.le_add_right _ _) hle)

variable (hclosing : closing.kind = .endOfInput)
include hclosing

/-- Reading a phrase always ends. -/
theorem exists_ends (phrase : Phrase) (reader : Reader) :
    ∃ outcome, Routine.Ends (read closing) (read closing phrase) reader outcome := by
  obtain ⟨outcome, hrun⟩ := exists_run_eq_some hclosing phrase reader (Nat.lt_succ_self _)
  exact ⟨outcome, Routine.exists_run_iff_ends.1 ⟨_, hrun⟩⟩

/-- From wherever a phrase is read, its reading advances from there. -/
theorem onward_read (phrase : Phrase) (hat : reader.StandsAt before i) :
    Onward before closing i phrase.covers (read closing phrase) reader := by
  cases phrase with
  | expression f => exact onward_form hclosing f hat
  | arguments count => exact onward_argumentList count hat
  | parameters count => exact onward_parameterList count hat
  | declaration => exact onward_anyDeclaration hclosing hat
  | statement => exact onward_anyStatement hclosing hat
  | block => exact onward_blockBody hclosing hat
  | program => exact onward_programBody hat

private theorem ensures_moves (call : Phrase × Reader) (hplaced : Placed before call) :
    Routine.Ensures (Placed before) (Moves before closing) (read closing call.1) call.2
      (Moves before closing call) := by
  obtain ⟨i, hat⟩ := hplaced
  refine Routine.Ensures.mono (onward_read hclosing call.1 hat) fun outcome hadvances => ?_
  intro j hat'
  rwa [← hat.unique hat']

/-- Whatever reading a phrase ends in, it has advanced. -/
theorem advances_of_ends {phrase : Phrase} (hat : reader.StandsAt before i)
    {outcome : Outcome Reader ParseError phrase.Result}
    (h : Routine.Ends (read closing) (read closing phrase) reader outcome) :
    Advances before closing i phrase.covers outcome :=
  Routine.Ends.of_ensures (fun p reader hplaced => ensures_moves hclosing (p, reader) hplaced)
    ⟨i, hat⟩ h i hat

end Read

end Phrase

end Lox
