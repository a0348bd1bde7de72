/-
# Reading a program takes linearly many rounds

Every phrase can be read on a price that is linear in the number of tokens left. The tokens pay for
all the work that they cause: a phrase gets `tokenWorth` units for each of them and, on top, the
units it needs until it has read its first token (`Phrase.rank`). These grow along the chain of
phrases that call each other without reading a token in between, and that chain is finite. A phrase
that has read a token in turn hands on `bonus` units, which pay for whatever its caller goes on to
call.

The main statement is `Phrase.exists_run_eq_some`: within its price, every phrase has an outcome.
-/

import Lox.Parse.Reader

namespace Lox

namespace Phrase

open Nat (le_of_ble_eq_true)

/-- The units that a token is worth as long as it has not been read. -/
def tokenWorth : Nat := 96

/-- The units that a phrase hands on when it has read a token. -/
def bonus : Nat := 48

/-- The units a level costs before any token is read. -/
def Level.rank : Level → Nat
  | or => 27
  | and => 23
  | equality => 19
  | comparison => 15
  | term => 11
  | factor => 7

/-- The units a form of expression costs before any token is read. -/
def Form.rank : Form → Nat
  | assignment => 31
  | conditional => 29
  | operation level => level.rank
  | operations _ _ => 1
  | unary => 3
  | call => 1
  | calls _ => 1

/-- The units a phrase costs before any token is read. -/
def rank : Phrase → Nat
  | expression form => form.rank
  | arguments _ => 33
  | parameters _ => 1
  | declaration => 35
  | statement => 33
  | block => 37
  | program => 1

/-- The units that each token left contributes to the price of a phrase. A program gets twice the
usual: one share for the declaration that is read next, and one for all that come after it. -/
def shares : Phrase → Nat
  | program => tokenWorth + tokenWorth
  | _ => tokenWorth

/-- The price of reading a phrase. -/
def price (call : Phrase × Reader) : Nat := call.1.shares * call.2.rest.length + call.1.rank

/-- How many tokens a phrase covers at least when it is read successfully. -/
def covers : Phrase → Nat
  | expression (.operations _ _) | expression (.calls _) | program => 0
  | _ => 1

theorem Level.rank_operand (level : Level) :
    (expression level.operand).rank + 4 ≤ level.rank ∧ (expression level.operand).rank ≤ 23 := by
  cases level <;> exact ⟨le_of_ble_eq_true rfl, le_of_ble_eq_true rfl⟩

theorem Level.covers_operand (level : Level) : (expression level.operand).covers = 1 := by
  cases level <;> rfl

/-- What a step in reading owes when `start` tokens were left before it and it covers `covered` of
them if it succeeds: it hands on the worth of the tokens left and the bonus for those covered. -/
def Pays {α : Type} (start covered : Nat) (outcome : Outcome Reader ParseError α) (left : Nat) :
    Prop :=
  match outcome with
  | (.ok _, reader) =>
    reader.rest.length + covered ≤ start ∧ tokenWorth * reader.rest.length + bonus * covered ≤ left
  | (.error _, reader) =>
    reader.rest.length ≤ start ∧ tokenWorth * reader.rest.length ≤ left

/-- What reading a phrase owes. -/
def PhrasePays (call : Phrase × Reader) (outcome : Outcome Reader ParseError (Result call.1))
    (left : Nat) : Prop :=
  Pays call.2.rest.length call.1.covers outcome left

/-- A step can be carried out on the worth of the tokens left and `extra` units, and pays what it
owes with one unit to spare. -/
def Affords {α : Type} (step : Reading α) (reader : Reader) (extra start covered : Nat) : Prop :=
  ∀ budget, tokenWorth * reader.rest.length + extra ≤ budget →
    Routine.Affordable price PhrasePays step reader budget fun outcome left =>
      1 ≤ left ∧ Pays start covered outcome (left - 1)

variable {α : Type} {closing : Token} {reader : Reader} {extra start covered : Nat}

/-! ## What single steps cost -/

theorem affords_pure {answer : α} (hstart : reader.rest.length + covered ≤ start)
    (hextra : bonus * covered + 1 ≤ extra) :
    Affords (pure answer) reader extra start covered := by
  intro budget hbudget
  rw [Routine.affordable_pure]
  exact ⟨by omega, hstart, by omega⟩

theorem affords_fail {problem : ParseError} (hstart : reader.rest.length ≤ start)
    (hextra : 1 ≤ extra) :
    Affords (Routine.fail problem : Reading α) reader extra start covered := by
  intro budget hbudget
  rw [Routine.affordable_fail]
  exact ⟨by omega, hstart, by omega⟩

theorem affords_jump {p : Phrase} (hstart : reader.rest.length + covered ≤ start + p.covers)
    (hle : reader.rest.length ≤ start)
    (hextra : p.rank + 2 ≤ extra) (hdue : p.rank + 2 + bonus * covered ≤ extra + bonus * p.covers)
    (hshares : p.shares = tokenWorth) :
    Affords (Routine.jump p : Reading _) reader extra start covered := by
  intro budget hbudget
  rw [Routine.affordable_jump]
  simp only [price, hshares]
  refine ⟨by omega, ?_⟩
  rintro ⟨answer | problem, reader'⟩ left hpays
  all_goals
    simp only [PhrasePays, Pays] at hpays ⊢
    omega

theorem affords_call {p : Phrase} {next : Result p → Reading α}
    (hstart : reader.rest.length ≤ start) (hextra : p.rank + 2 ≤ extra)
    (hshares : p.shares = tokenWorth)
    (hnext : ∀ answer reader', reader'.rest.length + p.covers ≤ reader.rest.length →
      Affords (next answer) reader' (extra - (p.rank + 1) + bonus * p.covers) start covered) :
    Affords (Routine.call p >>= next) reader extra start covered := by
  intro budget hbudget
  rw [Routine.affordable_bind, Routine.affordable_call]
  simp only [price, hshares]
  refine ⟨by omega, ?_⟩
  rintro ⟨problem | answer, reader'⟩ left hpays
  · simp only [PhrasePays, Pays] at hpays ⊢
    omega
  · simp only [PhrasePays, Pays] at hpays
    exact hnext answer reader' hpays.1 _ (by omega)

theorem affords_peek {next : Token → Reading α} (hclosing : closing.kind = .endOfInput)
    (hnext : ∀ token, (token.kind ≠ .endOfInput → 0 < reader.rest.length) →
      Affords (next token) reader extra start covered) :
    Affords (peek closing >>= next) reader extra start covered := by
  intro budget hbudget
  rw [Routine.affordable_bind, peek_eq, Routine.affordable_gets]
  refine hnext _ ?_ budget hbudget
  cases reader.rest <;> simp [hclosing]

theorem affords_skip {next : Unit → Reading α} (hrest : 0 < reader.rest.length)
    (hnext : ∀ reader', reader'.rest.length + 1 = reader.rest.length →
      Affords (next ()) reader' (extra + tokenWorth) start covered) :
    Affords (skip >>= next) reader extra start covered := by
  intro budget hbudget
  rw [Routine.affordable_bind, skip_eq, Routine.affordable_modify]
  have hlength : reader.rest.tail.length + 1 = reader.rest.length := by
    simp only [List.length_tail]; omega
  refine hnext { reader with rest := reader.rest.tail } hlength budget ?_
  simp only [tokenWorth] at *
  omega

theorem affords_freshId {next : AccessId → Reading α}
    (hnext : ∀ id reader', reader'.rest.length = reader.rest.length →
      Affords (next id) reader' extra start covered) :
    Affords (freshId >>= next) reader extra start covered := by
  intro budget hbudget
  rw [Routine.affordable_bind, freshId_eq, Routine.affordable_step]
  exact hnext reader.nextId { reader with nextId := reader.nextId + 1 } rfl budget hbudget

theorem affords_accept {wanted : Token.Kind → Bool} {next : Option Token → Reading α}
    (htake : ∀ token reader', reader'.rest.length + 1 = reader.rest.length →
      Affords (next (some token)) reader' (extra + tokenWorth) start covered)
    (hleave : Affords (next none) reader extra start covered) :
    Affords (accept wanted >>= next) reader extra start covered := by
  intro budget hbudget
  rw [Routine.affordable_bind, accept_eq, Routine.affordable_step]
  obtain ⟨_ | ⟨token, rest⟩, nextId⟩ := reader
  · exact hleave budget hbudget
  · by_cases hwanted : wanted token.kind
    · simp only [hwanted, if_true]
      refine htake token ⟨rest, nextId⟩ rfl budget ?_
      simp only [List.length_cons, tokenWorth] at hbudget ⊢
      omega
    · simp only [hwanted]
      exact hleave budget hbudget

theorem affords_reject {problem : ParseProblem} (hstart : reader.rest.length ≤ start)
    (hextra : 1 ≤ extra) :
    Affords (reject closing problem : Reading α) reader extra start covered := by
  intro budget hbudget
  simp only [reject, peek_eq, Routine.affordable_bind, Routine.affordable_gets]
  exact affords_fail hstart hextra budget hbudget

theorem affords_expect {expected : Expectation} {next : Token → Reading α}
    (hstart : reader.rest.length ≤ start) (hextra : 1 ≤ extra)
    (hnext : ∀ token reader', reader'.rest.length + 1 = reader.rest.length →
      Affords (next token) reader' (extra + tokenWorth) start covered) :
    Affords (expect closing expected >>= next) reader extra start covered := by
  intro budget hbudget
  rw [Routine.affordable_bind, expect, Routine.affordable_bind]
  have htake : Affords (accept (· = expected.kind) >>= fun taken =>
      taken.elim (reject closing (.missing expected)) next) reader extra start covered :=
    affords_accept hnext (affords_reject hstart hextra)
  have hafford := Routine.affordable_bind.1 (htake budget hbudget)
  refine CallTree.Affordable.mono hafford ?_
  rintro ⟨problem | (_ | token), reader'⟩ left hpost
  · exact hpost
  · simpa only [Option.elim_none, reject, peek_eq, Routine.affordable_bind, Routine.affordable_gets,
      Routine.affordable_fail] using hpost
  · exact hpost

theorem affords_unlessAt {β : Type} {kind : Token.Kind} {absent : β} {present : Reading β}
    {next : β → Reading α} (hclosing : closing.kind = .endOfInput)
    (habsent : Affords (next absent) reader extra start covered)
    (hpresent : Affords (present >>= next) reader extra start covered) :
    Affords (unlessAt closing kind absent present >>= next) reader extra start covered := by
  unfold unlessAt
  rw [Routine.bind_assoc]
  refine affords_peek hclosing fun token _ => ?_
  split
  · exact habsent
  · exact hpresent

/-! ## What the phrases cost -/

section Phrases

variable (hclosing : closing.kind = .endOfInput)

theorem affords_assignment {target value : Expr} {operator : Token}
    (hstart : reader.rest.length + covered ≤ start) (hextra : bonus * covered + 1 ≤ extra) :
    Affords (assignment target operator value) reader extra start covered := by
  unfold assignment
  split
  · split
    · refine affords_freshId fun id reader₁ h₁ => ?_
      exact affords_pure (by omega) hextra
    · refine affords_freshId fun id reader₁ h₁ => affords_freshId fun id reader₂ h₂ => ?_
      exact affords_pure (by omega) hextra
  · exact affords_fail (by omega) (by omega)

include hclosing in
theorem affords_primary {next : Expr → Reading α} (hstart : reader.rest.length ≤ start)
    (hextra : 1 ≤ extra)
    (hnext : ∀ answer reader' extra', reader'.rest.length + 1 ≤ reader.rest.length →
      extra + tokenWorth ≤ extra' → Affords (next answer) reader' extra' start covered) :
    Affords (primary closing >>= next) reader extra start covered := by
  have hworth : tokenWorth = 96 := rfl
  have hbonus : bonus = 48 := rfl
  unfold primary
  rw [Routine.bind_assoc]
  refine affords_peek hclosing fun token htoken => ?_
  split <;> rename_i hkind
  all_goals try exact affords_fail hstart hextra
  all_goals
    have hrest := htoken (by simp [hkind])
    try simp only [Routine.bind_assoc, Routine.pure_bind]
  · exact affords_skip hrest fun reader₁ h₁ => hnext _ _ _ (by omega) (by omega)
  · exact affords_skip hrest fun reader₁ h₁ => hnext _ _ _ (by omega) (by omega)
  · exact affords_skip hrest fun reader₁ h₁ => hnext _ _ _ (by omega) (by omega)
  · split <;> try simp only [Routine.bind_assoc, Routine.pure_bind]
    · exact affords_skip hrest fun reader₁ h₁ => hnext _ _ _ (by omega) (by omega)
    · exact affords_skip hrest fun reader₁ h₁ => hnext _ _ _ (by omega) (by omega)
    · exact affords_fail hstart hextra
  · split <;> try simp only [Routine.bind_assoc, Routine.pure_bind]
    · exact affords_skip hrest fun reader₁ h₁ => hnext _ _ _ (by omega) (by omega)
    · exact affords_skip hrest fun reader₁ h₁ => hnext _ _ _ (by omega) (by omega)
    · exact affords_fail hstart hextra
  · refine affords_freshId fun id reader₁ h₁ => affords_skip (by omega) fun reader₂ h₂ => ?_
    exact hnext _ _ _ (by omega) (by omega)
  · refine affords_skip hrest fun reader₁ h₁ => ?_
    refine affords_call (by omega) ?_ rfl fun inner reader₂ h₂ => ?_
    · simp only [anyExpression, rank, Form.rank]; omega
    simp only [anyExpression, rank, Form.rank, covers] at h₂ ⊢
    refine affords_expect (by omega) (by omega) fun token reader₃ h₃ => ?_
    exact hnext _ _ _ (by omega) (by omega)
  · refine affords_skip hrest fun reader₁ h₁ => ?_
    refine affords_expect (by omega) (by omega) fun token reader₂ h₂ => ?_
    refine affords_call (by omega) ?_ rfl fun inner reader₃ h₃ => ?_
    · simp only [anyExpression, rank, Form.rank]; omega
    simp only [anyExpression, rank, Form.rank, covers] at h₃ ⊢
    refine affords_expect (by omega) (by omega) fun token reader₄ h₄ => ?_
    exact hnext _ _ _ (by omega) (by omega)

include hclosing in
theorem affords_form (f : Form) (reader : Reader) :
    Affords (form closing f) reader f.rank reader.rest.length (expression f).covers := by
  have hworth : tokenWorth = 96 := rfl
  have hbonus : bonus = 48 := rfl
  cases f with
  | assignment =>
    refine affords_call (Nat.le_refl _) (by decide) rfl fun target reader₁ h₁ => ?_
    simp only [rank, Form.rank, covers] at h₁ ⊢
    refine affords_accept (fun operator reader₂ h₂ => ?_) (affords_pure (by omega) (by omega))
    refine affords_call (by omega) (by decide) rfl fun value reader₃ h₃ => ?_
    simp only [rank, Form.rank, covers] at h₃ ⊢
    exact affords_assignment (by omega) (by omega)
  | conditional =>
    refine affords_call (Nat.le_refl _) (by decide) rfl fun condition reader₁ h₁ => ?_
    simp only [rank, Form.rank, covers] at h₁ ⊢
    refine affords_accept (fun operator reader₂ h₂ => ?_)
      (affords_pure (by omega) (by decide))
    refine affords_call (by omega) (by decide) rfl fun whenTrue reader₃ h₃ => ?_
    simp only [anyExpression, rank, Form.rank, covers] at h₃ ⊢
    refine affords_expect (by omega) (by decide) fun colon reader₄ h₄ => ?_
    refine affords_call (by omega) (by decide) rfl fun whenFalse reader₅ h₅ => ?_
    simp only [rank, Form.rank, covers] at h₅ ⊢
    exact affords_pure (by omega) (by decide)
  | operation level =>
    have hrank := level.rank_operand
    have hlevel : (Form.operation level).rank = level.rank := rfl
    have hcovers : (expression (.operation level)).covers = 1 := rfl
    refine affords_call (Nat.le_refl _) (by omega) rfl fun left reader₁ h₁ => ?_
    rw [level.covers_operand] at h₁ ⊢
    generalize (expression level.operand).rank = share at *
    refine affords_jump ?_ (by omega) ?_ ?_ rfl <;> simp only [rank, Form.rank, covers] <;> omega
  | operations level left =>
    have hrank := level.rank_operand
    simp only [Form.rank, covers]
    refine affords_accept (fun operator reader₁ h₁ => ?_) (affords_pure (by omega) (by omega))
    refine affords_call (by omega) (by omega) rfl fun right reader₂ h₂ => ?_
    simp only [level.covers_operand] at h₂ ⊢
    refine affords_jump ?_ (by omega) ?_ ?_ rfl <;> simp only [rank, Form.rank, covers] <;> omega
  | unary =>
    simp only [Form.rank, covers]
    refine affords_accept (fun operator reader₁ h₁ => ?_) ?_
    · refine affords_call (by omega) (by decide) rfl fun operand reader₂ h₂ => ?_
      simp only [rank, Form.rank, covers] at h₂ ⊢
      exact affords_pure (by omega) (by decide)
    · refine affords_jump ?_ (by omega) ?_ ?_ rfl <;> simp only [rank, Form.rank, covers] <;> omega
  | call =>
    refine affords_primary hclosing (Nat.le_refl _) (by decide)
      fun callee reader₁ extra h₁ hextra => ?_
    simp only [Form.rank, covers] at hextra ⊢
    refine affords_jump ?_ (by omega) ?_ ?_ rfl <;> simp only [rank, Form.rank, covers] <;> omega
  | calls callee =>
    simp only [Form.rank, covers]
    refine affords_accept (fun paren reader₁ h₁ => ?_) (affords_pure (by omega) (by decide))
    have hclose : ∀ passed reader₂ extra, reader₂.rest.length ≤ reader₁.rest.length → 1 ≤ extra →
        Affords (do
          let paren ← expect closing .parenAfterArguments
          Routine.jump (expression (.calls (.call callee paren passed)))) reader₂ extra
          reader.rest.length 0 := by
      intro passed reader₂ extra h₂ hextra
      refine affords_expect (by omega) hextra fun paren reader₃ h₃ => ?_
      refine affords_jump ?_ (by omega) ?_ ?_ rfl <;> simp only [rank, Form.rank, covers] <;> omega
    refine affords_unlessAt hclosing (hclose [] reader₁ _ (Nat.le_refl _) (by omega)) ?_
    refine affords_call (by omega) (by simp only [rank]; omega) rfl fun passed reader₂ h₂ => ?_
    simp only [rank, covers] at h₂ ⊢
    exact hclose passed reader₂ _ (by omega) (by omega)

theorem affords_argumentList (count : Nat) (reader : Reader) :
    Affords (argumentList closing count) reader 33 reader.rest.length 1 := by
  have hworth : tokenWorth = 96 := rfl
  have hbonus : bonus = 48 := rfl
  unfold argumentList
  split
  · exact affords_reject (Nat.le_refl _) (by decide)
  · refine affords_call (Nat.le_refl _) (by decide) rfl fun argument reader₁ h₁ => ?_
    simp only [anyExpression, rank, Form.rank, covers] at h₁ ⊢
    refine affords_accept (fun comma reader₂ h₂ => ?_) (affords_pure (by omega) (by decide))
    refine affords_call (by omega) (by simp only [rank]; omega) rfl fun others reader₃ h₃ => ?_
    simp only [rank, covers] at h₃ ⊢
    exact affords_pure (by omega) (by decide)

theorem affords_parameterList (count : Nat) (reader : Reader) :
    Affords (parameterList closing count) reader 1 reader.rest.length 1 := by
  have hworth : tokenWorth = 96 := rfl
  have hbonus : bonus = 48 := rfl
  unfold parameterList
  split
  · exact affords_reject (Nat.le_refl _) (by decide)
  · refine affords_expect (Nat.le_refl _) (by decide) fun parameter reader₁ h₁ => ?_
    refine affords_accept (fun comma reader₂ h₂ => ?_) (affords_pure (by omega) (by decide))
    refine affords_call (by omega) (by simp only [rank]; omega) rfl fun others reader₃ h₃ => ?_
    simp only [rank, covers] at h₃ ⊢
    exact affords_pure (by omega) (by decide)

include hclosing in
theorem affords_functionDeclaration (hstart : reader.rest.length + 1 ≤ start)
    (hextra : tokenWorth ≤ extra) :
    Affords (functionDeclaration closing) reader extra start 1 := by
  have hworth : tokenWorth = 96 := rfl
  have hbonus : bonus = 48 := rfl
  unfold functionDeclaration
  refine affords_expect (by omega) (by omega) fun name reader₁ h₁ => ?_
  refine affords_expect (by omega) (by omega) fun paren reader₂ h₂ => ?_
  have hrest : ∀ declared reader₃ extra', reader₃.rest.length ≤ reader₂.rest.length →
      tokenWorth ≤ extra' →
      Affords (do
        let _ ← expect closing .parenAfterParameters
        let _ ← expect closing .braceBeforeBody
        let body ← Routine.call block
        pure (Stmt.function name declared body)) reader₃ extra' start 1 := by
    intro declared reader₃ extra' h₃ hextra'
    refine affords_expect (by omega) (by omega) fun paren reader₄ h₄ => ?_
    refine affords_expect (by omega) (by omega) fun brace reader₅ h₅ => ?_
    refine affords_call (by omega) (by simp only [rank]; omega) rfl fun body reader₆ h₆ => ?_
    simp only [rank, covers] at h₆ ⊢
    exact affords_pure (by omega) (by omega)
  refine affords_unlessAt hclosing ?_ ?_
  · exact hrest [] reader₂ _ (Nat.le_refl _) (by omega)
  · refine affords_call (by omega) (by simp only [rank]; omega) rfl fun declared reader₃ h₃ => ?_
    simp only [rank, covers] at h₃ ⊢
    exact hrest declared reader₃ _ (by omega) (by omega)

theorem affords_variableDeclaration {next : Stmt → Reading α} (hstart : reader.rest.length ≤ start)
    (hextra : 1 ≤ extra)
    (hnext : ∀ answer reader' extra', reader'.rest.length + 1 ≤ reader.rest.length →
      extra + tokenWorth ≤ extra' → Affords (next answer) reader' extra' start covered) :
    Affords (variableDeclaration closing >>= next) reader extra start covered := by
  have hworth : tokenWorth = 96 := rfl
  have hbonus : bonus = 48 := rfl
  unfold variableDeclaration
  rw [Routine.bind_assoc]
  refine affords_expect (by omega) (by omega) fun name reader₁ h₁ => ?_
  rw [Routine.bind_assoc]
  refine affords_accept (fun equal reader₂ h₂ => ?_) ?_
  · simp only [Routine.bind_assoc, Routine.pure_bind]
    refine affords_call (by omega) ?_ rfl fun initializer reader₃ h₃ => ?_
    · simp only [anyExpression, rank, Form.rank]; omega
    simp only [anyExpression, rank, Form.rank, covers] at h₃ ⊢
    refine affords_expect (by omega) (by omega) fun semicolon reader₄ h₄ => ?_
    exact hnext _ _ _ (by omega) (by omega)
  · simp only [Routine.bind_assoc, Routine.pure_bind]
    refine affords_expect (by omega) (by omega) fun semicolon reader₂ h₂ => ?_
    exact hnext _ _ _ (by omega) (by omega)

theorem affords_ifStatement (hstart : reader.rest.length + 1 ≤ start)
    (hextra : tokenWorth ≤ extra) :
    Affords (ifStatement closing) reader extra start 1 := by
  have hworth : tokenWorth = 96 := rfl
  have hbonus : bonus = 48 := rfl
  unfold ifStatement
  refine affords_expect (by omega) (by omega) fun opening reader₁ h₁ => ?_
  refine affords_call (by omega) ?_ rfl fun condition reader₂ h₂ => ?_
  · simp only [anyExpression, rank, Form.rank]; omega
  simp only [anyExpression, rank, Form.rank, covers] at h₂ ⊢
  refine affords_expect (by omega) (by omega) fun paren reader₃ h₃ => ?_
  refine affords_call (by omega) (by simp only [rank]; omega) rfl fun whenTrue reader₄ h₄ => ?_
  simp only [rank, covers] at h₄ ⊢
  refine affords_accept (fun keyword reader₅ h₅ => ?_) (affords_pure (by omega) (by omega))
  refine affords_call (by omega) (by simp only [rank]; omega) rfl fun whenFalse reader₆ h₆ => ?_
  simp only [rank, covers] at h₆ ⊢
  exact affords_pure (by omega) (by omega)

theorem affords_whileStatement (hstart : reader.rest.length + 1 ≤ start)
    (hextra : tokenWorth ≤ extra) :
    Affords (whileStatement closing) reader extra start 1 := by
  have hworth : tokenWorth = 96 := rfl
  have hbonus : bonus = 48 := rfl
  unfold whileStatement
  refine affords_expect (by omega) (by omega) fun opening reader₁ h₁ => ?_
  refine affords_call (by omega) ?_ rfl fun condition reader₂ h₂ => ?_
  · simp only [anyExpression, rank, Form.rank]; omega
  simp only [anyExpression, rank, Form.rank, covers] at h₂ ⊢
  refine affords_expect (by omega) (by omega) fun paren reader₃ h₃ => ?_
  refine affords_call (by omega) (by simp only [rank]; omega) rfl fun body reader₄ h₄ => ?_
  simp only [rank, covers] at h₄ ⊢
  exact affords_pure (by omega) (by omega)

theorem affords_forInitializer {next : Option Stmt → Reading α}
    (hstart : reader.rest.length ≤ start) (hextra : tokenWorth ≤ extra)
    (hnext : ∀ answer reader' extra', reader'.rest.length + 1 ≤ reader.rest.length →
      extra ≤ extra' → Affords (next answer) reader' extra' start covered) :
    Affords (forInitializer closing >>= next) reader extra start covered := by
  have hworth : tokenWorth = 96 := rfl
  have hbonus : bonus = 48 := rfl
  unfold forInitializer
  rw [Routine.bind_assoc]
  refine affords_accept (fun semicolon reader₁ h₁ => ?_) ?_
  · exact hnext none reader₁ _ (by omega) (by omega)
  · rw [Routine.bind_assoc]
    refine affords_accept (fun keyword reader₁ h₁ => ?_) ?_
    · rw [Routine.bind_assoc]
      refine affords_variableDeclaration (by omega) (by omega)
        fun declared reader₂ extra' h₂ hextra' => ?_
      exact hnext _ _ _ (by omega) (by omega)
    · simp only [Routine.bind_assoc, Routine.pure_bind]
      refine affords_call (by omega) ?_ rfl fun value reader₁ h₁ => ?_
      · simp only [anyExpression, rank, Form.rank]; omega
      simp only [anyExpression, rank, Form.rank, covers] at h₁ ⊢
      refine affords_expect (by omega) (by omega) fun semicolon reader₂ h₂ => ?_
      exact hnext _ _ _ (by omega) (by omega)

include hclosing in
theorem affords_forStatement (hstart : reader.rest.length + 1 ≤ start)
    (hextra : tokenWorth ≤ extra) :
    Affords (forStatement closing) reader extra start 1 := by
  have hworth : tokenWorth = 96 := rfl
  have hbonus : bonus = 48 := rfl
  unfold forStatement
  refine affords_expect (by omega) (by omega) fun opening reader₁ h₁ => ?_
  refine affords_forInitializer (by omega) (by omega) fun initializer reader₂ extra₂ h₂ he₂ => ?_
  have hclauses : ∀ condition reader₃ extra', reader₃.rest.length ≤ reader₂.rest.length →
      tokenWorth ≤ extra' →
      Affords (do
        let _ ← expect closing .semicolonAfterForCondition
        let increment ← unlessAt closing .rightParen none (some <$> Routine.call anyExpression)
        let _ ← expect closing .parenAfterForClauses
        let body ← Routine.call statement
        pure (forLoop initializer condition increment body)) reader₃ extra' start 1 := by
    intro condition reader₃ extra' h₃ hextra'
    refine affords_expect (by omega) (by omega) fun semicolon reader₄ h₄ => ?_
    have hbody : ∀ increment reader₅ extra', reader₅.rest.length ≤ reader₄.rest.length →
        tokenWorth ≤ extra' →
        Affords (do
          let _ ← expect closing .parenAfterForClauses
          let body ← Routine.call statement
          pure (forLoop initializer condition increment body)) reader₅ extra' start 1 := by
      intro increment reader₅ extra' h₅ hextra'
      refine affords_expect (by omega) (by omega) fun paren reader₆ h₆ => ?_
      refine affords_call (by omega) (by simp only [rank]; omega) rfl fun body reader₇ h₇ => ?_
      simp only [rank, covers] at h₇ ⊢
      exact affords_pure (by omega) (by omega)
    refine affords_unlessAt hclosing ?_ ?_
    · exact hbody none reader₄ _ (Nat.le_refl _) (by omega)
    · rw [Routine.map_eq_bind, Routine.bind_assoc]
      refine affords_call (by omega) ?_ rfl fun increment reader₅ h₅ => ?_
      · simp only [anyExpression, rank, Form.rank]; omega
      simp only [anyExpression, rank, Form.rank, covers] at h₅ ⊢
      exact hbody (some increment) reader₅ _ (by omega) (by omega)
  refine affords_unlessAt hclosing ?_ ?_
  · exact hclauses _ reader₂ _ (Nat.le_refl _) (by omega)
  · refine affords_call (by omega) ?_ rfl fun condition reader₃ h₃ => ?_
    · simp only [anyExpression, rank, Form.rank]; omega
    simp only [anyExpression, rank, Form.rank, covers] at h₃ ⊢
    exact hclauses condition reader₃ _ (by omega) (by omega)

include hclosing in
theorem affords_anyStatement (reader : Reader) :
    Affords (anyStatement closing) reader 33 reader.rest.length 1 := by
  have hworth : tokenWorth = 96 := rfl
  have hbonus : bonus = 48 := rfl
  unfold anyStatement
  refine affords_peek hclosing fun token htoken => ?_
  split <;> rename_i hkind
  · refine affords_skip (htoken (by simp [hkind])) fun reader₁ h₁ => ?_
    refine affords_call (by omega) (by decide) rfl fun value reader₂ h₂ => ?_
    simp only [anyExpression, rank, Form.rank, covers] at h₂ ⊢
    refine affords_expect (by omega) (by decide) fun semicolon reader₃ h₃ => ?_
    exact affords_pure (by omega) (by decide)
  · refine affords_skip (htoken (by simp [hkind])) fun reader₁ h₁ => ?_
    exact affords_ifStatement (by omega) (by omega)
  · refine affords_skip (htoken (by simp [hkind])) fun reader₁ h₁ => ?_
    exact affords_whileStatement (by omega) (by omega)
  · refine affords_skip (htoken (by simp [hkind])) fun reader₁ h₁ => ?_
    exact affords_forStatement hclosing (by omega) (by omega)
  · refine affords_skip (htoken (by simp [hkind])) fun reader₁ h₁ => ?_
    have hreturn : ∀ value reader₂ extra', reader₂.rest.length ≤ reader₁.rest.length →
        tokenWorth ≤ extra' →
        Affords (do
          let _ ← expect closing .semicolonAfterReturn
          pure (Stmt.return token value)) reader₂ extra' reader.rest.length 1 := by
      intro value reader₂ extra' h₂ hextra'
      refine affords_expect (by omega) (by omega) fun semicolon reader₃ h₃ => ?_
      exact affords_pure (by omega) (by omega)
    refine affords_unlessAt hclosing ?_ ?_
    · exact hreturn none reader₁ _ (Nat.le_refl _) (by omega)
    · rw [Routine.map_eq_bind, Routine.bind_assoc]
      refine affords_call (by omega) (by decide) rfl fun value reader₂ h₂ => ?_
      simp only [anyExpression, rank, Form.rank, covers] at h₂ ⊢
      exact hreturn (some value) reader₂ _ (by omega) (by omega)
  · refine affords_skip (htoken (by simp [hkind])) fun reader₁ h₁ => ?_
    refine affords_call (by omega) (by decide) rfl fun body reader₂ h₂ => ?_
    simp only [rank, covers] at h₂ ⊢
    exact affords_pure (by omega) (by decide)
  · refine affords_call (Nat.le_refl _) (by decide) rfl fun value reader₁ h₁ => ?_
    simp only [anyExpression, rank, Form.rank, covers] at h₁ ⊢
    refine affords_expect (by omega) (by decide) fun semicolon reader₂ h₂ => ?_
    exact affords_pure (by omega) (by decide)

include hclosing in
theorem affords_anyDeclaration (reader : Reader) :
    Affords (anyDeclaration closing) reader 35 reader.rest.length 1 := by
  have hworth : tokenWorth = 96 := rfl
  have hbonus : bonus = 48 := rfl
  unfold anyDeclaration
  refine affords_peek hclosing fun token htoken => ?_
  split <;> rename_i hkind
  · refine affords_skip (htoken (by simp [hkind])) fun reader₁ h₁ => ?_
    exact affords_functionDeclaration hclosing (by omega) (by omega)
  · refine affords_skip (htoken (by simp [hkind])) fun reader₁ h₁ => ?_
    unfold variableDeclaration
    refine affords_expect (by omega) (by decide) fun name reader₂ h₂ => ?_
    refine affords_accept (fun equal reader₃ h₃ => ?_) ?_
    · refine affords_call (by omega) (by decide) rfl fun initializer reader₄ h₄ => ?_
      simp only [anyExpression, rank, Form.rank, covers] at h₄ ⊢
      refine affords_expect (by omega) (by decide) fun semicolon reader₅ h₅ => ?_
      exact affords_pure (by omega) (by decide)
    · refine affords_expect (by omega) (by decide) fun semicolon reader₃ h₃ => ?_
      exact affords_pure (by omega) (by decide)
  · exact affords_fail (Nat.le_refl _) (by decide)
  · exact affords_jump (by simp only [covers]; omega) (Nat.le_refl _) (by decide) (by decide) rfl

include hclosing in
theorem affords_blockBody (reader : Reader) :
    Affords (blockBody closing) reader 37 reader.rest.length 1 := by
  have hworth : tokenWorth = 96 := rfl
  have hbonus : bonus = 48 := rfl
  unfold blockBody
  refine affords_peek hclosing fun token _ => ?_
  split
  · refine affords_expect (Nat.le_refl _) (by decide) fun brace reader₁ h₁ => ?_
    exact affords_pure (by omega) (by decide)
  · refine affords_call (Nat.le_refl _) (by decide) rfl fun first reader₁ h₁ => ?_
    simp only [rank, covers] at h₁ ⊢
    refine affords_call (by omega) (by decide) rfl fun others reader₂ h₂ => ?_
    simp only [rank, covers] at h₂ ⊢
    exact affords_pure (by omega) (by decide)

theorem length_resumeAfter_le (previous : Token) (tokens : List Token) :
    (resumeAfter previous tokens).length ≤ tokens.length := by
  induction tokens generalizing previous with
  | nil => exact Nat.le_refl _
  | cons token rest ih =>
    unfold resumeAfter
    split
    · exact Nat.le_refl _
    · exact Nat.le_succ_of_le (ih token)

theorem length_resume_le (tokens : List Token) : (resume tokens).length ≤ tokens.length - 1 := by
  cases tokens with
  | nil => exact Nat.le_refl _
  | cons token rest => exact length_resumeAfter_le token rest

/-- The declarations of a program can be read on the price of the program, since each uses up a
token even when it turns out malformed. -/
theorem affordable_programBody (reader : Reader) :
    Routine.Affordable price PhrasePays programBody reader (price (program, reader))
      fun outcome left => 1 ≤ left ∧ PhrasePays (program, reader) outcome (left - 1) := by
  have hgoOn : ∀ (first : Except ParseError Stmt) reader' budget,
      reader'.rest.length ≤ reader.rest.length → price (program, reader') + 2 ≤ budget →
      Routine.Affordable price PhrasePays (do
        let others ← Routine.call program
        pure (first :: others) : Reading (List (Except ParseError Stmt))) reader' budget
        fun outcome left => 1 ≤ left ∧ PhrasePays (program, reader) outcome (left - 1) := by
    intro first reader' budget hle hbudget
    rw [Routine.affordable_bind, Routine.affordable_call]
    refine ⟨by omega, ?_⟩
    rintro ⟨problem | others, reader''⟩ left hpays
    · simp only [PhrasePays, Pays] at hpays ⊢
      omega
    · dsimp only
      rw [Routine.affordable_pure]
      simp only [PhrasePays, Pays] at hpays ⊢
      omega
  unfold programBody
  rw [Routine.affordable_bind, atEnd_eq, Routine.affordable_gets]
  dsimp only
  split
  · rename_i hempty
    rw [Routine.affordable_pure]
    simp only [PhrasePays, Pays, price, rank, shares, covers, List.isEmpty_iff.1 hempty,
      List.length_nil]
    omega
  · rename_i hempty
    have hrest : 0 < reader.rest.length :=
      List.length_pos_iff.2 fun h => hempty (by rw [h]; rfl)
    rw [Routine.affordable_bind, Routine.affordable_attempt, Routine.affordable_call]
    simp only [price, rank, shares, tokenWorth]
    refine ⟨by omega, ?_⟩
    rintro ⟨problem | answer, reader'⟩ left hpays
    · simp only [PhrasePays, Pays, tokenWorth] at hpays
      dsimp only
      rw [Routine.affordable_bind, recover_eq, Routine.affordable_modify]
      have hresume := length_resume_le reader'.rest
      refine hgoOn _ { reader' with rest := resume reader'.rest } _ (by dsimp only; omega) ?_
      simp only [price, rank, shares, tokenWorth]
      omega
    · simp only [PhrasePays, Pays, covers, tokenWorth, bonus] at hpays
      refine hgoOn _ reader' _ (by omega) ?_
      simp only [price, rank, shares, tokenWorth]
      omega

end Phrases

/-- Every phrase of a program has an outcome within its price. -/
theorem exists_run_eq_some (hclosing : closing.kind = .endOfInput) (phrase : Phrase)
    (reader : Reader) {rounds : Nat} (hrounds : price (phrase, reader) < rounds) :
    ∃ outcome, Routine.run (read closing) rounds phrase reader = some outcome := by
  have hbody : ∀ phrase reader, Routine.Affordable price PhrasePays (read closing phrase) reader
      (price (phrase, reader)) fun outcome left =>
        1 ≤ left ∧ PhrasePays (phrase, reader) outcome (left - 1) := by
    intro phrase reader
    cases phrase with
    | expression f => exact affords_form hclosing f reader _ (Nat.le_refl _)
    | arguments count => exact affords_argumentList count reader _ (Nat.le_refl _)
    | parameters count => exact affords_parameterList count reader _ (Nat.le_refl _)
    | declaration => exact affords_anyDeclaration hclosing reader _ (Nat.le_refl _)
    | statement => exact affords_anyStatement hclosing reader _ (Nat.le_refl _)
    | block => exact affords_blockBody hclosing reader _ (Nat.le_refl _)
    | program => exact affordable_programBody reader
  obtain ⟨outcome, houtcome, -⟩ := Routine.exists_run_eq_some hbody phrase reader hrounds
  exact ⟨outcome, houtcome⟩

end Phrase

end Lox
