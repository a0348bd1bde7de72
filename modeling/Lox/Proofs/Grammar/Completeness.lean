/-
# What is derived is read

Whenever the grammar derives tokens from a symbol, reading the phrases for that symbol takes exactly
these tokens and builds the tree of the derivation. Reading looks one token ahead, so this depends
on what comes behind: an expression is read as far as an operator goes on with it, and a statement
that dangles takes an `else`. `Stops` says of the tokens behind that they do not go on with a form.

The rule for the operations of a level recurs on the left, while reading goes through them from left
to right. So what is shown by induction on derivations of operations is about the reading that goes
on behind them, whatever that comes to; the same holds of calls.
-/

import Lox.Proofs.Grammar.Soundness

namespace Lox

namespace Grammar

open Phrase (Level)

/-- The kinds of token that an operand starts with. -/
def operandStarts : List Token.Kind :=
  [.false, .true, .nil, .number, .string, .identifier, .leftParen, .host]

/-- The kinds of token that an expression starts with. -/
def expressionStarts : List Token.Kind := operandStarts ++ [.bang, .minus]

/-- The kinds of token that a statement starts with. -/
def statementStarts : List Token.Kind :=
  [.print, .if, .while, .for, .return, .leftBrace] ++ expressionStarts

/-- The kinds of token that a declaration starts with. -/
def declarationStarts : List Token.Kind := [.fun, .var] ++ statementStarts

/-- Some sequences of tokens are never empty, and it can be told what they start with. -/
def Starts : Symbol → List Token → Prop
  | .expression .call, ts | .expression .primary, ts =>
    ∃ t us, ts = t :: us ∧ t.kind ∈ operandStarts
  | .expression _, ts | .values, ts => ∃ t us, ts = t :: us ∧ t.kind ∈ expressionStarts
  | .names, ts => ∃ t us, ts = t :: us ∧ t.kind = .identifier
  | .statement _, ts => ∃ t us, ts = t :: us ∧ t.kind ∈ statementStarts
  | .declaration, ts => ∃ t us, ts = t :: us ∧ t.kind ∈ declarationStarts
  | .declarations, ts => ∀ t ∈ ts.head?, t.kind ∈ declarationStarts
  | _, _ => True

theorem Derives.starts {symbol : Symbol} {ts : List Token} {tree : symbol.Tree}
    (h : Derives symbol ts tree) : Starts symbol ts := by
  induction h with
  | assign hname => exact ⟨_, _, rfl, by rw [hname]; decide⟩
  | compound hname => exact ⟨_, _, rfl, by rw [hname]; decide⟩
  | noAssignment h ih | noConditional h ih | noCall h ih | lastValue h ih => exact ih
  | conditional hcondition hquestion htrue hcolon hfalse ih =>
    obtain ⟨t, us, rfl, ht⟩ := ih
    exact ⟨t, _, rfl, ht⟩
  | operation hleft hoperator hright ih =>
    obtain ⟨t, us, rfl, ht⟩ := ih
    exact ⟨t, _, rfl, ht⟩
  | @noOperation level ts e h ih => cases level <;> exact ih
  | unary hoperator =>
    refine ⟨_, _, rfl, ?_⟩
    rcases hoperator with h | h <;> rw [h] <;> decide
  | noUnary h ih =>
    obtain ⟨t, us, rfl, ht⟩ := ih
    exact ⟨t, us, rfl, List.mem_append_left _ ht⟩
  | call hcallee hopening hpassed hparen ih =>
    obtain ⟨t, us, rfl, ht⟩ := ih
    exact ⟨t, _, rfl, ht⟩
  | falseLiteral h | trueLiteral h | nilLiteral h | read h =>
    exact ⟨_, _, rfl, by rw [h]; decide⟩
  | numberLiteral h | stringLiteral h =>
    refine ⟨_, _, rfl, ?_⟩
    rcases h with h | h <;> rw [h] <;> decide
  | group hopening => exact ⟨_, _, rfl, by rw [hopening]; decide⟩
  | host hkeyword => exact ⟨_, _, rfl, by rw [hkeyword]; decide⟩
  | moreValues h hcomma hothers ih =>
    obtain ⟨t, us, rfl, ht⟩ := ih
    exact ⟨t, _, rfl, ht⟩
  | lastName h | moreNames h => exact ⟨_, _, rfl, h⟩
  | print hkeyword | ifThen hkeyword | ifElse hkeyword | «while» hkeyword | «for» hkeyword
  | «return» hkeyword | function hkeyword | var hkeyword =>
    exact ⟨_, _, rfl, by rw [hkeyword]; decide⟩
  | block hopening => exact ⟨_, _, rfl, by rw [hopening]; decide⟩
  | expression hvalue hsemicolon ih =>
    obtain ⟨t, us, rfl, ht⟩ := ih
    exact ⟨t, _, rfl, List.mem_append_right _ ht⟩
  | statement h ih =>
    obtain ⟨t, us, rfl, ht⟩ := ih
    exact ⟨t, _, rfl, List.mem_append_right _ ht⟩
  | noDeclarations =>
    intro t ht
    cases ht
  | moreDeclarations h hothers ih =>
    obtain ⟨t, us, rfl, ht⟩ := ih
    intro t' ht'
    cases ht'
    exact ht
  | _ => trivial

/-- How loosely a token binds that goes on with an expression. -/
def looseness : Token.Kind → Option Nat
  | .leftParen => some 0
  | .slash | .star => some 1
  | .minus | .plus => some 2
  | .greater | .greaterEqual | .less | .lessEqual => some 3
  | .bangEqual | .equalEqual => some 4
  | .and => some 5
  | .or => some 6
  | .question => some 7
  | .equal | .plusEqual | .minusEqual => some 8
  | _ => none

/-- How loosely the tokens bind at most that go on with an expression of a form. -/
def Form.looseness : Form → Nat
  | assignment => 8
  | conditional => 7
  | operation .or => 6
  | operation .and => 5
  | operation .equality => 4
  | operation .comparison => 3
  | operation .term => 2
  | operation .factor => 1
  | unary | call | primary => 0

/-- The next of the tokens `rest`, if there is one, does not go on with an expression of a form. -/
def Stops (form : Form) (rest : List Token) : Prop :=
  ∀ token ∈ rest.head?, ∀ n ∈ Grammar.looseness token.kind, form.looseness < n

/-- What stops a form stops every tighter one. -/
theorem Stops.tighter {form form' : Form} {rest : List Token} (h : Stops form rest)
    (hle : form'.looseness ≤ form.looseness) : Stops form' rest :=
  fun token htoken n hn => Nat.lt_of_le_of_lt hle (h token htoken n hn)

/-- A token that never goes on with an expression stops every form. -/
theorem stops_of_head {form : Form} {kind : Token.Kind} {rest : List Token}
    (hrest : ∃ token ∈ rest.head?, token.kind = kind) (h : Grammar.looseness kind = none) :
    Stops form rest := by
  obtain ⟨token, htoken, rfl⟩ := hrest
  intro token' htoken' n hn
  rw [Option.mem_def.1 htoken, Option.mem_some_iff] at htoken'
  subst htoken'
  rw [h] at hn
  cases hn

theorem stops_cons {form : Form} {token : Token} {rest : List Token}
    (h : Grammar.looseness token.kind = none) : Stops form (token :: rest) :=
  stops_of_head ⟨token, rfl, rfl⟩ h

theorem looseness_tighter (level : Level) :
    (Grammar.tighter level).looseness < (Form.operation level).looseness := by
  cases level <;> decide

theorem looseness_of_mem_operators {level : Level} {kind : Token.Kind}
    (h : kind ∈ operators level) :
    Grammar.looseness kind = some (Form.operation level).looseness := by
  cases level <;> simp only [operators, List.mem_cons, List.not_mem_nil, or_false] at h <;>
    rcases h with rfl | h <;> try rfl
  all_goals rcases h with rfl | h <;> try rfl
  all_goals rcases h with rfl | rfl <;> rfl

theorem stops_operator {level : Level} {operator : Token} {rest : List Token}
    (h : operator.kind ∈ operators level) : Stops (Grammar.tighter level) (operator :: rest) := by
  intro token htoken n hn
  obtain rfl := Option.some.inj htoken
  rw [looseness_of_mem_operators h] at hn
  obtain rfl := Option.some.inj hn
  exact looseness_tighter level

end Grammar

namespace Phrase

open Grammar

variable {α β : Type} {closing : Token} {ts us rest : List Token} {good : α → Prop}

/-! ## Steps that read exactly some tokens -/

/-- A step reads exactly the tokens `ts` from in front of `rest`, and its result is good. Numbers
for accesses may be used up. -/
def Takes (closing : Token) (step : Reading α) (ts rest : List Token) (good : α → Prop) : Prop :=
  ∀ nextId, ∃ result nextId', good result ∧
    Routine.Ends (read closing) step ⟨ts ++ rest, nextId⟩ (.ok result, ⟨rest, nextId'⟩)

theorem takes_pure {result : α} (h : good result) : Takes closing (pure result) [] rest good :=
  fun nextId => ⟨result, nextId, h, Routine.ends_pure.2 rfl⟩

theorem Takes.bind {first : Reading β} {next : β → Reading α} {middle : β → Prop}
    (hfirst : Takes closing first ts (us ++ rest) middle)
    (hnext : ∀ answer, middle answer → Takes closing (next answer) us rest good) :
    Takes closing (first >>= next) (ts ++ us) rest good := by
  intro nextId
  obtain ⟨answer, nextId₁, hanswer, hfirst⟩ := hfirst nextId
  obtain ⟨result, nextId₂, hresult, hnext⟩ := hnext answer hanswer nextId₁
  refine ⟨result, nextId₂, hresult, ?_⟩
  rw [List.append_assoc]
  exact hfirst.bind hnext

/-- The last step takes no more tokens. -/
theorem Takes.bind_done {first : Reading β} {next : β → Reading α} {middle : β → Prop}
    (hfirst : Takes closing first ts rest middle)
    (hnext : ∀ answer, middle answer → Takes closing (next answer) [] rest good) :
    Takes closing (first >>= next) ts rest good := by
  rw [← List.append_nil ts]
  exact Takes.bind hfirst hnext

theorem takes_call {p : Phrase} {good : p.Result → Prop}
    (h : Takes closing (read closing p) ts rest good) :
    Takes closing (Routine.call p) ts rest good := by
  intro nextId
  obtain ⟨result, nextId', hresult, hends⟩ := h nextId
  exact ⟨result, nextId', hresult, Routine.ends_call.2 hends⟩

theorem takes_jump {p : Phrase} {good : p.Result → Prop}
    (h : Takes closing (read closing p) ts rest good) :
    Takes closing (Routine.jump p) ts rest good := by
  intro nextId
  obtain ⟨result, nextId', hresult, hends⟩ := h nextId
  exact ⟨result, nextId', hresult, Routine.ends_jump.2 hends⟩

theorem takes_freshId_bind {next : AccessId → Reading α}
    (h : ∀ id, Takes closing (next id) ts rest good) :
    Takes closing (freshId >>= next) ts rest good := by
  intro nextId
  obtain ⟨result, nextId', hresult, hends⟩ := h nextId (nextId + 1)
  exact ⟨result, nextId', hresult, Routine.Ends.bind (Routine.ends_step.2 rfl) hends⟩

theorem takes_peek_bind {token : Token} {next : Token → Reading α}
    (h : Takes closing (next token) (token :: ts) rest good) :
    Takes closing (peek closing >>= next) (token :: ts) rest good := by
  intro nextId
  obtain ⟨result, nextId', hresult, hends⟩ := h nextId
  exact ⟨result, nextId', hresult, Routine.Ends.bind (Routine.ends_gets.2 rfl) hends⟩

theorem takes_atEnd_bind {next : Bool → Reading α}
    (h : Takes closing (next (ts ++ rest).isEmpty) ts rest good) :
    Takes closing (atEnd >>= next) ts rest good := by
  intro nextId
  obtain ⟨result, nextId', hresult, hends⟩ := h nextId
  exact ⟨result, nextId', hresult, Routine.Ends.bind (Routine.ends_gets.2 rfl) hends⟩

theorem takes_skip_bind {token : Token} {next : Unit → Reading α}
    (h : Takes closing (next ()) ts rest good) :
    Takes closing (skip >>= next) (token :: ts) rest good := by
  intro nextId
  obtain ⟨result, nextId', hresult, hends⟩ := h nextId
  exact ⟨result, nextId', hresult, Routine.Ends.bind (Routine.ends_modify.2 rfl) hends⟩

theorem takes_accept_bind {token : Token} {wanted : Token.Kind → Bool}
    {next : Option Token → Reading α} (hwanted : wanted token.kind = true)
    (h : Takes closing (next (some token)) ts rest good) :
    Takes closing (accept wanted >>= next) (token :: ts) rest good := by
  intro nextId
  obtain ⟨result, nextId', hresult, hends⟩ := h nextId
  refine ⟨result, nextId', hresult, Routine.Ends.bind (Routine.ends_step.2 ?_) hends⟩
  simp only [List.cons_append, hwanted, if_true]

theorem takes_accept_none_bind {wanted : Token.Kind → Bool} {next : Option Token → Reading α}
    (hwanted : ∀ token ∈ (ts ++ rest).head?, wanted token.kind = false)
    (h : Takes closing (next none) ts rest good) :
    Takes closing (accept wanted >>= next) ts rest good := by
  intro nextId
  obtain ⟨result, nextId', hresult, hends⟩ := h nextId
  refine ⟨result, nextId', hresult, Routine.Ends.bind (Routine.ends_step.2 ?_) hends⟩
  dsimp only
  cases hts : ts ++ rest with
  | nil => rfl
  | cons token tokens =>
    have hnot := hwanted token (by rw [hts]; rfl)
    simp [hnot]

theorem takes_accept_none_of_head {kind : Token.Kind} {wanted : Token.Kind → Bool}
    {next : Option Token → Reading α} (hrest : ∃ token ∈ rest.head?, token.kind = kind)
    (hwanted : wanted kind = false) (h : Takes closing (next none) [] rest good) :
    Takes closing (accept wanted >>= next) [] rest good := by
  refine takes_accept_none_bind (fun token htoken => ?_) h
  obtain ⟨token', htoken', rfl⟩ := hrest
  obtain rfl := Option.mem_unique htoken' htoken
  exact hwanted

theorem takes_expect_bind {token : Token} {expected : Expectation} {next : Token → Reading α}
    (hkind : token.kind = expected.kind) (h : Takes closing (next token) ts rest good) :
    Takes closing (expect closing expected >>= next) (token :: ts) rest good := by
  intro nextId
  obtain ⟨result, nextId', hresult, hends⟩ := h nextId
  have haccept : Routine.Ends (read closing) (accept (· = expected.kind))
      ⟨token :: (ts ++ rest), nextId⟩ (.ok (some token), ⟨ts ++ rest, nextId⟩) := by
    refine Routine.ends_step.2 ?_
    simp only [hkind, decide_true, if_true]
  refine ⟨result, nextId', hresult, Routine.Ends.bind ?_ hends⟩
  exact haccept.bind (Routine.ends_pure.2 rfl)

theorem takes_attempt {step : Reading α} (h : Takes closing step ts rest good) :
    Takes closing step.attempt ts rest fun result =>
      ∃ answer, result = .ok answer ∧ good answer := by
  intro nextId
  obtain ⟨result, nextId', hresult, hends⟩ := h nextId
  exact ⟨.ok result, nextId', ⟨result, rfl, hresult⟩, Routine.ends_attempt.2 ⟨_, _, hends, rfl⟩⟩

theorem takes_unlessAt_absent {kind : Token.Kind} {absent : β} {present : Reading β}
    {good : β → Prop} (hkind : ∃ token ∈ rest.head?, token.kind = kind) (h : good absent) :
    Takes closing (unlessAt closing kind absent present) [] rest good := by
  intro nextId
  obtain ⟨token, htoken, hkind⟩ := hkind
  refine ⟨absent, nextId, h, Routine.Ends.bind (Routine.ends_gets.2 rfl) ?_⟩
  dsimp only [List.nil_append]
  rw [Option.mem_def.1 htoken, Option.getD_some, if_pos hkind]
  exact Routine.ends_pure.2 rfl

theorem takes_unlessAt_present {kind : Token.Kind} {absent : β} {present : Reading β}
    {good : β → Prop} {token : Token} (hkind : token.kind ≠ kind)
    (h : Takes closing present (token :: ts) rest good) :
    Takes closing (unlessAt closing kind absent present) (token :: ts) rest good := by
  intro nextId
  obtain ⟨result, nextId', hresult, hends⟩ := h nextId
  refine ⟨result, nextId', hresult, Routine.Ends.bind (Routine.ends_gets.2 rfl) ?_⟩
  dsimp only [List.cons_append, List.head?_cons, Option.getD_some]
  rw [if_neg hkind]
  exact hends

/-! ## What is shown of each symbol -/

/-- Reading the phrase for a symbol takes exactly these tokens and builds this tree, whatever comes
behind them that does not go on with it. -/
def Reads (closing : Token) : (symbol : Symbol) → List Token → symbol.Tree → Prop
  | .expression .assignment, ts, e => ∀ rest, Stops .assignment rest →
    Takes closing (read closing (.expression .assignment)) ts rest (·.unnumbered = e)
  | .expression .conditional, ts, e => ∀ rest, Stops .conditional rest →
    Takes closing (read closing (.expression .conditional)) ts rest (·.unnumbered = e)
  | .expression (.operation level), ts, e => ∀ us rest (good : Expr → Prop),
    Stops (tighter level) (us ++ rest) →
    (∀ left : Expr, left.unnumbered = e →
      Takes closing (read closing (.expression (.operations level left))) us rest good) →
    Takes closing (read closing (.expression (.operation level))) (ts ++ us) rest good
  | .expression .unary, ts, e => ∀ rest, Stops .unary rest →
    Takes closing (read closing (.expression .unary)) ts rest (·.unnumbered = e)
  | .expression .call, ts, e => ∀ us rest (good : Expr → Prop),
    (∀ callee : Expr, callee.unnumbered = e →
      Takes closing (read closing (.expression (.calls callee))) us rest good) →
    Takes closing (read closing (.expression .call)) (ts ++ us) rest good
  | .expression .primary, ts, e => ∀ rest,
    Takes closing (primary closing) ts rest (·.unnumbered = e)
  | .optional, ts, e => ∀ kind rest, kind ∉ expressionStarts → looseness kind = none →
    (∃ token ∈ rest.head?, token.kind = kind) →
    Takes closing (unlessAt closing kind none (some <$> Routine.call anyExpression)) ts rest
      fun result : Option Expr => result.map Expr.unnumbered = e
  | .values, ts, es => ∀ count rest, count + es.length ≤ mostArguments →
    (∃ token ∈ rest.head?, token.kind = .rightParen) →
    Takes closing (read closing (.arguments count)) ts rest (Expr.allUnnumbered · = es)
  | .arguments, ts, es => ∀ rest, (∃ token ∈ rest.head?, token.kind = .rightParen) →
    Takes closing (unlessAt closing .rightParen [] (Routine.call (Phrase.arguments 0))) ts rest
      (Expr.allUnnumbered · = es)
  | .names, ts, names => ∀ count rest, count + names.length ≤ mostArguments →
    (∃ token ∈ rest.head?, token.kind = .rightParen) →
    Takes closing (read closing (.parameters count)) ts rest (· = names)
  | .parameters, ts, names => ∀ rest, (∃ token ∈ rest.head?, token.kind = .rightParen) →
    Takes closing (unlessAt closing .rightParen [] (Routine.call (Phrase.parameters 0))) ts rest
      (· = names)
  | .varDecl, ts, s => ∀ rest,
    Takes closing (variableDeclaration closing) ts rest (·.unnumbered = s)
  | .initializer, ts, first => ∀ rest,
    Takes closing (forInitializer closing) ts rest (Option.map Stmt.unnumbered · = first)
  | .statement dangling, ts, s => ∀ rest,
    (dangling = true → ∀ token ∈ rest.head?, token.kind ≠ .else) →
    Takes closing (read closing .statement) ts rest (·.unnumbered = s)
  | .declaration, ts, s => ∀ rest, (∀ token ∈ rest.head?, token.kind ≠ .else) →
    Takes closing (read closing .declaration) ts rest (·.unnumbered = s)
  | .declarations, ts, ss =>
    (∀ brace rest, brace.kind = .rightBrace →
      Takes closing (read closing .block) (ts ++ [brace]) rest (Stmt.allUnnumbered · = ss)) ∧
    Takes closing (read closing .program) ts [] fun results =>
      ∃ ss' : List Stmt, results = ss'.map .ok ∧ Stmt.allUnnumbered ss' = ss

/-! ## Expressions -/

theorem takes_operations_none {level : Level} {left : Expr} {good : Expr → Prop}
    (hstops : Stops (.operation level) rest) (h : good left) :
    Takes closing (read closing (.expression (.operations level left))) [] rest good := by
  refine takes_accept_none_bind (fun token htoken => ?_) (takes_pure h)
  rw [Bool.eq_false_iff]
  intro hhas
  have hloose := looseness_of_mem_operators (has_iff_mem_operators.1 hhas)
  exact Nat.lt_irrefl _ (hstops token htoken _ hloose)

theorem takes_operation {level : Level} {e : Expr}
    (h : Reads closing (.expression (.operation level)) ts e)
    (hstops : Stops (.operation level) rest) :
    Takes closing (read closing (.expression (.operation level))) ts rest (·.unnumbered = e) := by
  have hread := h [] rest (·.unnumbered = e)
    (hstops.tighter (Nat.le_of_lt (looseness_tighter level)))
    fun left hleft => takes_operations_none hstops hleft
  rwa [List.append_nil] at hread

theorem takes_operand {level : Level} {e : Expr}
    (h : Reads closing (.expression (tighter level)) ts e) (hstops : Stops (tighter level) rest) :
    Takes closing (read closing (.expression level.operand)) ts rest (·.unnumbered = e) := by
  cases level with
  | factor => exact h rest hstops
  | _ => exact takes_operation h hstops

theorem takes_calls_none {callee : Expr} {good : Expr → Prop} (hstops : Stops .call rest)
    (h : good callee) :
    Takes closing (read closing (.expression (.calls callee))) [] rest good := by
  refine takes_accept_none_bind (fun token htoken => ?_) (takes_pure h)
  rw [decide_eq_false_iff_not]
  intro hkind
  have hloose : looseness token.kind = some 0 := by rw [hkind]; rfl
  exact Nat.lt_irrefl _ (hstops token htoken _ hloose)

theorem reads_read {name : Token} (hname : name.kind = .identifier) :
    Reads closing (.expression .primary) [name] (.read 0 name) := by
  intro rest
  refine takes_peek_bind ?_
  rw [hname]
  exact takes_freshId_bind fun id => takes_skip_bind (takes_pure rfl)

theorem reads_literal {token : Token} {value : Token.Literal} {constant : Constant}
    (hkind : token.kind = .number ∨ token.kind = .string) (hliteral : token.literal = some value)
    (hconstant : constant = match value with
      | .number n => .number n
      | .string text => .string text) :
    Reads closing (.expression .primary) [token] (.literal constant) := by
  intro rest
  refine takes_peek_bind ?_
  subst hconstant
  rcases hkind with hkind | hkind <;> rw [hkind] <;> simp only [hliteral] <;>
    cases value <;> exact takes_skip_bind (takes_pure rfl)

theorem reads_group {opening paren : Token} {inner : Expr} (hopening : opening.kind = .leftParen)
    (hinner : Reads closing (.expression .assignment) us inner)
    (hparen : paren.kind = .rightParen) :
    Reads closing (.expression .primary) (opening :: (us ++ [paren])) (.group inner) := by
  intro rest
  refine takes_peek_bind ?_
  rw [hopening]
  apply takes_skip_bind
  have hstops : Stops .assignment (paren :: rest) := stops_cons (by rw [hparen]; rfl)
  refine Takes.bind (takes_call (hinner _ hstops)) fun e he => ?_
  refine takes_expect_bind hparen (takes_pure ?_)
  exact congrArg Expr.group he

theorem reads_host {keyword opening paren : Token} {code : Expr} (hkeyword : keyword.kind = .host)
    (hopening : opening.kind = .leftParen) (hcode : Reads closing (.expression .assignment) us code)
    (hparen : paren.kind = .rightParen) :
    Reads closing (.expression .primary) (keyword :: opening :: (us ++ [paren]))
      (.host keyword code) := by
  intro rest
  refine takes_peek_bind ?_
  rw [hkeyword]
  apply takes_skip_bind
  apply takes_expect_bind hopening
  have hstops : Stops .assignment (paren :: rest) := stops_cons (by rw [hparen]; rfl)
  refine Takes.bind (takes_call (hcode _ hstops)) fun e he => ?_
  refine takes_expect_bind hparen (takes_pure ?_)
  exact congrArg (Expr.host keyword) he

theorem reads_noCall {e : Expr} (h : Reads closing (.expression .primary) ts e) :
    Reads closing (.expression .call) ts e := by
  intro us rest good hcalls
  refine Takes.bind (h (us ++ rest)) fun callee hcallee => ?_
  exact takes_jump (hcalls callee hcallee)

theorem reads_call {opening paren : Token} {callee : Expr} {passed : List Expr}
    (hcallee : Reads closing (.expression .call) ts callee) (hopening : opening.kind = .leftParen)
    (hpassed : Reads closing .arguments us passed) (hparen : paren.kind = .rightParen) :
    Reads closing (.expression .call) (ts ++ opening :: (us ++ [paren]))
      (.call callee paren passed) := by
  intro vs rest good hcalls
  rw [List.append_assoc]
  apply hcallee
  intro callee' hcallee'
  refine takes_accept_bind (by rw [hopening]; rfl) ?_
  show Takes closing _ (us ++ [paren] ++ vs) rest good
  rw [List.append_assoc]
  have hnext : ∃ token ∈ ([paren] ++ vs ++ rest).head?, token.kind = .rightParen :=
    ⟨paren, rfl, hparen⟩
  refine Takes.bind (hpassed _ hnext) fun passed' hpassed' => ?_
  refine takes_expect_bind hparen (takes_jump (hcalls _ ?_))
  show Expr.call callee'.unnumbered paren (Expr.allUnnumbered passed') = _
  rw [hcallee', hpassed']

theorem reads_noUnary {e : Expr} (hstarts : Starts (.expression .call) ts)
    (h : Reads closing (.expression .call) ts e) :
    Reads closing (.expression .unary) ts e := by
  intro rest hstops
  obtain ⟨token, us, rfl, hkind⟩ := hstarts
  refine takes_accept_none_bind (fun token' htoken' => ?_) (takes_jump ?_)
  · obtain rfl := Option.some.inj htoken'
    generalize token.kind = kind at hkind ⊢
    revert kind
    decide
  · have hread := h [] rest (·.unnumbered = e) fun callee hcallee => takes_calls_none hstops hcallee
    rwa [List.append_nil] at hread

theorem reads_unary {operator : Token} {operand : Expr}
    (hoperator : operator.kind = .bang ∨ operator.kind = .minus)
    (hoperand : Reads closing (.expression .unary) us operand) :
    Reads closing (.expression .unary) (operator :: us) (.unary operator operand) := by
  intro rest hstops
  refine takes_accept_bind (by simpa using hoperator) ?_
  refine Takes.bind_done (takes_call (hoperand rest hstops)) fun e he => takes_pure ?_
  exact congrArg (Expr.unary operator) he

theorem reads_noOperation {level : Level} {e : Expr}
    (h : Reads closing (.expression (tighter level)) ts e) :
    Reads closing (.expression (.operation level)) ts e := by
  intro us rest good hstops hoperations
  refine Takes.bind (takes_call (takes_operand h hstops)) fun left hleft => ?_
  exact takes_jump (hoperations left hleft)

theorem reads_operation {level : Level} {operator : Token} {left right : Expr}
    (hleft : Reads closing (.expression (.operation level)) ts left)
    (hoperator : operator.kind ∈ operators level)
    (hright : Reads closing (.expression (tighter level)) us right) :
    Reads closing (.expression (.operation level)) (ts ++ operator :: us)
      (joined level left operator right) := by
  intro vs rest good hstops hoperations
  rw [List.append_assoc]
  refine hleft _ rest good (stops_operator hoperator) fun left' hleft' => ?_
  refine takes_accept_bind (has_iff_mem_operators.2 hoperator) ?_
  refine Takes.bind (takes_call (takes_operand hright hstops)) fun right' hright' => ?_
  refine takes_jump (hoperations _ ?_)
  rw [unnumbered_join, hleft', hright']

theorem reads_noConditional {e : Expr} (h : Reads closing (.expression (.operation .or)) ts e) :
    Reads closing (.expression .conditional) ts e := by
  intro rest hstops
  have hor : Stops (.operation .or) rest := hstops.tighter (by decide)
  refine Takes.bind_done (takes_call (takes_operation h hor)) fun condition hcondition => ?_
  refine takes_accept_none_bind (fun token htoken => ?_) (takes_pure hcondition)
  rw [decide_eq_false_iff_not]
  intro hkind
  have hloose : looseness token.kind = some 7 := by rw [hkind]; rfl
  exact Nat.lt_irrefl _ (hstops token htoken _ hloose)

theorem reads_conditional {question colon : Token} {vs : List Token}
    {condition whenTrue whenFalse : Expr}
    (hcondition : Reads closing (.expression (.operation .or)) ts condition)
    (hquestion : question.kind = .question)
    (htrue : Reads closing (.expression .assignment) us whenTrue) (hcolon : colon.kind = .colon)
    (hfalse : Reads closing (.expression .conditional) vs whenFalse) :
    Reads closing (.expression .conditional) (ts ++ question :: (us ++ colon :: vs))
      (.conditional condition whenTrue whenFalse) := by
  intro rest hstops
  have hor : ∀ tokens, Stops (.operation .or) (question :: tokens) := by
    intro tokens token htoken n hn
    obtain rfl := Option.some.inj htoken
    rw [hquestion] at hn
    obtain rfl := Option.some.inj hn
    decide
  refine Takes.bind (takes_call (takes_operation hcondition (hor _))) fun c hc => ?_
  refine takes_accept_bind (by rw [hquestion]; rfl) ?_
  have hstops' : Stops .assignment (colon :: (vs ++ rest)) := stops_cons (by rw [hcolon]; rfl)
  refine Takes.bind (takes_call (htrue _ hstops')) fun t ht => ?_
  refine takes_expect_bind hcolon ?_
  refine Takes.bind_done (takes_call (hfalse rest hstops)) fun f hf => takes_pure ?_
  show Expr.conditional c.unnumbered t.unnumbered f.unnumbered = _
  rw [hc, ht, hf]

/-- A bare name is read as far as an operator that assigns. -/
theorem reads_name {name : Token} (hname : name.kind = .identifier) :
    Reads closing (.expression .conditional) [name] (.read 0 name) := by
  apply reads_noConditional
  apply reads_noOperation
  apply reads_noOperation
  apply reads_noOperation
  apply reads_noOperation
  apply reads_noOperation
  apply reads_noOperation
  apply reads_noUnary ⟨name, [], rfl, by rw [hname]; decide⟩
  apply reads_noCall
  exact reads_read hname

theorem reads_noAssignment {e : Expr} (h : Reads closing (.expression .conditional) ts e) :
    Reads closing (.expression .assignment) ts e := by
  intro rest hstops
  refine Takes.bind_done (takes_call (h rest (hstops.tighter (by decide)))) fun target htarget => ?_
  refine takes_accept_none_bind (fun token htoken => ?_) (takes_pure htarget)
  rw [Bool.eq_false_iff]
  intro hkind
  have hloose : looseness token.kind = some 8 := by
    simp only [assigns, Bool.or_eq_true, decide_eq_true_eq] at hkind
    rcases hkind with (hkind | hkind) | hkind <;> rw [hkind] <;> rfl
  exact Nat.lt_irrefl _ (hstops token htoken _ hloose)

/-- An assignment is read as its target, an operator and its value; what it comes to depends on the
operator. -/
theorem takes_assignment {name operator : Token} {value e : Expr} (hname : name.kind = .identifier)
    (hoperator : assigns operator.kind = true)
    (hvalue : Reads closing (.expression .assignment) us value) (hstops : Stops .assignment rest)
    (hassign : ∀ (id : AccessId) (value' : Expr), value'.unnumbered = value →
      Takes closing (assignment (.read id name) operator value') [] rest (·.unnumbered = e)) :
    Takes closing (read closing (.expression .assignment)) (name :: operator :: us) rest
      (·.unnumbered = e) := by
  have hstops' : Stops .conditional (operator :: us ++ rest) := by
    intro token htoken n hn
    obtain rfl := Option.some.inj htoken
    have hloose : looseness operator.kind = some 8 := by
      simp only [assigns, Bool.or_eq_true, decide_eq_true_eq] at hoperator
      rcases hoperator with (hkind | hkind) | hkind <;> rw [hkind] <;> rfl
    rw [hloose] at hn
    obtain rfl := Option.some.inj hn
    decide
  have hname' : Takes closing (Routine.call (expression .conditional)) [name]
      (operator :: us ++ rest) (·.unnumbered = .read 0 name) :=
    takes_call (reads_name hname _ hstops')
  refine Takes.bind hname' fun target htarget => ?_
  refine takes_accept_bind hoperator ?_
  refine Takes.bind_done (takes_call (hvalue rest hstops)) fun value' hvalue' => ?_
  cases target with
  | read id name' =>
    cases htarget
    exact hassign id value' hvalue'
  | _ => cases htarget

theorem reads_assign {name equal : Token} {value : Expr} (hname : name.kind = .identifier)
    (hequal : equal.kind = .equal) (hvalue : Reads closing (.expression .assignment) us value) :
    Reads closing (.expression .assignment) (name :: equal :: us) (.assign 0 name value) := by
  intro rest hstops
  refine takes_assignment hname (by rw [hequal]; rfl) hvalue hstops fun id value' hvalue' => ?_
  unfold assignment
  dsimp only
  rw [if_pos hequal]
  refine takes_freshId_bind fun id => takes_pure ?_
  exact congrArg (Expr.assign 0 name) hvalue'

theorem reads_compound {name operator : Token} {value : Expr} (hname : name.kind = .identifier)
    (hoperator : operator.kind = .plusEqual ∨ operator.kind = .minusEqual)
    (hvalue : Reads closing (.expression .assignment) us value) :
    Reads closing (.expression .assignment) (name :: operator :: us)
      (.assign 0 name (.binary (.read 0 name) operator value)) := by
  intro rest hstops
  have hnotEqual : operator.kind ≠ .equal := by
    rcases hoperator with h | h <;> rw [h] <;> decide
  have hassigns : assigns operator.kind = true := by
    rcases hoperator with h | h <;> rw [h] <;> rfl
  refine takes_assignment hname hassigns hvalue hstops fun id value' hvalue' => ?_
  unfold assignment
  dsimp only
  rw [if_neg hnotEqual]
  refine takes_freshId_bind fun readId => takes_freshId_bind fun id => takes_pure ?_
  exact congrArg (fun e => Expr.assign 0 name (.binary (.read 0 name) operator e)) hvalue'

theorem reads_absent : Reads closing .optional [] none :=
  fun _ _ _ _ hrest => takes_unlessAt_absent hrest rfl

theorem reads_present {e : Expr} (hstarts : Starts (.expression .assignment) ts)
    (h : Reads closing (.expression .assignment) ts e) : Reads closing .optional ts (some e) := by
  intro kind rest hkind hloose hrest
  obtain ⟨first, us, rfl, hfirst⟩ := hstarts
  have hne : first.kind ≠ kind := by
    rintro rfl
    exact hkind hfirst
  apply takes_unlessAt_present hne
  have hstops : Stops .assignment rest := stops_of_head hrest hloose
  exact Takes.bind_done (takes_call (h rest hstops)) fun e' he' => takes_pure (congrArg some he')

theorem reads_lastValue {e : Expr} (h : Reads closing (.expression .assignment) ts e) :
    Reads closing .values ts [e] := by
  intro count rest hmost hrest
  show Takes closing (argumentList closing count) ts rest _
  unfold argumentList
  rw [if_neg (show ¬ maxArguments ≤ count from Nat.not_le_of_lt hmost)]
  have hstops : Stops .assignment rest := stops_of_head hrest rfl
  refine Takes.bind_done (takes_call (h rest hstops)) fun e' he' => ?_
  exact takes_accept_none_of_head hrest rfl (takes_pure (congrArg (fun e => [e]) he'))

theorem reads_moreValues {comma : Token} {e : Expr} {es : List Expr}
    (h : Reads closing (.expression .assignment) ts e) (hcomma : comma.kind = .comma)
    (hothers : Reads closing .values us es) :
    Reads closing .values (ts ++ comma :: us) (e :: es) := by
  intro count rest hmost hrest
  rw [List.length_cons] at hmost
  show Takes closing (argumentList closing count) (ts ++ comma :: us) rest _
  unfold argumentList
  have hroom : ¬ maxArguments ≤ count := by
    show ¬ mostArguments ≤ count
    omega
  rw [if_neg hroom]
  have hstops : Stops .assignment (comma :: us ++ rest) := stops_cons (by rw [hcomma]; rfl)
  refine Takes.bind (takes_call (h _ hstops)) fun e' he' => ?_
  refine takes_accept_bind (by rw [hcomma]; rfl) ?_
  have hothers := takes_call (hothers (count + 1) rest (by omega) hrest)
  refine Takes.bind_done hothers fun es' hes' => takes_pure ?_
  show e'.unnumbered :: Expr.allUnnumbered es' = _
  rw [he', hes']

theorem reads_noArguments : Reads closing .arguments [] [] :=
  fun _ hrest => takes_unlessAt_absent hrest rfl

theorem reads_arguments {es : List Expr} (hstarts : Starts .values ts)
    (h : Reads closing .values ts es) (hmost : es.length ≤ mostArguments) :
    Reads closing .arguments ts es := by
  intro rest hrest
  obtain ⟨first, us, rfl, hfirst⟩ := hstarts
  have hne : first.kind ≠ .rightParen := by
    intro hkind
    rw [hkind] at hfirst
    revert hfirst
    decide
  apply takes_unlessAt_present hne
  exact takes_call (h 0 rest (by rwa [Nat.zero_add]) hrest)

/-! ## Statements -/

theorem reads_lastName {name : Token} (hname : name.kind = .identifier) :
    Reads closing .names [name] [name] := by
  intro count rest hmost hrest
  show Takes closing (parameterList closing count) [name] rest _
  unfold parameterList
  rw [if_neg (show ¬ maxArguments ≤ count from Nat.not_le_of_lt hmost)]
  apply takes_expect_bind hname
  exact takes_accept_none_of_head hrest rfl (takes_pure rfl)

theorem reads_moreNames {name comma : Token} {names : List Token}
    (hname : name.kind = .identifier) (hcomma : comma.kind = .comma)
    (hothers : Reads closing .names us names) :
    Reads closing .names (name :: comma :: us) (name :: names) := by
  intro count rest hmost hrest
  rw [List.length_cons] at hmost
  show Takes closing (parameterList closing count) (name :: comma :: us) rest _
  unfold parameterList
  have hroom : ¬ maxArguments ≤ count := by
    show ¬ mostArguments ≤ count
    omega
  rw [if_neg hroom]
  apply takes_expect_bind hname
  refine takes_accept_bind (by rw [hcomma]; rfl) ?_
  have hothers := takes_call (hothers (count + 1) rest (by omega) hrest)
  exact Takes.bind_done hothers fun names' hnames' => takes_pure (congrArg (name :: ·) hnames')

theorem reads_noParameters : Reads closing .parameters [] [] :=
  fun _ hrest => takes_unlessAt_absent hrest rfl

theorem reads_parameters {names : List Token} (hstarts : Starts .names ts)
    (h : Reads closing .names ts names) (hmost : names.length ≤ mostArguments) :
    Reads closing .parameters ts names := by
  intro rest hrest
  obtain ⟨first, us, rfl, hfirst⟩ := hstarts
  have hkind : first.kind ≠ .rightParen := by
    rw [hfirst]
    decide
  apply takes_unlessAt_present hkind
  exact takes_call (h 0 rest (by rwa [Nat.zero_add]) hrest)

theorem reads_uninitialized {name semicolon : Token} (hname : name.kind = .identifier)
    (hsemicolon : semicolon.kind = .semicolon) :
    Reads closing .varDecl [name, semicolon] (.var name none) := by
  intro rest
  apply takes_expect_bind hname
  refine takes_accept_none_bind (fun token htoken => ?_) ?_
  · obtain rfl := Option.some.inj htoken
    rw [hsemicolon]
    rfl
  · exact takes_expect_bind hsemicolon (takes_pure rfl)

theorem reads_initialized {name equal semicolon : Token} {value : Expr}
    (hname : name.kind = .identifier) (hequal : equal.kind = .equal)
    (hvalue : Reads closing (.expression .assignment) us value)
    (hsemicolon : semicolon.kind = .semicolon) :
    Reads closing .varDecl (name :: equal :: (us ++ [semicolon])) (.var name (some value)) := by
  intro rest
  apply takes_expect_bind hname
  refine takes_accept_bind (by rw [hequal]; rfl) ?_
  have hstops : Stops .assignment (semicolon :: rest) := stops_cons (by rw [hsemicolon]; rfl)
  refine Takes.bind (takes_call (hvalue _ hstops)) fun value' hvalue' => ?_
  refine takes_expect_bind hsemicolon (takes_pure ?_)
  exact congrArg (fun e => Stmt.var name (some e)) hvalue'

theorem reads_noInitializer {semicolon : Token} (hsemicolon : semicolon.kind = .semicolon) :
    Reads closing .initializer [semicolon] none :=
  fun _ => takes_accept_bind (by rw [hsemicolon]; rfl) (takes_pure rfl)

theorem reads_variableInitializer {keyword : Token} {declared : Stmt}
    (hkeyword : keyword.kind = .var) (h : Reads closing .varDecl us declared) :
    Reads closing .initializer (keyword :: us) (some declared) := by
  intro rest
  refine takes_accept_none_bind (fun token htoken => ?_) ?_
  · obtain rfl := Option.some.inj htoken
    rw [hkeyword]
    rfl
  · refine takes_accept_bind (by rw [hkeyword]; rfl) ?_
    exact Takes.bind_done (h rest) fun s hs => takes_pure (congrArg some hs)

theorem reads_expressionInitializer {semicolon : Token} {value : Expr}
    (hstarts : Starts (.expression .assignment) ts)
    (hvalue : Reads closing (.expression .assignment) ts value)
    (hsemicolon : semicolon.kind = .semicolon) :
    Reads closing .initializer (ts ++ [semicolon]) (some (.expression value)) := by
  intro rest
  obtain ⟨first, us, rfl, hfirst⟩ := hstarts
  have hnot : ∀ kind, kind ∉ expressionStarts →
      ∀ token ∈ ((first :: us) ++ [semicolon] ++ rest).head?,
        decide (token.kind = kind) = false := by
    intro kind hkind token htoken
    obtain rfl := Option.some.inj htoken
    apply decide_eq_false
    rintro rfl
    exact hkind hfirst
  apply takes_accept_none_bind (hnot .semicolon (by decide))
  apply takes_accept_none_bind (hnot .var (by decide))
  have hstops : Stops .assignment ([semicolon] ++ rest) := stops_cons (by rw [hsemicolon]; rfl)
  refine Takes.bind (takes_call (hvalue _ hstops)) fun value' hvalue' => ?_
  exact takes_expect_bind hsemicolon (takes_pure (congrArg (some ∘ Stmt.expression) hvalue'))

theorem reads_print {keyword semicolon : Token} {value : Expr} (hkeyword : keyword.kind = .print)
    (hvalue : Reads closing (.expression .assignment) us value)
    (hsemicolon : semicolon.kind = .semicolon) :
    Reads closing (.statement false) (keyword :: (us ++ [semicolon])) (.print keyword value) := by
  intro rest _
  apply takes_peek_bind
  rw [hkeyword]
  apply takes_skip_bind
  have hstops : Stops .assignment ([semicolon] ++ rest) := stops_cons (by rw [hsemicolon]; rfl)
  refine Takes.bind (takes_call (hvalue _ hstops)) fun value' hvalue' => ?_
  exact takes_expect_bind hsemicolon (takes_pure (congrArg (Stmt.print keyword) hvalue'))

/-- The condition of a statement is read up to the parenthesis behind it. -/
theorem takes_condition {opening paren : Token} {vs : List Token} {condition : Expr}
    {before behind : Expectation} {next : Expr → Reading Stmt} {good : Stmt → Prop}
    (hopening : opening.kind = before.kind)
    (hcondition : Reads closing (.expression .assignment) us condition)
    (hparen : paren.kind = .rightParen) (hbehind : behind.kind = .rightParen)
    (hnext : ∀ condition' : Expr, condition'.unnumbered = condition →
      Takes closing (next condition') vs rest good) :
    Takes closing (do
      let _ ← expect closing before
      let condition ← Routine.call anyExpression
      let _ ← expect closing behind
      next condition) (opening :: (us ++ paren :: vs)) rest good := by
  apply takes_expect_bind hopening
  have hstops : Stops .assignment (paren :: vs ++ rest) := stops_cons (by rw [hparen]; rfl)
  refine Takes.bind (takes_call (hcondition _ hstops)) fun condition' hcondition' => ?_
  exact takes_expect_bind (by rw [hparen, hbehind]) (hnext condition' hcondition')

theorem reads_ifThen {keyword opening paren : Token} {vs : List Token} {condition : Expr}
    {whenTrue : Stmt} {dangling : Bool} (hkeyword : keyword.kind = .if)
    (hopening : opening.kind = .leftParen)
    (hcondition : Reads closing (.expression .assignment) us condition)
    (hparen : paren.kind = .rightParen) (htrue : Reads closing (.statement dangling) vs whenTrue) :
    Reads closing (.statement true) (keyword :: opening :: (us ++ paren :: vs))
      (.ifThen condition whenTrue) := by
  intro rest hrest
  apply takes_peek_bind
  rw [hkeyword]
  apply takes_skip_bind
  refine takes_condition hopening hcondition hparen rfl fun condition' hcondition' => ?_
  refine Takes.bind_done (takes_call (htrue rest fun _ => hrest rfl)) fun s hs => ?_
  refine takes_accept_none_bind (fun token htoken => ?_) (takes_pure ?_)
  · exact decide_eq_false (hrest rfl token htoken)
  · show Stmt.ifThen condition'.unnumbered s.unnumbered = _
    rw [hcondition', hs]

theorem reads_ifElse {keyword opening paren otherwise : Token} {vs ws : List Token}
    {condition : Expr} {whenTrue whenFalse : Stmt} {dangling : Bool} (hkeyword : keyword.kind = .if)
    (hopening : opening.kind = .leftParen)
    (hcondition : Reads closing (.expression .assignment) us condition)
    (hparen : paren.kind = .rightParen) (htrue : Reads closing (.statement false) vs whenTrue)
    (hotherwise : otherwise.kind = .else)
    (hfalse : Reads closing (.statement dangling) ws whenFalse) :
    Reads closing (.statement dangling)
      (keyword :: opening :: (us ++ paren :: (vs ++ otherwise :: ws)))
      (.ifElse condition whenTrue whenFalse) := by
  intro rest hrest
  apply takes_peek_bind
  rw [hkeyword]
  apply takes_skip_bind
  refine takes_condition hopening hcondition hparen rfl fun condition' hcondition' => ?_
  have htrue' := takes_call (htrue (otherwise :: ws ++ rest) fun h => by cases h)
  refine Takes.bind htrue' fun s hs => ?_
  refine takes_accept_bind (by rw [hotherwise]; rfl) ?_
  refine Takes.bind_done (takes_call (hfalse rest hrest)) fun s' hs' => takes_pure ?_
  show Stmt.ifElse condition'.unnumbered s.unnumbered s'.unnumbered = _
  rw [hcondition', hs, hs']

/-- A condition that is left out always holds. -/
theorem takes_clause {kind : Token.Kind} {condition : Option Expr}
    (h : Takes closing (unlessAt closing kind none (some <$> Routine.call anyExpression)) ts rest
      fun result : Option Expr => result.map Expr.unnumbered = condition) :
    Takes closing (unlessAt closing kind (.literal (.bool true)) (Routine.call anyExpression)) ts
      rest fun result : Expr => ∃ condition' : Option Expr,
        result = condition'.getD (.literal (.bool true)) ∧
          condition'.map Expr.unnumbered = condition := by
  intro nextId
  obtain ⟨result, nextId', hresult, hends⟩ := h nextId
  refine ⟨result.getD (.literal (.bool true)), nextId', ⟨result, rfl, hresult⟩, ?_⟩
  unfold unlessAt at hends ⊢
  obtain ⟨token, reached, hpeek, hends⟩ | ⟨_, _, _, hends⟩ := Routine.ends_bind.1 hends
  · apply hpeek.bind
    by_cases hkind : token.kind = kind
    · rw [if_pos hkind] at hends ⊢
      cases Routine.ends_pure.1 hends
      exact Routine.ends_pure.2 rfl
    · rw [if_neg hkind] at hends ⊢
      obtain ⟨e, reached', hcall, hends⟩ | ⟨_, _, _, hends⟩ := Routine.ends_bind.1 hends
      · cases Routine.ends_pure.1 hends
        exact hcall
      · cases hends
  · cases hends

theorem reads_while {keyword opening paren : Token} {vs : List Token} {condition : Expr}
    {body : Stmt} {dangling : Bool} (hkeyword : keyword.kind = .while)
    (hopening : opening.kind = .leftParen)
    (hcondition : Reads closing (.expression .assignment) us condition)
    (hparen : paren.kind = .rightParen) (hbody : Reads closing (.statement dangling) vs body) :
    Reads closing (.statement dangling) (keyword :: opening :: (us ++ paren :: vs))
      (.while condition body) := by
  intro rest hrest
  apply takes_peek_bind
  rw [hkeyword]
  apply takes_skip_bind
  refine takes_condition hopening hcondition hparen rfl fun condition' hcondition' => ?_
  refine Takes.bind_done (takes_call (hbody rest hrest)) fun s hs => takes_pure ?_
  show Stmt.while condition'.unnumbered s.unnumbered = _
  rw [hcondition', hs]

theorem reads_for {keyword opening semicolon paren : Token} {vs ws xs : List Token}
    {first : Option Stmt} {condition increment : Option Expr} {body : Stmt} {dangling : Bool}
    (hkeyword : keyword.kind = .for) (hopening : opening.kind = .leftParen)
    (hfirst : Reads closing .initializer us first)
    (hcondition : Reads closing .optional vs condition)
    (hsemicolon : semicolon.kind = .semicolon) (hincrement : Reads closing .optional ws increment)
    (hparen : paren.kind = .rightParen) (hbody : Reads closing (.statement dangling) xs body) :
    Reads closing (.statement dangling)
      (keyword :: opening :: (us ++ (vs ++ semicolon :: (ws ++ paren :: xs))))
      (loop first condition increment body) := by
  intro rest hrest
  apply takes_peek_bind
  rw [hkeyword]
  apply takes_skip_bind
  apply takes_expect_bind hopening
  refine Takes.bind (hfirst _) fun first' hfirst' => ?_
  have hnext : ∃ token ∈ (semicolon :: (ws ++ paren :: xs) ++ rest).head?,
      token.kind = .semicolon := ⟨semicolon, rfl, hsemicolon⟩
  refine Takes.bind (takes_clause (hcondition _ _ (by decide) rfl hnext)) fun c hc => ?_
  apply takes_expect_bind hsemicolon
  have hnext : ∃ token ∈ (paren :: xs ++ rest).head?, token.kind = .rightParen :=
    ⟨paren, rfl, hparen⟩
  refine Takes.bind (hincrement _ _ (by decide) rfl hnext) fun increment' hincrement' => ?_
  apply takes_expect_bind hparen
  refine Takes.bind_done (takes_call (hbody rest hrest)) fun s hs => takes_pure ?_
  obtain ⟨condition', rfl, hcondition'⟩ := hc
  exact (unnumbered_forLoop first' condition' increment' s).trans
    (by rw [hfirst', hcondition', hincrement', hs])

theorem reads_return {keyword semicolon : Token} {value : Option Expr}
    (hkeyword : keyword.kind = .return) (hvalue : Reads closing .optional us value)
    (hsemicolon : semicolon.kind = .semicolon) :
    Reads closing (.statement false) (keyword :: (us ++ [semicolon])) (.return keyword value) := by
  intro rest _
  apply takes_peek_bind
  rw [hkeyword]
  apply takes_skip_bind
  have hnext : ∃ token ∈ ([semicolon] ++ rest).head?, token.kind = .semicolon :=
    ⟨semicolon, rfl, hsemicolon⟩
  refine Takes.bind (hvalue _ _ (by decide) rfl hnext) fun value' hvalue' => ?_
  refine takes_expect_bind hsemicolon (takes_pure ?_)
  subst hvalue'
  cases value' <;> rfl

theorem reads_block {opening brace : Token} {body : List Stmt}
    (hopening : opening.kind = .leftBrace) (hbody : Reads closing .declarations us body)
    (hbrace : brace.kind = .rightBrace) :
    Reads closing (.statement false) (opening :: (us ++ [brace])) (.block body) := by
  intro rest _
  apply takes_peek_bind
  rw [hopening]
  apply takes_skip_bind
  refine Takes.bind_done (takes_call (hbody.1 brace rest hbrace)) fun ss hss => takes_pure ?_
  exact congrArg Stmt.block hss

theorem reads_expression {semicolon : Token} {value : Expr}
    (hstarts : Starts (.expression .assignment) ts)
    (hvalue : Reads closing (.expression .assignment) ts value)
    (hsemicolon : semicolon.kind = .semicolon) :
    Reads closing (.statement false) (ts ++ [semicolon]) (.expression value) := by
  intro rest _
  have hstops : Stops .assignment ([semicolon] ++ rest) := stops_cons (by rw [hsemicolon]; rfl)
  have hread : Takes closing (do
      let value ← Routine.call anyExpression
      let _ ← expect closing .semicolonAfterExpression
      pure (Stmt.expression value)) (ts ++ [semicolon]) rest
        (·.unnumbered = .expression value) := by
    refine Takes.bind (takes_call (hvalue _ hstops)) fun value' hvalue' => ?_
    exact takes_expect_bind hsemicolon (takes_pure (congrArg Stmt.expression hvalue'))
  obtain ⟨first, us, rfl, hfirst⟩ := hstarts
  apply takes_peek_bind
  generalize first.kind = kind at hfirst ⊢
  cases kind <;> first | exact hread | exact absurd hfirst (by decide)

theorem reads_function {keyword name opening paren brace closingBrace : Token} {vs : List Token}
    {declared : List Token} {body : List Stmt} (hkeyword : keyword.kind = .fun)
    (hname : name.kind = .identifier) (hopening : opening.kind = .leftParen)
    (hdeclared : Reads closing .parameters us declared) (hparen : paren.kind = .rightParen)
    (hbrace : brace.kind = .leftBrace) (hbody : Reads closing .declarations vs body)
    (hclosingBrace : closingBrace.kind = .rightBrace) :
    Reads closing .declaration
      (keyword :: name :: opening :: (us ++ paren :: brace :: (vs ++ [closingBrace])))
      (.function name declared body) := by
  intro rest _
  apply takes_peek_bind
  rw [hkeyword]
  apply takes_skip_bind
  apply takes_expect_bind hname
  apply takes_expect_bind hopening
  have hnext : ∃ token ∈ (paren :: brace :: (vs ++ [closingBrace]) ++ rest).head?,
      token.kind = .rightParen := ⟨paren, rfl, hparen⟩
  refine Takes.bind (hdeclared _ hnext) fun declared' hdeclared' => ?_
  apply takes_expect_bind hparen
  apply takes_expect_bind hbrace
  refine Takes.bind_done (takes_call (hbody.1 closingBrace rest hclosingBrace)) fun ss hss => ?_
  apply takes_pure
  show Stmt.function name declared' (Stmt.allUnnumbered ss) = _
  rw [hdeclared', hss]

theorem reads_var {keyword : Token} {declared : Stmt} (hkeyword : keyword.kind = .var)
    (h : Reads closing .varDecl us declared) :
    Reads closing .declaration (keyword :: us) declared := by
  intro rest _
  apply takes_peek_bind
  rw [hkeyword]
  exact takes_skip_bind (h rest)

theorem reads_statement {dangling : Bool} {s : Stmt} (hstarts : Starts (.statement dangling) ts)
    (h : Reads closing (.statement dangling) ts s) : Reads closing .declaration ts s := by
  intro rest hrest
  have hread := takes_jump (h rest fun _ => hrest)
  obtain ⟨first, us, rfl, hfirst⟩ := hstarts
  apply takes_peek_bind
  generalize first.kind = kind at hfirst ⊢
  cases kind <;> first | exact hread | exact absurd hfirst (by decide)

theorem reads_noDeclarations : Reads closing .declarations [] [] := by
  constructor
  · intro brace rest hbrace
    apply takes_peek_bind
    rw [hbrace]
    exact takes_expect_bind hbrace (takes_pure rfl)
  · intro nextId
    refine ⟨[], nextId, ⟨[], rfl, rfl⟩, Routine.Ends.bind (Routine.ends_gets.2 rfl) ?_⟩
    exact Routine.ends_pure.2 rfl

theorem reads_moreDeclarations {s : Stmt} {ss : List Stmt} (hstarts : Starts .declaration ts)
    (hstarts' : Starts .declarations us) (h : Reads closing .declaration ts s)
    (hothers : Reads closing .declarations us ss) :
    Reads closing .declarations (ts ++ us) (s :: ss) := by
  obtain ⟨first, vs, rfl, hfirst⟩ := hstarts
  have hnotElse : ∀ rest : List Token, (∀ token ∈ rest.head?, token.kind ≠ .else) →
      ∀ token ∈ (us ++ rest).head?, token.kind ≠ .else := by
    intro rest hrest
    cases us with
    | nil => exact hrest
    | cons next us =>
      intro token htoken hkind
      have hmem := hstarts' token htoken
      rw [hkind] at hmem
      revert hmem
      decide
  constructor
  · intro brace rest hbrace
    rw [List.append_assoc]
    apply takes_peek_bind
    have hgoesOn :
        (decide (first.kind = .rightBrace) || decide (first.kind = .endOfInput)) ≠ true := by
      generalize first.kind = kind at hfirst
      revert kind
      decide
    rw [if_neg hgoesOn]
    have hbraceNotElse : ∀ token ∈ ([brace] ++ rest).head?, token.kind ≠ .else := by
      intro token htoken
      obtain rfl := Option.some.inj htoken
      rw [hbrace]
      decide
    have hread := h (us ++ [brace] ++ rest)
      (by rw [List.append_assoc]; exact hnotElse _ hbraceNotElse)
    refine Takes.bind (takes_call hread) fun s' hs' => ?_
    refine Takes.bind_done (takes_call (hothers.1 brace rest hbrace)) fun ss' hss' => ?_
    apply takes_pure
    show s'.unnumbered :: Stmt.allUnnumbered ss' = _
    rw [hs', hss']
  · have hread := h (us ++ []) (hnotElse [] fun _ htoken => by cases htoken)
    apply takes_atEnd_bind
    have hnotEmpty : ¬ (first :: vs ++ us ++ []).isEmpty = true := Bool.false_ne_true
    rw [if_neg hnotEmpty]
    refine Takes.bind (takes_attempt (takes_call hread)) fun result hresult => ?_
    obtain ⟨s', rfl, hs'⟩ := hresult
    refine Takes.bind_done (takes_call hothers.2) fun results hresults => ?_
    obtain ⟨ss', rfl, hss'⟩ := hresults
    refine takes_pure ⟨s' :: ss', rfl, ?_⟩
    show s'.unnumbered :: Stmt.allUnnumbered ss' = _
    rw [hs', hss']

/-- Whatever the grammar derives is read, and reading builds the tree of the derivation. -/
theorem reads_of_derives {symbol : Symbol} {tree : symbol.Tree} (h : Derives symbol ts tree) :
    Reads closing symbol ts tree := by
  induction h with
  | assign hname hequal hvalue ih => exact reads_assign hname hequal ih
  | compound hname hoperator hvalue ih => exact reads_compound hname hoperator ih
  | noAssignment h ih => exact reads_noAssignment ih
  | conditional hcondition hquestion htrue hcolon hfalse ihCondition ihTrue ihFalse =>
    exact reads_conditional ihCondition hquestion ihTrue hcolon ihFalse
  | noConditional h ih => exact reads_noConditional ih
  | operation hleft hoperator hright ihLeft ihRight =>
    exact reads_operation ihLeft hoperator ihRight
  | noOperation h ih => exact reads_noOperation ih
  | unary hoperator hoperand ih => exact reads_unary hoperator ih
  | noUnary h ih => exact reads_noUnary h.starts ih
  | call hcallee hopening hpassed hparen ihCallee ihPassed =>
    exact reads_call ihCallee hopening ihPassed hparen
  | noCall h ih => exact reads_noCall ih
  | falseLiteral h | trueLiteral h | nilLiteral h =>
    intro rest
    apply takes_peek_bind
    rw [h]
    exact takes_skip_bind (takes_pure rfl)
  | numberLiteral h hliteral | stringLiteral h hliteral => exact reads_literal h hliteral rfl
  | read h => exact reads_read h
  | group hopening hinner hclosing ih => exact reads_group hopening ih hclosing
  | host hkeyword hopening hcode hclosing ih => exact reads_host hkeyword hopening ih hclosing
  | absent => exact reads_absent
  | present h ih => exact reads_present h.starts ih
  | lastValue h ih => exact reads_lastValue ih
  | moreValues h hcomma hothers ih ihOthers => exact reads_moreValues ih hcomma ihOthers
  | noArguments => exact reads_noArguments
  | arguments h hmost ih => exact reads_arguments h.starts ih hmost
  | lastName h => exact reads_lastName h
  | moreNames h hcomma hothers ih => exact reads_moreNames h hcomma ih
  | noParameters => exact reads_noParameters
  | parameters h hmost ih => exact reads_parameters h.starts ih hmost
  | uninitialized hname hsemicolon => exact reads_uninitialized hname hsemicolon
  | initialized hname hequal hvalue hsemicolon ih =>
    exact reads_initialized hname hequal ih hsemicolon
  | noInitializer hsemicolon => exact reads_noInitializer hsemicolon
  | variableInitializer hkeyword h ih => exact reads_variableInitializer hkeyword ih
  | expressionInitializer h hsemicolon ih =>
    exact reads_expressionInitializer h.starts ih hsemicolon
  | print hkeyword hvalue hsemicolon ih => exact reads_print hkeyword ih hsemicolon
  | ifThen hkeyword hopening hcondition hclosing htrue ihCondition ihTrue =>
    exact reads_ifThen hkeyword hopening ihCondition hclosing ihTrue
  | ifElse hkeyword hopening hcondition hclosing htrue hotherwise hfalse ihCondition ihTrue
      ihFalse =>
    exact reads_ifElse hkeyword hopening ihCondition hclosing ihTrue hotherwise ihFalse
  | «while» hkeyword hopening hcondition hclosing hbody ihCondition ihBody =>
    exact reads_while hkeyword hopening ihCondition hclosing ihBody
  | «for» hkeyword hopening hfirst hcondition hsemicolon hincrement hclosing hbody ihFirst
      ihCondition ihIncrement ihBody =>
    exact reads_for hkeyword hopening ihFirst ihCondition hsemicolon ihIncrement hclosing ihBody
  | «return» hkeyword hvalue hsemicolon ih => exact reads_return hkeyword ih hsemicolon
  | block hopening hbody hclosing ih => exact reads_block hopening ih hclosing
  | expression hvalue hsemicolon ih => exact reads_expression hvalue.starts ih hsemicolon
  | function hkeyword hname hopening hdeclared hclosing hbrace hbody hclosingBrace ihDeclared
      ihBody =>
    exact reads_function hkeyword hname hopening ihDeclared hclosing hbrace ihBody hclosingBrace
  | var hkeyword h ih => exact reads_var hkeyword ih
  | statement h ih => exact reads_statement h.starts ih
  | noDeclarations => exact reads_noDeclarations
  | moreDeclarations h hothers ih ihOthers =>
    exact reads_moreDeclarations h.starts hothers.starts ih ihOthers

end Phrase

/-- The end of the text is no token of the grammar. -/
theorem Grammar.Derives.kind_ne_endOfInput {symbol : Grammar.Symbol} {ts : List Token}
    {tree : symbol.Tree} (h : Grammar.Derives symbol ts tree) :
    ∀ token ∈ ts, token.kind ≠ .endOfInput := by
  have hoperators : ∀ level, ∀ kind ∈ Grammar.operators level, kind ≠ .endOfInput := by
    intro level
    cases level <;> decide
  induction h with
  | operation _ hoperator _ ihLeft ihRight =>
    exact List.forall_mem_append.2 ⟨ihLeft,
      List.forall_mem_cons.2 ⟨hoperators _ _ hoperator, ihRight⟩⟩
  | function =>
    simp only [List.forall_mem_cons, List.forall_mem_append]
    grind
  | _ => grind

namespace Program

/-- The grammar derives the tokens of an accepted program, up to its end, with the tree that its
statements are. -/
theorem derives_of_ofTokens {tokens : List Token} {nextId next : AccessId} {program : List Stmt}
    (h : ofTokens tokens nextId = (.ok program, next)) :
    Grammar.Derives .declarations (tokens.takeWhile (·.kind ≠ .endOfInput))
      (Stmt.allUnnumbered program) := by
  obtain ⟨reader, hdeclarations, -⟩ := ofTokens_eq_ok_iff.1 h
  have hends := ends_reading tokens nextId
  rw [hdeclarations] at hends
  obtain ⟨ts, hts, hrest, hderives⟩ := Phrase.derived_of_read (kind_closing tokens) hends
  have hderives := hderives program rfl
  rw [hrest, List.append_nil] at hts
  rwa [← hts] at hderives

/-- Tokens that the grammar derives are accepted, whatever number is the next. -/
theorem exists_ofTokens_of_derives {tokens : List Token} {tree : List Stmt}
    (h : Grammar.Derives .declarations (tokens.takeWhile (·.kind ≠ .endOfInput)) tree)
    (nextId : AccessId) :
    ∃ program next, ofTokens tokens nextId = (.ok program, next) ∧
      Stmt.allUnnumbered program = tree := by
  have hreads : Phrase.Reads (closing tokens) .declarations _ tree := Phrase.reads_of_derives h
  obtain ⟨results, nextId', ⟨program, rfl, hprogram⟩, hends⟩ := hreads.2 nextId
  rw [List.append_nil] at hends
  have hdeclarations := (ends_reading tokens nextId).unique hends
  exact ⟨program, nextId', ofTokens_eq_ok_iff.2 ⟨_, hdeclarations, rfl⟩, hprogram⟩

theorem takeWhile_endOfInput {tokens : List Token} (h : ∀ token ∈ tokens, token.kind ≠ .endOfInput)
    (last : Nat) :
    (tokens ++ [Token.endOfInput last]).takeWhile (·.kind ≠ .endOfInput) = tokens := by
  rw [List.takeWhile_append_of_pos fun token htoken => decide_eq_true (h token htoken),
    List.takeWhile_cons_of_neg (by simp [Token.endOfInput]), List.append_nil]

/-- What the grammar derives is accepted with the end of a text behind it. -/
theorem exists_ofTokens_append {ts : List Token} {tree : List Stmt}
    (h : Grammar.Derives .declarations ts tree) (last : Nat) (nextId : AccessId) :
    ∃ program next, ofTokens (ts ++ [Token.endOfInput last]) nextId = (.ok program, next) ∧
      Stmt.allUnnumbered program = tree := by
  rw [← takeWhile_endOfInput h.kind_ne_endOfInput last] at h
  exact exists_ofTokens_of_derives h nextId

/-- Which number is the next matters only for the numbers in the tree. -/
theorem exists_ofTokens_of_ofTokens {tokens : List Token} {nextId next : AccessId}
    {program : List Stmt} (h : ofTokens tokens nextId = (.ok program, next))
    (nextId' : AccessId) :
    ∃ program' next', ofTokens tokens nextId' = (.ok program', next') ∧
      Stmt.allUnnumbered program' = Stmt.allUnnumbered program :=
  exists_ofTokens_of_derives (derives_of_ofTokens h) nextId'

/-- A program is accepted exactly if the grammar derives its tokens, up to its end, and its
statements are the tree of the derivation, apart from the numbers that accesses carry. -/
theorem ofTokens_eq_ok_iff_derives (tokens : List Token) (nextId : AccessId) (tree : List Stmt) :
    (∃ program next, ofTokens tokens nextId = (.ok program, next) ∧
        Stmt.allUnnumbered program = tree) ↔
      Grammar.Derives .declarations (tokens.takeWhile (·.kind ≠ .endOfInput)) tree := by
  constructor
  · rintro ⟨program, next, hprogram, rfl⟩
    exact derives_of_ofTokens hprogram
  · intro h
    exact exists_ofTokens_of_derives h nextId

end Program

end Lox
