/-
# What is read is derived

Every phrase that is read successfully takes tokens off the front of those left, and the grammar
derives exactly these, with the tree that reading built. `Fits` says so for each phrase. The phrases
that go on behind an operand, or behind a callee, extend a derivation that is there already, which
is how a loop from left to right comes to agree with a rule that recurs on the left.

A statement that dangles is never left in front of an `else`: it would have taken the `else` itself.
-/

import Lox.Proofs.Grammar.Basic
import Lox.Proofs.Grammar.Reading

namespace Lox

theorem Expr.length_allUnnumbered (es : List Expr) :
    (Expr.allUnnumbered es).length = es.length := by
  induction es with
  | nil => rfl
  | cons e es ih => simp only [allUnnumbered, List.length_cons, ih]

namespace Grammar

open Phrase (Level)

theorem has_iff_mem_operators {level : Level} {kind : Token.Kind} :
    level.has kind = true ↔ kind ∈ operators level := by
  cases level <;> simp [Level.has, operators, or_assoc]

theorem unnumbered_join (level : Level) (left right : Expr) (operator : Token) :
    (level.join left operator right).unnumbered =
      joined level left.unnumbered operator right.unnumbered := by
  cases level <;> rfl

theorem unnumbered_forLoop (first : Option Stmt) (condition increment : Option Expr) (body : Stmt) :
    (Phrase.forLoop first (condition.getD (.literal (.bool true))) increment body).unnumbered =
      loop (first.map Stmt.unnumbered) (condition.map Expr.unnumbered)
        (increment.map Expr.unnumbered) body.unnumbered := by
  cases first <;> cases condition <;> cases increment <;> rfl

/-- A derivation whose tree is a bare name derives nothing else. -/
theorem Derives.eq_singleton_of_read {symbol : Symbol} {ts : List Token} {tree : symbol.Tree}
    (h : Derives symbol ts tree) {name : Token} {form : Form} (hsymbol : symbol = .expression form)
    (htree : HEq tree (Expr.read 0 name)) : ts = [name] ∧ name.kind = .identifier := by
  induction h generalizing form with
  | noAssignment h ih | noConditional h ih | noOperation h ih | noUnary h ih | noCall h ih =>
    exact ih rfl htree
  | operation hleft hoperator hright =>
    have := eq_of_heq htree
    simp only [joined] at this
    split at this <;> cases this
  | read h =>
    cases eq_of_heq htree
    exact ⟨rfl, h⟩
  | _ => cases hsymbol <;> cases eq_of_heq htree

end Grammar

namespace Phrase

open Grammar

/-- What a phrase was read as belongs to a derivation of the tokens that were read; `rest` are the
tokens behind them. -/
def Fits : (phrase : Phrase) → (result : phrase.Result) → (ts rest : List Token) → Prop
  | .expression .assignment, e, ts, _ => Derives (.expression .assignment) ts e.unnumbered
  | .expression .conditional, e, ts, _ => Derives (.expression .conditional) ts e.unnumbered
  | .expression (.operation level), e, ts, _ =>
    Derives (.expression (.operation level)) ts e.unnumbered
  | .expression (.operations level left), e, ts, _ =>
    ∀ us, Derives (.expression (.operation level)) us left.unnumbered →
      Derives (.expression (.operation level)) (us ++ ts) e.unnumbered
  | .expression .unary, e, ts, _ => Derives (.expression .unary) ts e.unnumbered
  | .expression .call, e, ts, _ => Derives (.expression .call) ts e.unnumbered
  | .expression (.calls callee), e, ts, _ =>
    ∀ us, Derives (.expression .call) us callee.unnumbered →
      Derives (.expression .call) (us ++ ts) e.unnumbered
  | .arguments count, es, ts, _ =>
    Derives .values ts (Expr.allUnnumbered es) ∧ count + es.length ≤ mostArguments
  | .parameters count, names, ts, _ =>
    Derives .names ts names ∧ count + names.length ≤ mostArguments
  | .declaration, s, ts, _ => Derives .declaration ts s.unnumbered
  | .statement, s, ts, rest =>
    ∃ dangling, Derives (.statement dangling) ts s.unnumbered ∧
      (dangling = true → ∀ token ∈ rest.head?, token.kind ≠ .else)
  | .block, ss, ts, _ =>
    ∃ us closing, ts = us ++ [closing] ∧ closing.kind = .rightBrace ∧
      Derives .declarations us (Stmt.allUnnumbered ss)
  | .program, results, ts, rest =>
    rest = [] ∧ ∀ ss, results = ss.map .ok → Derives .declarations ts (Stmt.allUnnumbered ss)

/-- The specification that reading keeps to: tokens are taken off the front, and the result fits
them. -/
def derived : Spec := fun phrase before result after =>
  ∃ ts, before.rest = ts ++ after.rest ∧ Fits phrase result ts after.rest

variable {closing : Token} {reader : Reader}

theorem fits_operand {level : Level} {e : Expr} {ts rest : List Token} :
    Fits (.expression level.operand) e ts rest ↔
      Derives (.expression (tighter level)) ts e.unnumbered := by
  cases level <;> exact Iff.rfl

/-! ## Expressions -/

section Expressions

variable (hclosing : closing.kind = .endOfInput)

theorem yields_assignment {target value : Expr} {operator : Token} {ts us : List Token}
    {start : Reader} (hoperator : assigns operator.kind = true)
    (htarget : Derives (.expression .conditional) ts target.unnumbered)
    (hvalue : Derives (.expression .assignment) us value.unnumbered)
    (hstart : start.rest = ts ++ operator :: (us ++ reader.rest)) :
    Yields derived (assignment target operator value) reader
      (derived (.expression .assignment) start) := by
  cases target with
  | read id name =>
    obtain ⟨rfl, hname⟩ := htarget.eq_singleton_of_read rfl HEq.rfl
    unfold assignment
    dsimp only
    split
    · rename_i hequal
      refine yields_freshId_bind fun reader₁ h₁ _ => ?_
      apply yields_pure
      exact ⟨name :: operator :: us, by simp [hstart, h₁], .assign hname hequal hvalue⟩
    · rename_i hequal
      refine yields_freshId_bind fun reader₁ h₁ _ => ?_
      refine yields_freshId_bind fun reader₂ h₂ _ => ?_
      apply yields_pure
      have hcompound : operator.kind = .plusEqual ∨ operator.kind = .minusEqual := by
        simpa [assigns, hequal] using hoperator
      exact ⟨name :: operator :: us, by simp [hstart, h₁, h₂], .compound hname hcompound hvalue⟩
  | _ => exact yields_fail

include hclosing

theorem yields_primary :
    Yields derived (primary closing) reader fun e reached =>
      ∃ ts, reader.rest = ts ++ reached.rest ∧ Derives (.expression .primary) ts e.unnumbered := by
  unfold primary
  refine yields_peek_bind hclosing fun token htoken => ?_
  have hsingle : ∀ e : Expr, token.kind ≠ .endOfInput →
      Derives (.expression .primary) [token] e.unnumbered →
      ∀ reached : Reader, reached.rest = reader.rest.tail → reached.nextId = reader.nextId →
        Yields derived (pure e) reached fun e reached =>
          ∃ ts, reader.rest = ts ++ reached.rest ∧
            Derives (.expression .primary) ts e.unnumbered := by
    intro e hkind he reached hrest _
    exact yields_pure ⟨[token], by rw [hrest]; exact htoken hkind, he⟩
  split <;> rename_i hkind
  all_goals try exact yields_fail
  all_goals have hend : token.kind ≠ .endOfInput := by simp [hkind]
  · exact yields_skip_bind (hsingle _ hend (.falseLiteral hkind))
  · exact yields_skip_bind (hsingle _ hend (.trueLiteral hkind))
  · exact yields_skip_bind (hsingle _ hend (.nilLiteral hkind))
  · split <;> rename_i hliteral
    · exact yields_skip_bind (hsingle _ hend (.numberLiteral (.inl hkind) hliteral))
    · exact yields_skip_bind (hsingle _ hend (.stringLiteral (.inl hkind) hliteral))
    · exact yields_fail
  · split <;> rename_i hliteral
    · exact yields_skip_bind (hsingle _ hend (.numberLiteral (.inr hkind) hliteral))
    · exact yields_skip_bind (hsingle _ hend (.stringLiteral (.inr hkind) hliteral))
    · exact yields_fail
  · refine yields_freshId_bind fun reader₁ h₁ _ => ?_
    refine yields_skip_bind fun reader₂ h₂ _ => ?_
    exact yields_pure ⟨[token], by rw [h₂, h₁]; exact htoken hend, .read hkind⟩
  · refine yields_skip_bind fun reader₁ h₁ _ => ?_
    refine yields_call_bind fun inner reader₂ hinner => ?_
    obtain ⟨us, hus, hinner⟩ := hinner
    refine yields_expect_bind fun paren reader₃ h₃ _ hparen => ?_
    refine yields_pure ⟨token :: (us ++ [paren]), ?_, .group hkind hinner hparen⟩
    rw [htoken hend, ← h₁, hus, h₃]
    simp
  · refine yields_skip_bind fun reader₁ h₁ _ => ?_
    refine yields_expect_bind fun opening reader₂ h₂ _ hopening => ?_
    refine yields_call_bind fun code reader₃ hcode => ?_
    obtain ⟨us, hus, hcode⟩ := hcode
    refine yields_expect_bind fun paren reader₄ h₄ _ hparen => ?_
    refine yields_pure ⟨token :: opening :: (us ++ [paren]), ?_, .host hkind hopening hcode hparen⟩
    rw [htoken hend, ← h₁, h₂, hus, h₄]
    simp

theorem yields_form (f : Form) :
    Yields derived (form closing f) reader (derived (.expression f) reader) := by
  cases f with
  | assignment =>
    refine yields_call_bind fun target reader₁ htarget => ?_
    obtain ⟨ts, hts, htarget⟩ := htarget
    refine yields_accept_bind (fun operator reader₂ h₂ _ hoperator => ?_) fun _ => ?_
    · refine yields_call_bind fun value reader₃ hvalue => ?_
      obtain ⟨us, hus, hvalue⟩ := hvalue
      exact yields_assignment hoperator htarget hvalue (by rw [hts, h₂, hus])
    · exact yields_pure ⟨ts, hts, .noAssignment htarget⟩
  | conditional =>
    refine yields_call_bind fun condition reader₁ hcondition => ?_
    obtain ⟨ts, hts, hcondition⟩ := hcondition
    refine yields_accept_bind (fun question reader₂ h₂ _ hquestion => ?_) fun _ => ?_
    · refine yields_call_bind fun whenTrue reader₃ htrue => ?_
      obtain ⟨us, hus, htrue⟩ := htrue
      refine yields_expect_bind fun colon reader₄ h₄ _ hcolon => ?_
      refine yields_call_bind fun whenFalse reader₅ hfalse => ?_
      obtain ⟨vs, hvs, hfalse⟩ := hfalse
      refine yields_pure ⟨ts ++ question :: (us ++ colon :: vs), ?_, ?_⟩
      · rw [hts, h₂, hus, h₄, hvs]
        simp
      · exact .conditional hcondition (of_decide_eq_true hquestion) htrue hcolon hfalse
    · exact yields_pure ⟨ts, hts, .noConditional hcondition⟩
  | operation level =>
    refine yields_call_bind fun left reader₁ hleft => ?_
    obtain ⟨ts, hts, hleft⟩ := hleft
    refine yields_jump fun e reader₂ he => ?_
    obtain ⟨us, hus, he⟩ := he
    refine ⟨ts ++ us, ?_, he ts (.noOperation (fits_operand.1 hleft))⟩
    rw [hts, hus, List.append_assoc]
  | operations level left =>
    refine yields_accept_bind (fun operator reader₁ h₁ _ hoperator => ?_) fun _ => ?_
    · refine yields_call_bind fun right reader₂ hright => ?_
      obtain ⟨us, hus, hright⟩ := hright
      refine yields_jump fun e reader₃ he => ?_
      obtain ⟨vs, hvs, he⟩ := he
      refine ⟨operator :: (us ++ vs), ?_, fun ts hleft => ?_⟩
      · rw [h₁, hus, hvs]
        simp
      · have hjoin := Derives.operation hleft (has_iff_mem_operators.1 hoperator)
          (fits_operand.1 hright)
        rw [← unnumbered_join] at hjoin
        simpa using he _ hjoin
    · exact yields_pure ⟨[], rfl, fun ts hleft => by simpa using hleft⟩
  | unary =>
    refine yields_accept_bind (fun operator reader₁ h₁ _ hoperator => ?_) fun _ => ?_
    · refine yields_call_bind fun operand reader₂ hoperand => ?_
      obtain ⟨us, hus, hoperand⟩ := hoperand
      refine yields_pure ⟨operator :: us, by rw [h₁, hus]; rfl, ?_⟩
      exact .unary (by simpa using hoperator) hoperand
    · refine yields_jump fun e reader₁ he => ?_
      obtain ⟨ts, hts, he⟩ := he
      exact ⟨ts, hts, .noUnary he⟩
  | call =>
    refine Yields.bind (Yields.mono (yields_primary hclosing) fun callee reader₁ hcallee => ?_)
    obtain ⟨ts, hts, hcallee⟩ := hcallee
    refine yields_jump fun e reader₂ he => ?_
    obtain ⟨us, hus, he⟩ := he
    refine ⟨ts ++ us, ?_, he ts (.noCall hcallee)⟩
    rw [hts, hus, List.append_assoc]
  | calls callee =>
    refine yields_accept_bind (fun opening reader₁ h₁ _ hopening => ?_) fun _ => ?_
    · have hclose : ∀ (passed : List Expr) (reader₂ : Reader) (us : List Token),
          reader₁.rest = us ++ reader₂.rest → Derives .arguments us (Expr.allUnnumbered passed) →
          Yields derived (do
            let paren ← expect closing .parenAfterArguments
            Routine.jump (expression (.calls (.call callee paren passed)))) reader₂
            (derived (.expression (.calls callee)) reader) := by
        intro passed reader₂ us hus hpassed
        refine yields_expect_bind fun paren reader₃ h₃ _ hparen => ?_
        refine yields_jump fun e reader₄ he => ?_
        obtain ⟨vs, hvs, he⟩ := he
        refine ⟨opening :: (us ++ paren :: vs), ?_, fun ts hcallee => ?_⟩
        · rw [h₁, hus, h₃, hvs]
          simp
        · have hcall := Derives.call hcallee (of_decide_eq_true hopening) hpassed hparen
          simpa using he _ hcall
      refine yields_unlessAt_bind hclosing ?_ ?_
      · exact hclose [] _ [] rfl .noArguments
      · refine yields_call_bind fun passed reader₂ hpassed => ?_
        obtain ⟨us, hus, hpassed, hmost⟩ := hpassed
        refine hclose passed reader₂ us hus (.arguments hpassed ?_)
        rw [Expr.length_allUnnumbered]
        omega
    · exact yields_pure ⟨[], rfl, fun ts hcallee => by simpa using hcallee⟩

/-- What may be left out at a token of one kind is an expression or nothing. -/
theorem yields_optional {kind : Token.Kind} :
    Yields derived (unlessAt closing kind none (some <$> Routine.call anyExpression)) reader
      fun e reached =>
        ∃ ts, reader.rest = ts ++ reached.rest ∧ Derives .optional ts (e.map Expr.unnumbered) := by
  unfold unlessAt
  refine yields_peek_bind hclosing fun token _ => ?_
  split
  · exact yields_pure ⟨[], rfl, .absent⟩
  · rw [Routine.map_eq_bind]
    refine yields_call_bind fun e reader₁ he => ?_
    obtain ⟨ts, hts, he⟩ := he
    exact yields_pure ⟨ts, hts, .present he⟩

omit hclosing

theorem yields_argumentList (count : Nat) :
    Yields derived (argumentList closing count) reader (derived (.arguments count) reader) := by
  unfold argumentList
  split
  · exact yields_reject
  · rename_i hcount
    have hmost : maxArguments = mostArguments := rfl
    refine yields_call_bind fun argument reader₁ hargument => ?_
    obtain ⟨ts, hts, hargument⟩ := hargument
    refine yields_accept_bind (fun comma reader₂ h₂ _ hcomma => ?_) fun _ => ?_
    · refine yields_call_bind fun others reader₃ hothers => ?_
      obtain ⟨us, hus, hothers, hlength⟩ := hothers
      refine yields_pure ⟨ts ++ comma :: us, ?_, ?_, ?_⟩
      · rw [hts, h₂, hus]
        simp
      · exact .moreValues hargument (of_decide_eq_true hcomma) hothers
      · show count + (List.length others + 1) ≤ mostArguments
        omega
    · refine yields_pure ⟨ts, hts, .lastValue hargument, ?_⟩
      show count + 1 ≤ mostArguments
      omega

end Expressions

/-! ## Statements -/

section Statements

theorem yields_parameterList (count : Nat) :
    Yields derived (parameterList closing count) reader (derived (.parameters count) reader) := by
  unfold parameterList
  split
  · exact yields_reject
  · rename_i hcount
    have hmost : maxArguments = mostArguments := rfl
    refine yields_expect_bind fun parameter reader₁ h₁ _ hparameter => ?_
    refine yields_accept_bind (fun comma reader₂ h₂ _ hcomma => ?_) fun _ => ?_
    · refine yields_call_bind fun others reader₃ hothers => ?_
      obtain ⟨us, hus, hothers, hlength⟩ := hothers
      refine yields_pure ⟨parameter :: comma :: us, ?_, ?_, ?_⟩
      · rw [h₁, h₂, hus]
        rfl
      · exact .moreNames hparameter (of_decide_eq_true hcomma) hothers
      · show count + (List.length others + 1) ≤ mostArguments
        omega
    · refine yields_pure ⟨[parameter], h₁, .lastName hparameter, ?_⟩
      show count + 1 ≤ mostArguments
      omega

theorem yields_variableDeclaration :
    Yields derived (variableDeclaration closing) reader fun s reached =>
      ∃ ts, reader.rest = ts ++ reached.rest ∧ Derives .varDecl ts s.unnumbered := by
  unfold variableDeclaration
  refine yields_expect_bind fun name reader₁ h₁ _ hname => ?_
  refine yields_accept_bind (fun equal reader₂ h₂ _ hequal => ?_) fun _ => ?_
  · refine yields_call_bind fun value reader₃ hvalue => ?_
    obtain ⟨us, hus, hvalue⟩ := hvalue
    refine yields_expect_bind fun semicolon reader₄ h₄ _ hsemicolon => ?_
    refine yields_pure ⟨name :: equal :: (us ++ [semicolon]), ?_, ?_⟩
    · rw [h₁, h₂, hus, h₄]
      simp
    · exact .initialized hname (of_decide_eq_true hequal) hvalue hsemicolon
  · refine yields_expect_bind fun semicolon reader₂ h₂ _ hsemicolon => ?_
    refine yields_pure ⟨[name, semicolon], ?_, .uninitialized hname hsemicolon⟩
    rw [h₁, h₂]
    rfl

theorem yields_forInitializer :
    Yields derived (forInitializer closing) reader fun first reached =>
      ∃ ts, reader.rest = ts ++ reached.rest ∧
        Derives .initializer ts (first.map Stmt.unnumbered) := by
  unfold forInitializer
  refine yields_accept_bind (fun semicolon reader₁ h₁ _ hsemicolon => ?_) fun _ => ?_
  · exact yields_pure ⟨[semicolon], h₁, .noInitializer (of_decide_eq_true hsemicolon)⟩
  · refine yields_accept_bind (fun keyword reader₁ h₁ _ hkeyword => ?_) fun _ => ?_
    · refine Yields.bind (Yields.mono yields_variableDeclaration fun s reader₂ hs => ?_)
      obtain ⟨us, hus, hs⟩ := hs
      refine yields_pure ⟨keyword :: us, by rw [h₁, hus]; rfl, ?_⟩
      exact .variableInitializer (of_decide_eq_true hkeyword) hs
    · refine yields_call_bind fun value reader₁ hvalue => ?_
      obtain ⟨ts, hts, hvalue⟩ := hvalue
      refine yields_expect_bind fun semicolon reader₂ h₂ _ hsemicolon => ?_
      refine yields_pure ⟨ts ++ [semicolon], ?_, .expressionInitializer hvalue hsemicolon⟩
      rw [hts, h₂]
      simp

/-- What follows the keyword of a statement makes a statement of its kind. -/
theorem yields_ifStatement {keyword : Token} {start : Reader} (hkeyword : keyword.kind = .if)
    (hstart : start.rest = keyword :: reader.rest) :
    Yields derived (ifStatement closing) reader (derived .statement start) := by
  unfold ifStatement
  refine yields_expect_bind fun opening reader₁ h₁ _ hopening => ?_
  refine yields_call_bind fun condition reader₂ hcondition => ?_
  obtain ⟨us, hus, hcondition⟩ := hcondition
  refine yields_expect_bind fun paren reader₃ h₃ _ hparen => ?_
  refine yields_call_bind fun whenTrue reader₄ htrue => ?_
  obtain ⟨vs, hvs, dangling, htrue, hdangling⟩ := htrue
  refine yields_accept_bind (fun otherwise reader₅ h₅ _ hotherwise => ?_) fun hnone => ?_
  · have hotherwise : otherwise.kind = .else := of_decide_eq_true hotherwise
    -- A statement that dangles would not have stopped at this `else`.
    obtain rfl : dangling = false := by
      rw [Bool.eq_false_iff]
      intro hd
      exact hdangling hd otherwise (by rw [h₅]; rfl) hotherwise
    refine yields_call_bind fun whenFalse reader₆ hfalse => ?_
    obtain ⟨ws, hws, dangling', hfalse, hdangling'⟩ := hfalse
    refine yields_pure ⟨keyword :: opening :: (us ++ paren :: (vs ++ otherwise :: ws)), ?_,
      dangling', ?_, hdangling'⟩
    · rw [hstart, h₁, hus, h₃, hvs, h₅, hws]
      simp
    · exact .ifElse hkeyword hopening hcondition hparen htrue hotherwise hfalse
  · refine yields_pure ⟨keyword :: opening :: (us ++ paren :: vs), ?_, true, ?_, ?_⟩
    · rw [hstart, h₁, hus, h₃, hvs]
      simp
    · exact .ifThen hkeyword hopening hcondition hparen htrue
    · intro _ token htoken
      exact of_decide_eq_false (hnone token htoken)

theorem yields_whileStatement {keyword : Token} {start : Reader} (hkeyword : keyword.kind = .while)
    (hstart : start.rest = keyword :: reader.rest) :
    Yields derived (whileStatement closing) reader (derived .statement start) := by
  unfold whileStatement
  refine yields_expect_bind fun opening reader₁ h₁ _ hopening => ?_
  refine yields_call_bind fun condition reader₂ hcondition => ?_
  obtain ⟨us, hus, hcondition⟩ := hcondition
  refine yields_expect_bind fun paren reader₃ h₃ _ hparen => ?_
  refine yields_call_bind fun body reader₄ hbody => ?_
  obtain ⟨vs, hvs, dangling, hbody, hdangling⟩ := hbody
  refine yields_pure ⟨keyword :: opening :: (us ++ paren :: vs), ?_, dangling, ?_, hdangling⟩
  · rw [hstart, h₁, hus, h₃, hvs]
    simp
  · exact .while hkeyword hopening hcondition hparen hbody

variable (hclosing : closing.kind = .endOfInput)
include hclosing

theorem yields_forStatement {keyword : Token} {start : Reader} (hkeyword : keyword.kind = .for)
    (hstart : start.rest = keyword :: reader.rest) :
    Yields derived (forStatement closing) reader (derived .statement start) := by
  unfold forStatement
  refine yields_expect_bind fun opening reader₁ h₁ _ hopening => ?_
  refine Yields.bind (Yields.mono yields_forInitializer fun first reader₂ hfirst => ?_)
  obtain ⟨us, hus, hfirst⟩ := hfirst
  have hclauses : ∀ (condition : Option Expr) (reader₃ : Reader) (vs : List Token),
      reader₂.rest = vs ++ reader₃.rest → Derives .optional vs (condition.map Expr.unnumbered) →
      Yields derived (do
        let _ ← expect closing .semicolonAfterForCondition
        let increment ← unlessAt closing .rightParen none (some <$> Routine.call anyExpression)
        let _ ← expect closing .parenAfterForClauses
        let body ← Routine.call statement
        pure (forLoop first (condition.getD (.literal (.bool true))) increment body)) reader₃
        (derived .statement start) := by
    intro condition reader₃ vs hvs hcondition
    refine yields_expect_bind fun semicolon reader₄ h₄ _ hsemicolon => ?_
    refine Yields.bind ((yields_optional hclosing).mono
      fun (increment : Option Expr) reader₅ hinc => ?_)
    obtain ⟨ws, hws, hincrement⟩ := hinc
    refine yields_expect_bind fun paren reader₆ h₆ _ hparen => ?_
    refine yields_call_bind fun body reader₇ hbody => ?_
    obtain ⟨xs, hxs, dangling, hbody, hdangling⟩ := hbody
    refine yields_pure
      ⟨keyword :: opening :: (us ++ (vs ++ semicolon :: (ws ++ paren :: xs))), ?_, dangling, ?_,
        hdangling⟩
    · rw [hstart, h₁, hus, hvs, h₄, hws, h₆, hxs]
      simp
    · have hfor := Derives.for hkeyword hopening hfirst hcondition hsemicolon hincrement hparen
        hbody
      rw [← unnumbered_forLoop] at hfor
      exact hfor
  refine yields_unlessAt_bind hclosing ?_ ?_
  · exact hclauses none reader₂ [] rfl .absent
  · refine yields_call_bind fun condition reader₃ hcondition => ?_
    obtain ⟨vs, hvs, hcondition⟩ := hcondition
    exact hclauses (some condition) reader₃ vs hvs (.present hcondition)

theorem yields_anyStatement :
    Yields derived (anyStatement closing) reader (derived .statement reader) := by
  have hnotOpen : ∀ rest : List Token,
      false = true → ∀ token ∈ rest.head?, token.kind ≠ Token.Kind.else := by
    intro rest h
    cases h
  unfold anyStatement
  refine yields_peek_bind hclosing fun keyword hkeyword => ?_
  split <;> rename_i hkind
  · refine yields_skip_bind fun reader₁ h₁ _ => ?_
    refine yields_call_bind fun value reader₂ hvalue => ?_
    obtain ⟨us, hus, hvalue⟩ := hvalue
    refine yields_expect_bind fun semicolon reader₃ h₃ _ hsemicolon => ?_
    refine yields_pure ⟨keyword :: (us ++ [semicolon]), ?_, false, ?_, hnotOpen _⟩
    · rw [hkeyword (by simp [hkind]), ← h₁, hus, h₃]
      simp
    · exact .print hkind hvalue hsemicolon
  · refine yields_skip_bind fun reader₁ h₁ _ => ?_
    exact yields_ifStatement hkind (by rw [h₁]; exact hkeyword (by simp [hkind]))
  · refine yields_skip_bind fun reader₁ h₁ _ => ?_
    exact yields_whileStatement hkind (by rw [h₁]; exact hkeyword (by simp [hkind]))
  · refine yields_skip_bind fun reader₁ h₁ _ => ?_
    exact yields_forStatement hclosing hkind (by rw [h₁]; exact hkeyword (by simp [hkind]))
  · refine yields_skip_bind fun reader₁ h₁ _ => ?_
    refine Yields.bind (Yields.mono (yields_optional hclosing) fun value reader₂ hvalue => ?_)
    obtain ⟨us, hus, hvalue⟩ := hvalue
    refine yields_expect_bind fun semicolon reader₃ h₃ _ hsemicolon => ?_
    refine yields_pure ⟨keyword :: (us ++ [semicolon]), ?_, false, ?_, hnotOpen _⟩
    · rw [hkeyword (by simp [hkind]), ← h₁, hus, h₃]
      simp
    · have hreturn := Derives.return hkind hvalue hsemicolon
      cases value <;> exact hreturn
  · refine yields_skip_bind fun reader₁ h₁ _ => ?_
    refine yields_call_bind fun body reader₂ hbody => ?_
    obtain ⟨_, hus, us, brace, rfl, hbrace, hbody⟩ := hbody
    refine yields_pure ⟨keyword :: (us ++ [brace]), ?_, false, ?_, hnotOpen _⟩
    · rw [hkeyword (by simp [hkind]), ← h₁, hus]
      simp
    · exact .block hkind hbody hbrace
  · refine yields_call_bind fun value reader₁ hvalue => ?_
    obtain ⟨ts, hts, hvalue⟩ := hvalue
    refine yields_expect_bind fun semicolon reader₂ h₂ _ hsemicolon => ?_
    refine yields_pure ⟨ts ++ [semicolon], ?_, false, .expression hvalue hsemicolon, hnotOpen _⟩
    rw [hts, h₂]
    simp

theorem yields_functionDeclaration {keyword : Token} {start : Reader}
    (hkeyword : keyword.kind = .fun) (hstart : start.rest = keyword :: reader.rest) :
    Yields derived (functionDeclaration closing) reader (derived .declaration start) := by
  unfold functionDeclaration
  refine yields_expect_bind fun name reader₁ h₁ _ hname => ?_
  refine yields_expect_bind fun opening reader₂ h₂ _ hopening => ?_
  have hrest : ∀ (declared : List Token) (reader₃ : Reader) (us : List Token),
      reader₂.rest = us ++ reader₃.rest → Derives .parameters us declared →
      Yields derived (do
        let _ ← expect closing .parenAfterParameters
        let _ ← expect closing .braceBeforeBody
        let body ← Routine.call block
        pure (Stmt.function name declared body)) reader₃ (derived .declaration start) := by
    intro declared reader₃ us hus hdeclared
    refine yields_expect_bind fun paren reader₄ h₄ _ hparen => ?_
    refine yields_expect_bind fun brace reader₅ h₅ _ hbrace => ?_
    refine yields_call_bind fun body reader₆ hbody => ?_
    obtain ⟨_, hvs, vs, closingBrace, rfl, hclosingBrace, hbody⟩ := hbody
    refine yields_pure
      ⟨keyword :: name :: opening :: (us ++ paren :: brace :: (vs ++ [closingBrace])), ?_, ?_⟩
    · rw [hstart, h₁, h₂, hus, h₄, h₅, hvs]
      simp
    · exact .function hkeyword hname hopening hdeclared hparen hbrace hbody hclosingBrace
  refine yields_unlessAt_bind hclosing ?_ ?_
  · exact hrest [] reader₂ [] rfl .noParameters
  · refine yields_call_bind fun declared reader₃ hdeclared => ?_
    obtain ⟨us, hus, hdeclared, hmost⟩ := hdeclared
    exact hrest declared reader₃ us hus (.parameters hdeclared (by omega))

theorem yields_anyDeclaration :
    Yields derived (anyDeclaration closing) reader (derived .declaration reader) := by
  unfold anyDeclaration
  refine yields_peek_bind hclosing fun keyword hkeyword => ?_
  split <;> rename_i hkind
  · refine yields_skip_bind fun reader₁ h₁ _ => ?_
    exact yields_functionDeclaration hclosing hkind
      (by rw [h₁]; exact hkeyword (by simp [hkind]))
  · refine yields_skip_bind fun reader₁ h₁ _ => ?_
    refine Yields.mono yields_variableDeclaration fun s reader₂ hs => ?_
    obtain ⟨us, hus, hs⟩ := hs
    refine ⟨keyword :: us, ?_, .var hkind hs⟩
    rw [hkeyword (by simp [hkind]), ← h₁, hus]
    rfl
  · exact yields_fail
  · refine yields_jump fun s reader₁ hs => ?_
    obtain ⟨ts, hts, dangling, hs, -⟩ := hs
    exact ⟨ts, hts, .statement hs⟩

theorem yields_blockBody :
    Yields derived (blockBody closing) reader (derived .block reader) := by
  unfold blockBody
  refine yields_peek_bind hclosing fun token _ => ?_
  split
  · refine yields_expect_bind fun brace reader₁ h₁ _ hbrace => ?_
    exact yields_pure ⟨[brace], h₁, [], brace, rfl, hbrace, .noDeclarations⟩
  · refine yields_call_bind fun first reader₁ hfirst => ?_
    obtain ⟨ts, hts, hfirst⟩ := hfirst
    refine yields_call_bind fun others reader₂ hothers => ?_
    obtain ⟨_, hus, us, brace, rfl, hbrace, hothers⟩ := hothers
    refine yields_pure ⟨ts ++ us ++ [brace], ?_, ts ++ us, brace, rfl, hbrace, ?_⟩
    · rw [hts, hus]
      simp
    · exact .moreDeclarations hfirst hothers

end Statements

/-! ## Programs -/

theorem yields_programBody : Yields derived programBody reader (derived .program reader) := by
  unfold programBody
  apply Yields.bind
  show Yields derived (if reader.rest.isEmpty then _ else _) reader _
  split
  · rename_i hempty
    refine yields_pure ⟨[], rfl, List.isEmpty_iff.1 hempty, fun ss hss => ?_⟩
    obtain rfl := List.map_eq_nil_iff.1 hss.symm
    exact .noDeclarations
  · have hgoOn : ∀ (first : Except ParseError Stmt) (reached : Reader),
        (∀ s, first = .ok s → derived .declaration reader s reached) →
        Yields derived (do
          let others ← Routine.call program
          pure (first :: others)) reached (derived .program reader) := by
      intro first reached hfirst
      refine yields_call_bind fun others reader₂ hothers => ?_
      obtain ⟨us, hus, hend, hothers⟩ := hothers
      refine yields_pure ⟨reader.rest, by rw [hend, List.append_nil], hend, fun ss hss => ?_⟩
      obtain ⟨s, rest, rfl, rfl, hrest⟩ := List.map_eq_cons_iff.1 hss.symm
      obtain ⟨ts, hts, hs⟩ := hfirst s rfl
      rw [hts, hus, hend, List.append_nil]
      exact .moreDeclarations hs (hothers rest hrest.symm)
    apply Yields.bind
    refine Routine.ensures_attempt.2 (Routine.ensures_call.2 ⟨trivial, ?_⟩)
    rintro ⟨problem | s, reached⟩ hs
    · refine hgoOn (.error problem) _ fun s hs => ?_
      cases hs
    · refine hgoOn (.ok s) reached fun s' hs' => ?_
      cases hs'
      exact hs

/-- Whatever reading a phrase successfully makes of tokens, the grammar derives it from them. -/
theorem derived_of_read (hclosing : closing.kind = .endOfInput) {phrase : Phrase}
    {result : phrase.Result} {reached : Reader}
    (h : Routine.Ends (read closing) (read closing phrase) reader (.ok result, reached)) :
    derived phrase reader result reached := by
  refine read_of_yields (fun phrase reader => ?_) h
  cases phrase with
  | expression f => exact yields_form hclosing f
  | arguments count => exact yields_argumentList count
  | parameters count => exact yields_parameterList count
  | declaration => exact yields_anyDeclaration hclosing
  | statement => exact yields_anyStatement hclosing
  | block => exact yields_blockBody hclosing
  | program => exact yields_programBody

end Phrase

end Lox
