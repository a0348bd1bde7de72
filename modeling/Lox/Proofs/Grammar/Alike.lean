/-
# Tokens that read alike

Reading a program depends on the tokens, but not on the lines they are on, and on no number for
accesses. Two token lists that differ at most in their lines are therefore read to trees that are
alike or, if the grammar does not derive them, they are rejected with the same problems at the same
tokens.
-/

import Lox.Proofs.CallTree.Similar
import Lox.Proofs.Grammar.Reading
import Lox.Proofs.Tree.Alike

namespace Lox

/-- Two breaches of the grammar that differ at most in lines. -/
structure ParseError.Alike (lines : Nat → Nat → Prop) (error error' : ParseError) : Prop where
  token : error.token.Alike lines error'.token
  problem : error.problem = error'.problem

theorem ParseError.Alike.eq {error error' : ParseError} (h : error.Alike Eq error') :
    error = error' := by
  cases error
  cases error'
  cases h.token.eq
  cases h.problem
  rfl

namespace Phrase

open Routine.Likeness

variable {lines : Nat → Nat → Prop}

/-- The same form, going on from expressions that are alike. -/
inductive Form.Alike (lines : Nat → Nat → Prop) : Form → Form → Prop
  | assignment : Form.Alike lines .assignment .assignment
  | conditional : Form.Alike lines .conditional .conditional
  | operation {level : Level} : Form.Alike lines (.operation level) (.operation level)
  | operations {level : Level} {left left' : Expr} (hleft : left.Alike AnyIds lines left') :
      Form.Alike lines (.operations level left) (.operations level left')
  | unary : Form.Alike lines .unary .unary
  | call : Form.Alike lines .call .call
  | calls {callee callee' : Expr} (hcallee : callee.Alike AnyIds lines callee') :
      Form.Alike lines (.calls callee) (.calls callee')

/-- The same phrase, going on from expressions that are alike. -/
inductive Alike (lines : Nat → Nat → Prop) : Phrase → Phrase → Prop
  | expression {form form' : Form} (h : form.Alike lines form') :
      Alike lines (.expression form) (.expression form')
  | arguments {count : Nat} : Alike lines (.arguments count) (.arguments count)
  | parameters {count : Nat} : Alike lines (.parameters count) (.parameters count)
  | declaration : Alike lines .declaration .declaration
  | statement : Alike lines .statement .statement
  | block : Alike lines .block .block
  | program : Alike lines .program .program

/-- What two phrases are read as is alike. -/
def ReadAlike (lines : Nat → Nat → Prop) :
    (phrase phrase' : Phrase) → phrase.Result → phrase'.Result → Prop
  | expression _, expression _, e, e' => e.Alike AnyIds lines e'
  | arguments _, arguments _, es, es' => Expr.AllAlike AnyIds lines es es'
  | parameters _, parameters _, tokens, tokens' =>
    List.Forall₂ (Token.Alike lines) tokens tokens'
  | declaration, declaration, s, s' => s.Alike AnyIds lines s'
  | statement, statement, s, s' => s.Alike AnyIds lines s'
  | block, block, ss, ss' => Stmt.AllAlike AnyIds lines ss ss'
  | program, program, read, read' =>
    List.Forall₂ (ResultAlike (ParseError.Alike lines) (Stmt.Alike AnyIds lines)) read read'
  | _, _, _, _ => False

/-- Where two token lists that differ at most in lines are read alike: what is left differs at most
in lines, and as many numbers have been given out in both. -/
structure AlikeUpTo (lines : Nat → Nat → Prop) (apart : Int) (reader reader' : Reader) : Prop where
  rest : List.Forall₂ (Token.Alike lines) reader.rest reader'.rest
  nextId : (reader'.nextId : Int) = reader.nextId + apart

/-- What corresponds when two token lists that differ at most in lines are read. -/
def readings (lines : Nat → Nat → Prop) (apart : Int) :
    Routine.Likeness Reader Reader ParseError Result where
  procedures := Alike lines
  results := ReadAlike lines
  states := AlikeUpTo lines apart
  problems := ParseError.Alike lines

variable {α α' : Type} {values : α → α' → Prop} {closing closing' : Token} {apart : Int}

/-! ## Single tokens -/

theorem similar_peek (hclosing : closing.Alike lines closing') :
    (readings lines apart).Similar (Token.Alike lines) (peek closing) (peek closing') := by
  refine similar_gets fun reader reader' h => ?_
  obtain ⟨rest, nextId⟩ := reader
  obtain ⟨rest', nextId'⟩ := reader'
  cases h.rest with
  | nil => exact hclosing
  | cons hfirst _ => exact hfirst

theorem similar_skip : (readings lines apart).Similar (fun _ _ => True) skip skip := by
  refine similar_modify trivial fun reader reader' h => ?_
  obtain ⟨rest, nextId⟩ := reader
  obtain ⟨rest', nextId'⟩ := reader'
  cases h.rest with
  | nil => exact ⟨.nil, h.nextId⟩
  | cons _ hrest => exact ⟨hrest, h.nextId⟩

theorem similar_accept (wanted : Token.Kind → Bool) :
    (readings lines apart).Similar (Option.Rel (Token.Alike lines)) (accept wanted)
      (accept wanted) := by
  refine similar_step fun reader reader' h => ?_
  obtain ⟨rest, nextId⟩ := reader
  obtain ⟨rest', nextId'⟩ := reader'
  cases h.rest with
  | nil => exact .ok .none h
  | cons hfirst hrest =>
    dsimp only
    rw [hfirst.kind]
    split
    · exact .ok (.some hfirst) ⟨hrest, h.nextId⟩
    · exact .ok .none h

theorem similar_reject (hclosing : closing.Alike lines closing') (problem : ParseProblem) :
    (readings lines apart).Similar values (reject closing problem : Reading α)
      (reject closing' problem : Reading α') :=
  (similar_peek hclosing).bind fun _ _ h => similar_fail ⟨h, rfl⟩

theorem similar_expect (hclosing : closing.Alike lines closing') (expected : Expectation) :
    (readings lines apart).Similar (Token.Alike lines) (expect closing expected)
      (expect closing' expected) := by
  refine (similar_accept _).bind fun found found' h => ?_
  cases h with
  | none => exact similar_reject hclosing _
  | some h => exact similar_pure h

theorem similar_unlessAt (hclosing : closing.Alike lines closing') (kind : Token.Kind)
    {absent : α} {absent' : α'} (habsent : values absent absent') {present : Reading α}
    {present' : Reading α'} (hpresent : (readings lines apart).Similar values present present') :
    (readings lines apart).Similar values (unlessAt closing kind absent present)
      (unlessAt closing' kind absent' present') := by
  refine (similar_peek hclosing).bind fun token token' h => ?_
  rw [h.kind]
  split
  · exact similar_pure habsent
  · exact hpresent

theorem similar_freshId : (readings lines apart).Similar AnyIds freshId freshId :=
  similar_step fun reader reader' h => .ok trivial ⟨h.rest, by
    show ((reader'.nextId + 1 : Nat) : Int) = (reader.nextId + 1 : Nat) + apart
    have hnextId := h.nextId
    omega⟩

/-! ## Expressions -/

theorem similar_phrase {phrase phrase' : Phrase} (h : Alike lines phrase phrase') :
    (readings lines apart).Similar (ReadAlike lines phrase phrase') (Routine.call phrase)
      (Routine.call phrase') :=
  @similar_call _ _ _ _ _ (readings lines apart) phrase phrase' h

theorem similar_jump_phrase {phrase phrase' : Phrase} (h : Alike lines phrase phrase') :
    (readings lines apart).Similar (ReadAlike lines phrase phrase') (Routine.jump phrase)
      (Routine.jump phrase') :=
  @similar_jump _ _ _ _ _ (readings lines apart) phrase phrase' h

theorem similar_anyExpression :
    (readings lines apart).Similar (Expr.Alike AnyIds lines) (Routine.call anyExpression)
      (Routine.call anyExpression) :=
  similar_phrase (.expression .assignment)

theorem similar_assignment {target target' value value' : Expr} {operator operator' : Token}
    (htarget : target.Alike AnyIds lines target') (hoperator : operator.Alike lines operator')
    (hvalue : value.Alike AnyIds lines value') :
    (readings lines apart).Similar (Expr.Alike AnyIds lines) (assignment target operator value)
      (assignment target' operator' value') := by
  cases htarget with
  | read _ hname =>
    unfold assignment
    dsimp only
    rw [hoperator.kind]
    split
    · exact similar_freshId.bind fun _ _ _ => similar_pure (.assign trivial hname hvalue)
    · exact similar_freshId.bind fun _ _ _ => similar_freshId.bind fun _ _ _ =>
        similar_pure (.assign trivial hname (.binary (.read trivial hname) hoperator hvalue))
  | _ => exact similar_fail ⟨hoperator, rfl⟩

theorem alike_join (level : Level) {left left' right right' : Expr} {operator operator' : Token}
    (hleft : left.Alike AnyIds lines left') (hoperator : operator.Alike lines operator')
    (hright : right.Alike AnyIds lines right') :
    (level.join left operator right).Alike AnyIds lines (level.join left' operator' right') := by
  cases level with
  | or | and => exact .logical hleft hoperator hright
  | _ => exact .binary hleft hoperator hright

theorem alike_operand (level : Level) : Form.Alike lines level.operand level.operand := by
  cases level with
  | factor => exact .unary
  | _ => exact .operation

theorem similar_primary (hclosing : closing.Alike lines closing') :
    (readings lines apart).Similar (Expr.Alike AnyIds lines) (primary closing)
      (primary closing') := by
  refine (similar_peek hclosing).bind fun token token' h => ?_
  have hconstant (constant : Constant) :
      (readings lines apart).Similar (Expr.Alike AnyIds lines)
        (do skip; pure (.literal constant) : Reading Expr)
        (do skip; pure (.literal constant) : Reading Expr) :=
    similar_skip.bind fun _ _ _ => similar_pure .literal
  rw [h.kind, h.literal]
  split
  · exact hconstant _
  · exact hconstant _
  · exact hconstant _
  · split
    · exact hconstant _
    · exact hconstant _
    · exact similar_fail ⟨h, rfl⟩
  · split
    · exact hconstant _
    · exact hconstant _
    · exact similar_fail ⟨h, rfl⟩
  · exact similar_freshId.bind fun _ _ _ => similar_skip.bind fun _ _ _ =>
      similar_pure (.read trivial h)
  · exact similar_skip.bind fun _ _ _ => similar_anyExpression.bind fun _ _ hinner =>
      (similar_expect hclosing _).bind fun _ _ _ => similar_pure (.group hinner)
  · exact similar_skip.bind fun _ _ _ => (similar_expect hclosing _).bind fun _ _ _ =>
      similar_anyExpression.bind fun _ _ hcode =>
        (similar_expect hclosing _).bind fun _ _ _ => similar_pure (.host h hcode)
  · exact similar_fail ⟨h, rfl⟩
  · exact similar_fail ⟨h, rfl⟩
  · exact similar_fail ⟨h, rfl⟩

theorem similar_form (hclosing : closing.Alike lines closing') {f f' : Form}
    (h : f.Alike lines f') :
    (readings lines apart).Similar (Expr.Alike AnyIds lines) (form closing f)
      (form closing' f') := by
  cases h with
  | assignment =>
    refine (similar_phrase (.expression .conditional)).bind fun target target' htarget => ?_
    refine (similar_accept _).bind fun found found' hfound => ?_
    cases hfound with
    | none => exact similar_pure htarget
    | some hoperator =>
      exact (similar_phrase (.expression .assignment)).bind fun value value' hvalue =>
        similar_assignment htarget hoperator hvalue
  | conditional =>
    refine (similar_phrase (.expression .operation)).bind fun condition condition' hcondition => ?_
    refine (similar_accept _).bind fun found found' hfound => ?_
    cases hfound with
    | none => exact similar_pure hcondition
    | some _ =>
      refine similar_anyExpression.bind fun whenTrue whenTrue' hwhenTrue => ?_
      refine (similar_expect hclosing _).bind fun _ _ _ => ?_
      refine (similar_phrase (.expression .conditional)).bind fun whenFalse whenFalse'
        hwhenFalse => ?_
      exact similar_pure (.conditional hcondition hwhenTrue hwhenFalse)
  | @operation level =>
    exact (similar_phrase (.expression (alike_operand level))).bind fun left left' hleft =>
      similar_jump_phrase (.expression (.operations hleft))
  | @operations level left left' hleft =>
    refine (similar_accept _).bind fun found found' hfound => ?_
    cases hfound with
    | none => exact similar_pure hleft
    | some hoperator =>
      exact (similar_phrase (.expression (alike_operand level))).bind fun right right' hright =>
        similar_jump_phrase (.expression (.operations (alike_join level hleft hoperator hright)))
  | unary =>
    refine (similar_accept _).bind fun found found' hfound => ?_
    cases hfound with
    | none => exact similar_jump_phrase (.expression .call)
    | some hoperator =>
      exact (similar_phrase (.expression .unary)).bind fun operand operand' hoperand =>
        similar_pure (.unary hoperator hoperand)
  | call =>
    exact (similar_primary hclosing).bind fun callee callee' hcallee =>
      similar_jump_phrase (.expression (.calls hcallee))
  | @calls callee callee' hcallee =>
    refine (similar_accept _).bind fun found found' hfound => ?_
    cases hfound with
    | none => exact similar_pure hcallee
    | some _ =>
      refine (similar_unlessAt hclosing _ .nil (similar_phrase .arguments)).bind
        fun passed passed' hpassed => ?_
      refine (similar_expect hclosing _).bind fun paren paren' hparen => ?_
      exact similar_jump_phrase (.expression (.calls (.call hcallee hparen hpassed)))

theorem similar_argumentList (hclosing : closing.Alike lines closing') (count : Nat) :
    (readings lines apart).Similar (Expr.AllAlike AnyIds lines) (argumentList closing count)
      (argumentList closing' count) := by
  unfold argumentList
  split
  · exact similar_reject hclosing _
  · refine similar_anyExpression.bind fun argument argument' hargument => ?_
    refine (similar_accept _).bind fun found found' hfound => ?_
    cases hfound with
    | none => exact similar_pure (.cons hargument .nil)
    | some _ =>
      exact (similar_phrase .arguments).bind fun others others' hothers =>
        similar_pure (.cons hargument hothers)

/-! ## Statements -/

theorem similar_parameterList (hclosing : closing.Alike lines closing') (count : Nat) :
    (readings lines apart).Similar (List.Forall₂ (Token.Alike lines)) (parameterList closing count)
      (parameterList closing' count) := by
  unfold parameterList
  split
  · exact similar_reject hclosing _
  · refine (similar_expect hclosing _).bind fun parameter parameter' hparameter => ?_
    refine (similar_accept _).bind fun found found' hfound => ?_
    cases hfound with
    | none => exact similar_pure (.cons hparameter .nil)
    | some _ =>
      exact (similar_phrase .parameters).bind fun others others' hothers =>
        similar_pure (.cons hparameter hothers)

theorem similar_functionDeclaration (hclosing : closing.Alike lines closing') :
    (readings lines apart).Similar (Stmt.Alike AnyIds lines) (functionDeclaration closing)
      (functionDeclaration closing') := by
  refine (similar_expect hclosing _).bind fun name name' hname => ?_
  refine (similar_expect hclosing _).bind fun _ _ _ => ?_
  refine (similar_unlessAt hclosing _ .nil (similar_phrase .parameters)).bind
    fun declared declared' hdeclared => ?_
  refine (similar_expect hclosing _).bind fun _ _ _ => ?_
  refine (similar_expect hclosing _).bind fun _ _ _ => ?_
  refine (similar_phrase .block).bind fun body body' hbody => ?_
  exact similar_pure (.function hname hdeclared hbody)

theorem similar_variableDeclaration (hclosing : closing.Alike lines closing') :
    (readings lines apart).Similar (Stmt.Alike AnyIds lines) (variableDeclaration closing)
      (variableDeclaration closing') := by
  refine (similar_expect hclosing _).bind fun name name' hname => ?_
  refine (similar_accept _).bind fun found found' hfound => ?_
  cases hfound with
  | none =>
    exact (similar_expect hclosing _).bind fun _ _ _ => similar_pure (.varNil hname)
  | some _ =>
    exact similar_anyExpression.bind fun initializer initializer' hinitializer =>
      (similar_expect hclosing _).bind fun _ _ _ => similar_pure (.varValue hname hinitializer)

theorem similar_ifStatement (hclosing : closing.Alike lines closing') :
    (readings lines apart).Similar (Stmt.Alike AnyIds lines) (ifStatement closing)
      (ifStatement closing') := by
  refine (similar_expect hclosing _).bind fun _ _ _ => ?_
  refine similar_anyExpression.bind fun condition condition' hcondition => ?_
  refine (similar_expect hclosing _).bind fun _ _ _ => ?_
  refine (similar_phrase .statement).bind fun whenTrue whenTrue' hwhenTrue => ?_
  refine (similar_accept _).bind fun found found' hfound => ?_
  cases hfound with
  | none => exact similar_pure (.ifThen hcondition hwhenTrue)
  | some _ =>
    exact (similar_phrase .statement).bind fun whenFalse whenFalse' hwhenFalse =>
      similar_pure (.ifElse hcondition hwhenTrue hwhenFalse)

theorem similar_whileStatement (hclosing : closing.Alike lines closing') :
    (readings lines apart).Similar (Stmt.Alike AnyIds lines) (whileStatement closing)
      (whileStatement closing') := by
  refine (similar_expect hclosing _).bind fun _ _ _ => ?_
  refine similar_anyExpression.bind fun condition condition' hcondition => ?_
  refine (similar_expect hclosing _).bind fun _ _ _ => ?_
  refine (similar_phrase .statement).bind fun body body' hbody => ?_
  exact similar_pure (.while hcondition hbody)

theorem similar_forInitializer (hclosing : closing.Alike lines closing') :
    (readings lines apart).Similar (Option.Rel (Stmt.Alike AnyIds lines)) (forInitializer closing)
      (forInitializer closing') := by
  refine (similar_accept _).bind fun found found' hfound => ?_
  cases hfound with
  | some _ => exact similar_pure .none
  | none =>
    refine (similar_accept _).bind fun found found' hfound => ?_
    cases hfound with
    | some _ =>
      exact (similar_variableDeclaration hclosing).bind fun declared declared' hdeclared =>
        similar_pure (.some hdeclared)
    | none =>
      exact similar_anyExpression.bind fun value value' hvalue =>
        (similar_expect hclosing _).bind fun _ _ _ => similar_pure (.some (.expression hvalue))

theorem alike_forLoop {first first' : Option Stmt} {condition condition' : Expr}
    {increment increment' : Option Expr} {body body' : Stmt}
    (hfirst : Option.Rel (Stmt.Alike AnyIds lines) first first')
    (hcondition : condition.Alike AnyIds lines condition')
    (hincrement : Option.Rel (Expr.Alike AnyIds lines) increment increment')
    (hbody : body.Alike AnyIds lines body') :
    (forLoop first condition increment body).Alike AnyIds lines
      (forLoop first' condition' increment' body') := by
  cases hincrement with
  | none =>
    cases hfirst with
    | none => exact .while hcondition hbody
    | some hfirst => exact .block (.cons hfirst (.cons (.while hcondition hbody) .nil))
  | some hincrement =>
    have hround := Stmt.Alike.block (.cons hbody (.cons (.expression hincrement) .nil))
    cases hfirst with
    | none => exact .while hcondition hround
    | some hfirst => exact .block (.cons hfirst (.cons (.while hcondition hround) .nil))

theorem similar_optional (hclosing : closing.Alike lines closing') (kind : Token.Kind) :
    (readings lines apart).Similar (Option.Rel (Expr.Alike AnyIds lines))
      (unlessAt closing kind none (some <$> Routine.call anyExpression))
      (unlessAt closing' kind none (some <$> Routine.call anyExpression)) :=
  similar_unlessAt hclosing kind .none (similar_map similar_anyExpression fun _ _ h => .some h)

theorem similar_forStatement (hclosing : closing.Alike lines closing') :
    (readings lines apart).Similar (Stmt.Alike AnyIds lines) (forStatement closing)
      (forStatement closing') := by
  refine (similar_expect hclosing _).bind fun _ _ _ => ?_
  refine (similar_forInitializer hclosing).bind fun first first' hfirst => ?_
  refine (similar_unlessAt hclosing _ .literal similar_anyExpression).bind
    fun condition condition' hcondition => ?_
  refine (similar_expect hclosing _).bind fun _ _ _ => ?_
  refine (similar_optional hclosing _).bind fun increment increment' hincrement => ?_
  refine (similar_expect hclosing _).bind fun _ _ _ => ?_
  refine (similar_phrase .statement).bind fun body body' hbody => ?_
  exact similar_pure (alike_forLoop hfirst hcondition hincrement hbody)

theorem similar_anyStatement (hclosing : closing.Alike lines closing') :
    (readings lines apart).Similar (Stmt.Alike AnyIds lines) (anyStatement closing)
      (anyStatement closing') := by
  refine (similar_peek hclosing).bind fun token token' h => ?_
  rw [h.kind]
  split
  · exact similar_skip.bind fun _ _ _ => similar_anyExpression.bind fun value value' hvalue =>
      (similar_expect hclosing _).bind fun _ _ _ => similar_pure (.print h hvalue)
  · exact similar_skip.bind fun _ _ _ => similar_ifStatement hclosing
  · exact similar_skip.bind fun _ _ _ => similar_whileStatement hclosing
  · exact similar_skip.bind fun _ _ _ => similar_forStatement hclosing
  · refine similar_skip.bind fun _ _ _ => ?_
    refine (similar_optional hclosing _).bind fun value value' hvalue => ?_
    refine (similar_expect hclosing _).bind fun _ _ _ => similar_pure ?_
    cases hvalue with
    | none => exact .returnNil h
    | some hvalue => exact .returnValue h hvalue
  · exact similar_skip.bind fun _ _ _ => (similar_phrase .block).bind fun body body' hbody =>
      similar_pure (.block hbody)
  · exact similar_anyExpression.bind fun value value' hvalue =>
      (similar_expect hclosing _).bind fun _ _ _ => similar_pure (.expression hvalue)

theorem similar_anyDeclaration (hclosing : closing.Alike lines closing') :
    (readings lines apart).Similar (Stmt.Alike AnyIds lines) (anyDeclaration closing)
      (anyDeclaration closing') := by
  refine (similar_peek hclosing).bind fun token token' h => ?_
  rw [h.kind]
  split
  · exact similar_skip.bind fun _ _ _ => similar_functionDeclaration hclosing
  · exact similar_skip.bind fun _ _ _ => similar_variableDeclaration hclosing
  · exact similar_fail ⟨h, rfl⟩
  · exact similar_jump_phrase .statement

theorem similar_blockBody (hclosing : closing.Alike lines closing') :
    (readings lines apart).Similar (Stmt.AllAlike AnyIds lines) (blockBody closing)
      (blockBody closing') := by
  refine (similar_peek hclosing).bind fun next next' h => ?_
  rw [h.kind]
  split
  · exact (similar_expect hclosing _).bind fun _ _ _ => similar_pure .nil
  · exact (similar_phrase .declaration).bind fun first first' hfirst =>
      (similar_phrase .block).bind fun others others' hothers =>
        similar_pure (.cons hfirst hothers)

/-! ## Programs -/

theorem alike_resumeAfter {previous previous' : Token} (hprevious : previous.Alike lines previous')
    {tokens tokens' : List Token} (h : List.Forall₂ (Token.Alike lines) tokens tokens') :
    List.Forall₂ (Token.Alike lines) (resumeAfter previous tokens)
      (resumeAfter previous' tokens') := by
  induction h generalizing previous previous' with
  | nil => exact .nil
  | @cons token token' rest rest' h hrest ih =>
    unfold resumeAfter
    rw [hprevious.kind, h.kind]
    split
    · exact .cons h hrest
    · exact ih h

theorem alike_resume {tokens tokens' : List Token}
    (h : List.Forall₂ (Token.Alike lines) tokens tokens') :
    List.Forall₂ (Token.Alike lines) (resume tokens) (resume tokens') := by
  cases h with
  | nil => exact .nil
  | cons h hrest => exact alike_resumeAfter h hrest

theorem similar_programBody :
    (readings lines apart).Similar
      (List.Forall₂ (ResultAlike (ParseError.Alike lines) (Stmt.Alike AnyIds lines)))
      programBody programBody := by
  have hended : (readings lines apart).Similar Eq atEnd atEnd :=
    similar_gets fun reader reader' h => by
      obtain ⟨rest, nextId⟩ := reader
      obtain ⟨rest', nextId'⟩ := reader'
      cases h.rest <;> rfl
  refine hended.bind fun ended ended' heq => ?_
  rw [heq]
  split
  · exact similar_pure .nil
  · refine (similar_attempt (similar_phrase .declaration)).bind fun first first' hfirst => ?_
    have hothers : (readings lines apart).Similar
        (List.Forall₂ (ResultAlike (ParseError.Alike lines) (Stmt.Alike AnyIds lines)))
        (do let others ← Routine.call program; pure (first :: others) : Reading _)
        (do let others ← Routine.call program; pure (first' :: others) : Reading _) :=
      (similar_phrase .program).bind fun others others' hothers =>
        similar_pure (.cons hfirst hothers)
    cases hfirst with
    | ok _ =>
      have hunit : (readings lines apart).Similar (fun _ _ => True) (pure () : Reading Unit)
          (pure ()) := similar_pure trivial
      exact hunit.bind fun _ _ _ => hothers
    | error _ =>
      have hresume : (readings lines apart).Similar (fun _ _ => True) recover recover :=
        similar_modify trivial fun _ _ h => ⟨alike_resume h.rest, h.nextId⟩
      exact hresume.bind fun _ _ _ => hothers

/-- Whatever phrase is read, lines do not matter to it, and no number for accesses does. -/
theorem similar_read (hclosing : closing.Alike lines closing') {phrase phrase' : Phrase}
    (h : phrase.Alike lines phrase') :
    (readings lines apart).Similar (ReadAlike lines phrase phrase') (read closing phrase)
      (read closing' phrase') := by
  cases h with
  | expression h => exact similar_form hclosing h
  | arguments => exact similar_argumentList hclosing _
  | parameters => exact similar_parameterList hclosing _
  | declaration => exact similar_anyDeclaration hclosing
  | statement => exact similar_anyStatement hclosing
  | block => exact similar_blockBody hclosing
  | program => exact similar_programBody

end Phrase

namespace Program

variable {lines : Nat → Nat → Prop} {tokens tokens' : List Token}

theorem rel_find? (h : List.Forall₂ (Token.Alike lines) tokens tokens') :
    Option.Rel (Token.Alike lines) (tokens.find? (·.kind = .endOfInput))
      (tokens'.find? (·.kind = .endOfInput)) := by
  induction h with
  | nil => exact .none
  | cons h _ ih =>
    rw [List.find?_cons, List.find?_cons, h.kind]
    split
    · exact .some h
    · exact ih

theorem rel_getLast? (h : List.Forall₂ (Token.Alike lines) tokens tokens') :
    Option.Rel (Token.Alike lines) tokens.getLast? tokens'.getLast? := by
  rw [List.getLast?_eq_head?_reverse, List.getLast?_eq_head?_reverse]
  have hreverse := List.rel_reverse h
  generalize tokens.reverse = reversed at hreverse ⊢
  generalize tokens'.reverse = reversed' at hreverse ⊢
  cases hreverse with
  | nil => exact .none
  | cons h _ => exact .some h

theorem alike_closing (h : List.Forall₂ (Token.Alike lines) tokens tokens')
    (hfirst : lines 1 1) : (closing tokens).Alike lines (closing tokens') := by
  unfold closing
  have hfind := rel_find? h
  have hlast := rel_getLast? h
  generalize tokens.find? (·.kind = .endOfInput) = found at hfind ⊢
  generalize tokens'.find? (·.kind = .endOfInput) = found' at hfind ⊢
  generalize tokens.getLast? = last at hlast ⊢
  generalize tokens'.getLast? = last' at hlast ⊢
  cases hfind with
  | some h => exact h
  | none =>
    cases hlast with
    | none => exact ⟨rfl, rfl, rfl, hfirst⟩
    | some h => exact ⟨rfl, rfl, rfl, h.line⟩

theorem alike_start (h : List.Forall₂ (Token.Alike lines) tokens tokens')
    (nextId nextId' : AccessId) :
    Phrase.AlikeUpTo lines (nextId' - nextId) (start tokens nextId) (start tokens' nextId') := by
  refine ⟨?_, by simp only [start]; omega⟩
  unfold start opened
  induction h with
  | nil => exact .nil
  | cons h _ ih =>
    rw [List.takeWhile_cons, List.takeWhile_cons, h.kind]
    split
    · exact .cons h ih
    · exact .nil

/-- What is wrong with two lists of declarations is alike, and so are the statements. -/
theorem alike_filterMap {read read' : List (Except ParseError Stmt)}
    (h : List.Forall₂ (ResultAlike (ParseError.Alike lines) (Stmt.Alike AnyIds lines)) read
      read') :
    List.Forall₂ (ParseError.Alike lines)
        (read.filterMap fun
          | .error error => some error
          | .ok _ => none)
        (read'.filterMap fun
          | .error error => some error
          | .ok _ => none) ∧
      Stmt.AllAlike AnyIds lines
        (read.filterMap fun
          | .error _ => none
          | .ok statement => some statement)
        (read'.filterMap fun
          | .error _ => none
          | .ok statement => some statement) := by
  induction h with
  | nil => exact ⟨.nil, .nil⟩
  | cons h _ ih =>
    cases h with
    | ok h => exact ⟨ih.1, .cons h ih.2⟩
    | error h => exact ⟨.cons h ih.1, ih.2⟩

private theorem alike_of_errors {errors errors' : List ParseError} {ss ss' : List Stmt}
    (herrors : List.Forall₂ (ParseError.Alike lines) errors errors')
    (hstatements : Stmt.AllAlike AnyIds lines ss ss') :
    ResultAlike (List.Forall₂ (ParseError.Alike lines)) (Stmt.AllAlike AnyIds lines)
      (if errors.isEmpty then .ok ss else .error errors)
      (if errors'.isEmpty then .ok ss' else .error errors') := by
  cases herrors with
  | nil => exact .ok hstatements
  | cons h hs => exact .error (.cons h hs)

/-- Tokens that differ at most in lines are read to declarations that are alike, whatever number for
accesses is the next, and as many numbers are given out. -/
theorem alike_reading (h : List.Forall₂ (Token.Alike lines) tokens tokens') (hfirst : lines 1 1)
    (nextId nextId' : AccessId) :
    (Phrase.readings lines (nextId' - nextId)).Outcomes (Phrase.ReadAlike lines .program .program)
      (reading tokens nextId) (reading tokens' nextId') := by
  have hclosing := alike_closing h hfirst
  obtain ⟨outcome, hends, houtcome⟩ :=
    Routine.Likeness.Similar.ends (fun _ _ h => Phrase.similar_read hclosing h)
      (alike_start h nextId nextId') (Phrase.similar_read hclosing .program)
      (ends_reading tokens nextId)
  obtain rfl := hends.unique (ends_reading tokens' nextId')
  exact houtcome

/-- So they are read to programs that are alike, or rejected alike. -/
theorem ofTokens_alike (h : List.Forall₂ (Token.Alike lines) tokens tokens') (hfirst : lines 1 1)
    (nextId nextId' : AccessId) :
    ResultAlike (List.Forall₂ (ParseError.Alike lines)) (Stmt.AllAlike AnyIds lines)
      (ofTokens tokens nextId).1 (ofTokens tokens' nextId').1 := by
  have houtcome := alike_reading h hfirst nextId nextId'
  rw [ofTokens_eq, ofTokens_eq]
  generalize reading tokens nextId = outcome at houtcome ⊢
  generalize reading tokens' nextId' = outcome' at houtcome ⊢
  cases houtcome with
  | error h _ => exact .error (.cons h .nil)
  | ok h _ =>
    obtain ⟨herrors, hstatements⟩ := alike_filterMap h
    exact alike_of_errors herrors hstatements

/-- As many numbers are given out, from whichever number on. -/
theorem nextId_ofTokens_alike (h : List.Forall₂ (Token.Alike lines) tokens tokens')
    (hfirst : lines 1 1) (nextId extra : AccessId) :
    (ofTokens tokens' (nextId + extra)).2 = (ofTokens tokens nextId).2 + extra := by
  have hstates := (alike_reading h hfirst nextId (nextId + extra)).states
  have hnextId := hstates.nextId
  rw [nextId_ofTokens, nextId_ofTokens, ← Int.natCast_inj]
  omega

end Program

end Lox
