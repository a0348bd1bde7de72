/-
# Every access has a number of its own

While a program is read, each variable access gets the next number, and no number is ever taken
back, not even when what it was given out for turns out to be malformed. So the numbers in a tree
are all different, and they lie between the number that was next before it was read and the one that
is next afterwards (`Program.fresh_of_ofTokens`). Trees read one after another have no number in
common.
-/

import Lox.Proofs.Grammar.Reading
import Mathlib.Data.List.Nodup
import Mathlib.Data.List.Perm.Subperm

namespace Lox

mutual

/-- The numbers of the accesses in an expression. -/
def Expr.ids : Expr → List AccessId
  | .literal _ => []
  | .read id _ => [id]
  | .assign id _ value => value.ids ++ [id]
  | .unary _ operand => operand.ids
  | .binary left _ right | .logical left _ right => left.ids ++ right.ids
  | .conditional condition whenTrue whenFalse => condition.ids ++ whenTrue.ids ++ whenFalse.ids
  | .call callee _ arguments => callee.ids ++ Expr.allIds arguments
  | .group inner => inner.ids
  | .host _ code => code.ids

/-- The numbers of the accesses in some expressions. -/
def Expr.allIds : List Expr → List AccessId
  | [] => []
  | e :: es => e.ids ++ Expr.allIds es

end

mutual

/-- The numbers of the accesses in a statement. -/
def Stmt.ids : Stmt → List AccessId
  | .block body => Stmt.allIds body
  | .expression value => value.ids
  | .function _ _ body => Stmt.allIds body
  | .ifThen condition whenTrue => condition.ids ++ whenTrue.ids
  | .ifElse condition whenTrue whenFalse => condition.ids ++ whenTrue.ids ++ whenFalse.ids
  | .print _ value => value.ids
  | .return _ none => []
  | .return _ (some value) => value.ids
  | .var _ none => []
  | .var _ (some value) => value.ids
  | .while condition body => condition.ids ++ body.ids

/-- The numbers of the accesses in some statements. -/
def Stmt.allIds : List Stmt → List AccessId
  | [] => []
  | s :: ss => s.ids ++ Stmt.allIds ss

end

/-- Numbers given out from `low` up to `high`, none of them twice. -/
structure Fresh (low : AccessId) (ids : List AccessId) (high : AccessId) : Prop where
  /-- Numbers are given out upwards. -/
  le : low ≤ high
  /-- No number is given out twice. -/
  nodup : ids.Nodup
  /-- All of them were given out in between. -/
  bounds : ∀ id ∈ ids, low ≤ id ∧ id < high

namespace Fresh

variable {low middle high : AccessId} {ids ids' : List AccessId}

theorem nil (h : low ≤ high) : Fresh low [] high := ⟨h, List.nodup_nil, fun _ hid => by cases hid⟩

theorem single (low : AccessId) : Fresh low [low] (low + 1) := by
  refine ⟨Nat.le_succ low, List.nodup_singleton low, fun id hid => ?_⟩
  obtain rfl := List.mem_singleton.1 hid
  exact ⟨Nat.le_refl id, Nat.lt_succ_self id⟩

theorem append (h : Fresh low ids middle) (h' : Fresh middle ids' high) :
    Fresh low (ids ++ ids') high := by
  refine ⟨Nat.le_trans h.le h'.le, List.nodup_append.2 ⟨h.nodup, h'.nodup, ?_⟩, fun id hid => ?_⟩
  · intro id hid other hother heq
    have hlt := (h.bounds id hid).2
    rw [heq] at hlt
    exact absurd (h'.bounds other hother).1 (Nat.not_le.2 hlt)
  · rcases List.mem_append.1 hid with hid | hid
    · exact ⟨(h.bounds id hid).1, Nat.lt_of_lt_of_le (h.bounds id hid).2 h'.le⟩
    · exact ⟨Nat.le_trans h.le (h'.bounds id hid).1, (h'.bounds id hid).2⟩

theorem subperm (h : Fresh low ids high) (hsub : ids'.Subperm ids) : Fresh low ids' high := by
  obtain ⟨kept, hperm, hsublist⟩ := hsub
  refine ⟨h.le, hperm.nodup_iff.1 (h.nodup.sublist hsublist), fun id hid => ?_⟩
  exact h.bounds id (hsublist.subset (hperm.mem_iff.2 hid))

end Fresh

namespace Phrase

/-- The numbers in what a phrase is read as. -/
def ids : (phrase : Phrase) → phrase.Result → List AccessId
  | expression _, e => e.ids
  | arguments _, es => Expr.allIds es
  | parameters _, _ => []
  | declaration, s => s.ids
  | statement, s => s.ids
  | block, ss => Stmt.allIds ss
  | program, results => results.flatMap fun
    | .ok s => s.ids
    | .error _ => []

/-- The numbers in what a phrase goes on from. -/
def givenIds : Phrase → List AccessId
  | expression (.operations _ left) => left.ids
  | expression (.calls callee) => callee.ids
  | _ => []

/-- What a phrase is read as has numbers from `low` to `high`, besides those that it goes on
from. -/
def Numbers (phrase : Phrase) (low : AccessId) (result : phrase.Result) (high : AccessId) : Prop :=
  ∃ ids, phrase.ids result = phrase.givenIds ++ ids ∧ Fresh low ids high

/-- A phrase takes numbers from `low` on, whether it can be read or not. -/
def Numbered (phrase : Phrase) (low : AccessId)
    (outcome : Outcome Reader ParseError phrase.Result) : Prop :=
  low ≤ outcome.2.nextId ∧
    ∀ result, outcome.1 = .ok result → phrase.Numbers low result outcome.2.nextId

variable {α β : Type} {closing : Token} {reader : Reader} {low : AccessId} {used : List AccessId}
  {post : α → AccessId → Prop}

/-- A step of reading a phrase that began at the number `low` takes numbers as they come, if the
phrases it calls do, and a result of it is as claimed. -/
def Counts (low : AccessId) (step : Reading α) (reader : Reader) (post : α → AccessId → Prop) :
    Prop :=
  Routine.Ensures (fun _ => True) (fun call => Numbered call.1 call.2.nextId) step reader
    fun outcome => low ≤ outcome.2.nextId ∧
      ∀ answer, outcome.1 = .ok answer → post answer outcome.2.nextId

theorem counts_pure {answer : α} (hused : Fresh low used reader.nextId)
    (h : post answer reader.nextId) : Counts low (pure answer) reader post := by
  refine ⟨hused.le, fun found hfound => ?_⟩
  cases hfound
  exact h

theorem counts_fail {problem : ParseError} (hused : Fresh low used reader.nextId) :
    Counts low (Routine.fail problem) reader post :=
  ⟨hused.le, fun _ h => by cases h⟩

theorem Counts.bind {first : Reading β} {next : β → Reading α}
    (h : Routine.Ensures (fun _ => True) (fun call => Numbered call.1 call.2.nextId) first reader
      fun outcome => low ≤ outcome.2.nextId ∧
        ∀ answer, outcome.1 = .ok answer → Counts low (next answer) outcome.2 post) :
    Counts low (first >>= next) reader post := by
  apply Routine.ensures_bind.2
  apply Routine.Ensures.mono h
  rintro ⟨problem | answer, reached⟩ ⟨hle, hnext⟩
  · exact ⟨hle, fun _ h => by cases h⟩
  · exact hnext answer rfl

theorem counts_call_bind {p : Phrase} {next : p.Result → Reading α} (hgiven : p.givenIds = [])
    (hused : Fresh low used reader.nextId)
    (h : ∀ answer reached, Fresh low (used ++ p.ids answer) reached.nextId →
      Counts low (next answer) reached post) :
    Counts low (Routine.call p >>= next) reader post := by
  apply Counts.bind
  refine Routine.ensures_call.2 ⟨trivial, fun outcome ⟨hle, hnumbered⟩ => ?_⟩
  refine ⟨Nat.le_trans hused.le hle, fun answer hanswer => ?_⟩
  obtain ⟨ids, hids, hfresh⟩ := hnumbered answer hanswer
  rw [hgiven] at hids
  obtain rfl : p.ids answer = ids := hids
  exact h answer outcome.2 (hused.append hfresh)

theorem counts_jump {p : Phrase} {post : p.Result → AccessId → Prop}
    (hused : Fresh low used reader.nextId)
    (h : ∀ answer high ids, p.ids answer = p.givenIds ++ ids → Fresh low (used ++ ids) high →
      post answer high) :
    Counts low (Routine.jump p) reader post := by
  refine Routine.ensures_jump.2 ⟨trivial, fun outcome ⟨hle, hnumbered⟩ => ?_⟩
  refine ⟨Nat.le_trans hused.le hle, fun answer hanswer => ?_⟩
  obtain ⟨ids, hids, hfresh⟩ := hnumbered answer hanswer
  exact h answer _ ids hids (hused.append hfresh)

theorem counts_freshId_bind {next : AccessId → Reading α} (hused : Fresh low used reader.nextId)
    (h : ∀ id reached, Fresh low (used ++ [id]) reached.nextId →
      Counts low (next id) reached post) :
    Counts low (freshId >>= next) reader post := by
  apply Counts.bind
  refine ⟨Nat.le_succ_of_le hused.le, fun id hid => ?_⟩
  cases hid
  exact h reader.nextId _ (hused.append (.single reader.nextId))

/-- A step that takes no numbers. -/
def Still (step : Reading α) : Prop :=
  ∀ reader, Routine.Ensures (fun _ => True) (fun call => Numbered call.1 call.2.nextId) step reader
    fun outcome => outcome.2.nextId = reader.nextId

theorem still_peek : Still (peek closing) := fun _ => rfl

theorem still_skip : Still skip := fun _ => rfl

theorem still_accept {wanted : Token.Kind → Bool} : Still (accept wanted) := by
  rintro ⟨_ | ⟨token, rest⟩, nextId⟩
  · rfl
  · apply Routine.ensures_step.2
    dsimp only
    split <;> rfl

theorem still_reject {problem : ParseProblem} : Still (reject closing problem : Reading α) :=
  fun _ => rfl

theorem still_expect {expected : Expectation} : Still (expect closing expected) := by
  intro reader
  apply Routine.ensures_bind.2
  apply Routine.Ensures.mono (still_accept reader)
  rintro ⟨problem | _ | token, reached⟩ h
  · exact h
  · exact Routine.Ensures.mono (still_reject reached) fun _ h' => h'.trans h
  · exact h

theorem Still.bind {first : Reading β} {next : β → Reading α} (hfirst : Still first)
    (hused : Fresh low used reader.nextId)
    (h : ∀ answer reached, Fresh low used reached.nextId → Counts low (next answer) reached post) :
    Counts low (first >>= next) reader post := by
  apply Counts.bind
  apply Routine.Ensures.mono (hfirst reader)
  intro outcome hnextId
  rw [← hnextId] at hused
  exact ⟨hused.le, fun answer _ => h answer outcome.2 hused⟩

theorem counts_reject {problem : ParseProblem} (hused : Fresh low used reader.nextId) :
    Counts low (reject closing problem) reader post :=
  still_peek.bind hused fun _ _ hused => counts_fail hused

theorem counts_unlessAt_bind {kind : Token.Kind} {absent : β} {present : Reading β}
    {next : β → Reading α} (hused : Fresh low used reader.nextId)
    (habsent : ∀ reached, Fresh low used reached.nextId → Counts low (next absent) reached post)
    (hpresent : ∀ reached, Fresh low used reached.nextId →
      Counts low (present >>= next) reached post) :
    Counts low (unlessAt closing kind absent present >>= next) reader post := by
  unfold unlessAt
  rw [Routine.bind_assoc]
  apply still_peek.bind hused
  intro token reached hused
  split
  · exact habsent reached hused
  · exact hpresent reached hused

theorem counts_optional_bind {kind : Token.Kind} {next : Option Expr → Reading α}
    (hused : Fresh low used reader.nextId)
    (h : ∀ (e : Option Expr) reached, Fresh low (used ++ e.elim [] Expr.ids) reached.nextId →
      Counts low (next e) reached post) :
    Counts low (unlessAt closing kind none (some <$> Routine.call anyExpression) >>= next) reader
      post := by
  apply counts_unlessAt_bind hused
  · intro reached hused
    rw [← List.append_nil used] at hused
    exact h none reached hused
  · intro reached hused
    have hbind : (some <$> Routine.call anyExpression : Reading (Option Expr)) >>= next =
        (Routine.call anyExpression : Reading Expr) >>= fun e => next (some e) :=
      Routine.bind_assoc _ _ _
    apply (congrArg (fun step => Counts low step reached post) hbind).mpr
    exact counts_call_bind rfl hused fun e last hused => h (some e) last hused

/-! ## Expressions -/

section Expressions

theorem counts_assignment {target value : Expr} {operator : Token} {start : AccessId}
    (hused : Fresh start (target.ids ++ value.ids) reader.nextId) :
    Counts start (assignment target operator value) reader
      (Numbers (.expression .assignment) start) := by
  cases target with
  | read id name =>
    unfold assignment
    dsimp only
    have hvalue : value.ids.Subperm (Expr.ids (.read id name) ++ value.ids) :=
      (List.sublist_append_right _ _).subperm
    split
    · apply counts_freshId_bind (hused.subperm hvalue)
      intro id reached hused
      exact counts_pure hused ⟨value.ids ++ [id], rfl, hused⟩
    · apply counts_freshId_bind (hused.subperm hvalue)
      intro readId reached hused
      apply counts_freshId_bind hused
      intro id last hused
      have hperm : ([readId] ++ value.ids ++ [id]).Perm (value.ids ++ [readId] ++ [id]) :=
        List.perm_append_comm.append_right [id]
      exact counts_pure hused ⟨_, rfl, hused.subperm hperm.subperm⟩
  | _ => exact counts_fail hused

theorem counts_primary :
    Counts reader.nextId (primary closing) reader fun e high => Fresh reader.nextId e.ids high := by
  have hnone : Fresh reader.nextId [] reader.nextId := .nil (Nat.le_refl _)
  unfold primary
  apply still_peek.bind hnone
  intro token reached hused
  have hconstant : ∀ constant : Constant, Counts reader.nextId (do
      skip
      pure (Expr.literal constant)) reached fun e high => Fresh reader.nextId e.ids high := by
    intro constant
    apply still_skip.bind hused
    intro _ last hused
    exact counts_pure hused hused
  split
  case h_1 | h_2 | h_3 => exact hconstant _
  case h_4 | h_5 =>
    split
    · exact hconstant _
    · exact hconstant _
    · exact counts_fail hused
  case h_6 =>
    apply counts_freshId_bind hused
    intro id last hused
    apply still_skip.bind hused
    intro _ last hused
    exact counts_pure hused hused
  case h_7 =>
    apply still_skip.bind hused
    intro _ reached hused
    apply counts_call_bind rfl hused
    intro inner reached hused
    apply still_expect.bind hused
    intro _ reached hused
    exact counts_pure hused hused
  case h_8 =>
    apply still_skip.bind hused
    intro _ reached hused
    apply still_expect.bind hused
    intro _ reached hused
    apply counts_call_bind rfl hused
    intro code reached hused
    apply still_expect.bind hused
    intro _ reached hused
    exact counts_pure hused hused
  case h_9 | h_10 | h_11 => exact counts_fail hused

theorem ids_join (level : Level) (left right : Expr) (operator : Token) :
    (level.join left operator right).ids = left.ids ++ right.ids := by
  cases level <;> rfl

theorem givenIds_operand (level : Level) : givenIds (.expression level.operand) = [] := by
  cases level <;> rfl

theorem counts_form (f : Form) :
    Counts reader.nextId (form closing f) reader
      (Numbers (.expression f) reader.nextId) := by
  have hnone : Fresh reader.nextId [] reader.nextId := .nil (Nat.le_refl _)
  cases f with
  | assignment =>
    apply counts_call_bind rfl hnone
    intro target reached hused
    apply still_accept.bind hused
    intro found reached hused
    cases found with
    | none => exact counts_pure hused ⟨_, rfl, hused⟩
    | some operator =>
      apply counts_call_bind rfl hused
      intro value reached hused
      exact counts_assignment hused
  | conditional =>
    apply counts_call_bind rfl hnone
    intro condition reached hused
    apply still_accept.bind hused
    intro found reached hused
    cases found with
    | none => exact counts_pure hused ⟨_, rfl, hused⟩
    | some question =>
      apply counts_call_bind rfl hused
      intro whenTrue reached hused
      apply still_expect.bind hused
      intro colon reached hused
      apply counts_call_bind rfl hused
      intro whenFalse reached hused
      exact counts_pure hused ⟨_, rfl, hused⟩
  | operation level =>
    apply counts_call_bind (givenIds_operand level) hnone
    intro left reached hused
    apply counts_jump hused
    intro e high ids hids hused
    exact ⟨_, hids, hused⟩
  | operations level left =>
    apply still_accept.bind hnone
    intro found reached hused
    cases found with
    | none => exact counts_pure hused ⟨[], (List.append_nil _).symm, hused⟩
    | some operator =>
      apply counts_call_bind (givenIds_operand level) hused
      intro right reached hused
      apply counts_jump hused
      intro e high ids hids hused
      refine ⟨_, hids.trans ?_, hused⟩
      have hgiven : givenIds (.expression (.operations level (level.join left operator right))) =
          left.ids ++ right.ids := ids_join level left right operator
      rw [hgiven, List.append_assoc]
      rfl
  | unary =>
    apply still_accept.bind hnone
    intro found reached hused
    cases found with
    | none =>
      apply counts_jump hused
      intro e high ids hids hused
      exact ⟨_, hids, hused⟩
    | some operator =>
      apply counts_call_bind rfl hused
      intro operand reached hused
      exact counts_pure hused ⟨_, rfl, hused⟩
  | call =>
    apply Counts.bind
    apply Routine.Ensures.mono counts_primary
    intro outcome hprimary
    refine ⟨hprimary.1, fun callee hcallee => ?_⟩
    have hused := hprimary.2 callee hcallee
    apply counts_jump hused
    intro e high ids hids hused
    exact ⟨_, hids, hused⟩
  | calls callee =>
    apply still_accept.bind hnone
    intro found reached hused
    cases found with
    | none => exact counts_pure hused ⟨[], (List.append_nil _).symm, hused⟩
    | some opening =>
      have hclose : ∀ (passed : List Expr) (reached : Reader),
          Fresh reader.nextId (Expr.allIds passed) reached.nextId →
          Counts reader.nextId (do
            let paren ← expect closing .parenAfterArguments
            Routine.jump (expression (.calls (.call callee paren passed)))) reached
            (Numbers (.expression (.calls callee)) reader.nextId) := by
        intro passed reached hused
        apply still_expect.bind hused
        intro paren reached hused
        apply counts_jump hused
        intro e high ids hids hused
        exact ⟨_, hids.trans (List.append_assoc _ _ _), hused⟩
      apply counts_unlessAt_bind hused
      · exact fun reached hused => hclose [] reached hused
      · intro reached hused
        exact counts_call_bind rfl hused fun passed reached hused => hclose passed reached hused

theorem counts_argumentList (count : Nat) :
    Counts reader.nextId (argumentList closing count) reader
      (Numbers (.arguments count) reader.nextId) := by
  have hnone : Fresh reader.nextId [] reader.nextId := .nil (Nat.le_refl _)
  unfold argumentList
  split
  · exact counts_reject hnone
  · apply counts_call_bind rfl hnone
    intro argument reached hused
    apply still_accept.bind hused
    intro found reached hused
    cases found with
    | none => exact counts_pure hused ⟨_, List.append_nil _, hused⟩
    | some comma =>
      apply counts_call_bind rfl hused
      intro others reached hused
      exact counts_pure hused ⟨_, rfl, hused⟩

end Expressions

/-! ## Statements -/

section Statements

theorem counts_parameterList (count : Nat) :
    Counts reader.nextId (parameterList closing count) reader
      (Numbers (.parameters count) reader.nextId) := by
  have hnone : Fresh reader.nextId [] reader.nextId := .nil (Nat.le_refl _)
  unfold parameterList
  split
  · exact counts_reject hnone
  · apply still_expect.bind hnone
    intro parameter reached hused
    apply still_accept.bind hused
    intro found reached hused
    cases found with
    | none => exact counts_pure hused ⟨[], rfl, hused⟩
    | some comma =>
      apply counts_call_bind rfl hused
      intro others reached hused
      exact counts_pure hused ⟨[], rfl, hused⟩

variable {used : List AccessId}

theorem counts_functionDeclaration (hused : Fresh low [] reader.nextId) :
    Counts low (functionDeclaration closing) reader (Numbers .declaration low) := by
  unfold functionDeclaration
  apply still_expect.bind hused
  intro name reached hused
  apply still_expect.bind hused
  intro opening reached hused
  have hbody : ∀ (declared : List Token) (reached : Reader), Fresh low [] reached.nextId →
      Counts low (do
        let _ ← expect closing .parenAfterParameters
        let _ ← expect closing .braceBeforeBody
        let body ← Routine.call block
        pure (Stmt.function name declared body)) reached (Numbers .declaration low) := by
    intro declared reached hused
    apply still_expect.bind hused
    intro paren reached hused
    apply still_expect.bind hused
    intro brace reached hused
    apply counts_call_bind rfl hused
    intro body reached hused
    exact counts_pure hused ⟨_, rfl, hused⟩
  apply counts_unlessAt_bind hused
  · exact fun reached hused => hbody [] reached hused
  · intro reached hused
    exact counts_call_bind rfl hused fun declared reached hused => hbody declared reached hused

theorem counts_variableDeclaration (hused : Fresh low [] reader.nextId) :
    Counts low (variableDeclaration closing) reader fun s high => Fresh low s.ids high := by
  unfold variableDeclaration
  apply still_expect.bind hused
  intro name reached hused
  apply still_accept.bind hused
  intro found reached hused
  cases found with
  | none =>
    apply still_expect.bind hused
    intro semicolon reached hused
    exact counts_pure hused hused
  | some equal =>
    apply counts_call_bind rfl hused
    intro value reached hused
    apply still_expect.bind hused
    intro semicolon reached hused
    exact counts_pure hused hused

theorem counts_ifStatement (hused : Fresh low [] reader.nextId) :
    Counts low (ifStatement closing) reader (Numbers .statement low) := by
  unfold ifStatement
  apply still_expect.bind hused
  intro opening reached hused
  apply counts_call_bind rfl hused
  intro condition reached hused
  apply still_expect.bind hused
  intro paren reached hused
  apply counts_call_bind rfl hused
  intro whenTrue reached hused
  apply still_accept.bind hused
  intro found reached hused
  cases found with
  | none => exact counts_pure hused ⟨_, rfl, hused⟩
  | some otherwise =>
    apply counts_call_bind rfl hused
    intro whenFalse reached hused
    exact counts_pure hused ⟨_, rfl, hused⟩

theorem counts_whileStatement (hused : Fresh low [] reader.nextId) :
    Counts low (whileStatement closing) reader (Numbers .statement low) := by
  unfold whileStatement
  apply still_expect.bind hused
  intro opening reached hused
  apply counts_call_bind rfl hused
  intro condition reached hused
  apply still_expect.bind hused
  intro paren reached hused
  apply counts_call_bind rfl hused
  intro body reached hused
  exact counts_pure hused ⟨_, rfl, hused⟩

theorem counts_forInitializer_bind {next : Option Stmt → Reading Stmt}
    {post : Stmt → AccessId → Prop} (hused : Fresh low [] reader.nextId)
    (h : ∀ (first : Option Stmt) reached, Fresh low (first.elim [] Stmt.ids) reached.nextId →
      Counts low (next first) reached post) :
    Counts low (forInitializer closing >>= next) reader post := by
  have hfirst : Counts low (forInitializer closing) reader
      fun first high => Fresh low (first.elim [] Stmt.ids) high := by
    unfold forInitializer
    apply still_accept.bind hused
    intro found reached hused
    cases found with
    | some semicolon => exact counts_pure hused hused
    | none =>
      apply still_accept.bind hused
      intro found reached hused
      cases found with
      | some keyword =>
        apply Counts.bind
        apply Routine.Ensures.mono (counts_variableDeclaration hused)
        intro outcome hdeclared
        refine ⟨hdeclared.1, fun s hs => ?_⟩
        exact counts_pure (hdeclared.2 s hs) (hdeclared.2 s hs)
      | none =>
        apply counts_call_bind rfl hused
        intro value reached hused
        apply still_expect.bind hused
        intro semicolon reached hused
        exact counts_pure hused hused
  apply Counts.bind
  apply Routine.Ensures.mono hfirst
  intro outcome hinitializer
  exact ⟨hinitializer.1, fun first hfirst => h first outcome.2 (hinitializer.2 first hfirst)⟩

/-- A loop has the numbers of its clauses, though in another order. -/
theorem ids_forLoop (first : Option Stmt) (condition : Expr) (increment : Option Expr)
    (body : Stmt) :
    (forLoop first condition increment body).ids.Perm
      (first.elim [] Stmt.ids ++ condition.ids ++ increment.elim [] Expr.ids ++ body.ids) := by
  cases first <;> cases increment <;>
    simp [forLoop, Stmt.ids, Stmt.allIds, List.perm_append_left_iff, List.perm_append_comm]

theorem counts_forStatement (hused : Fresh low [] reader.nextId) :
    Counts low (forStatement closing) reader (Numbers .statement low) := by
  unfold forStatement
  apply still_expect.bind hused
  intro opening reached hused
  apply counts_forInitializer_bind hused
  intro first reached hused
  have hclauses : ∀ (condition : Expr) (reached : Reader),
      Fresh low (first.elim [] Stmt.ids ++ condition.ids) reached.nextId →
      Counts low (do
        let _ ← expect closing .semicolonAfterForCondition
        let increment ← unlessAt closing .rightParen none (some <$> Routine.call anyExpression)
        let _ ← expect closing .parenAfterForClauses
        let body ← Routine.call statement
        pure (forLoop first condition increment body)) reached (Numbers .statement low) := by
    intro condition reached hused
    apply still_expect.bind hused
    intro semicolon reached hused
    apply counts_optional_bind hused
    intro increment reached hused
    apply still_expect.bind hused
    intro paren reached hused
    apply counts_call_bind rfl hused
    intro body reached hused
    apply counts_pure hused
    exact ⟨_, rfl, hused.subperm (ids_forLoop first condition increment body).subperm⟩
  apply counts_unlessAt_bind hused
  · intro reached hused
    rw [← List.append_nil (first.elim [] Stmt.ids)] at hused
    exact hclauses (.literal (.bool true)) reached hused
  · intro reached hused
    exact counts_call_bind rfl hused fun condition reached hused => hclauses condition reached hused

theorem counts_anyStatement :
    Counts reader.nextId (anyStatement closing) reader (Numbers .statement reader.nextId) := by
  have hnone : Fresh reader.nextId [] reader.nextId := .nil (Nat.le_refl _)
  unfold anyStatement
  apply still_peek.bind hnone
  intro keyword reached hused
  split
  · apply still_skip.bind hused
    intro _ reached hused
    apply counts_call_bind rfl hused
    intro value reached hused
    apply still_expect.bind hused
    intro semicolon reached hused
    exact counts_pure hused ⟨_, rfl, hused⟩
  · exact still_skip.bind hused fun _ _ hused => counts_ifStatement hused
  · exact still_skip.bind hused fun _ _ hused => counts_whileStatement hused
  · exact still_skip.bind hused fun _ _ hused => counts_forStatement hused
  · apply still_skip.bind hused
    intro _ reached hused
    apply counts_optional_bind hused
    intro value reached hused
    apply still_expect.bind hused
    intro semicolon reached hused
    apply counts_pure hused
    cases value <;> exact ⟨_, rfl, hused⟩
  · apply still_skip.bind hused
    intro _ reached hused
    apply counts_call_bind rfl hused
    intro body reached hused
    exact counts_pure hused ⟨_, rfl, hused⟩
  · apply counts_call_bind rfl hused
    intro value reached hused
    apply still_expect.bind hused
    intro semicolon reached hused
    exact counts_pure hused ⟨_, rfl, hused⟩

theorem counts_anyDeclaration :
    Counts reader.nextId (anyDeclaration closing) reader
      (Numbers .declaration reader.nextId) := by
  have hnone : Fresh reader.nextId [] reader.nextId := .nil (Nat.le_refl _)
  unfold anyDeclaration
  apply still_peek.bind hnone
  intro keyword reached hused
  split
  · exact still_skip.bind hused fun _ _ hused => counts_functionDeclaration hused
  · apply still_skip.bind hused
    intro _ reached hused
    apply Routine.Ensures.mono (counts_variableDeclaration hused)
    intro outcome hdeclared
    exact ⟨hdeclared.1, fun s hs => ⟨_, rfl, hdeclared.2 s hs⟩⟩
  · exact counts_fail hused
  · apply counts_jump hused
    intro s high ids hids hused
    exact ⟨_, hids, hused⟩

theorem counts_blockBody :
    Counts reader.nextId (blockBody closing) reader (Numbers .block reader.nextId) := by
  have hnone : Fresh reader.nextId [] reader.nextId := .nil (Nat.le_refl _)
  unfold blockBody
  apply still_peek.bind hnone
  intro next reached hused
  split
  · apply still_expect.bind hused
    intro brace reached hused
    exact counts_pure hused ⟨[], rfl, hused⟩
  · apply counts_call_bind rfl hused
    intro first reached hused
    apply counts_call_bind rfl hused
    intro others reached hused
    exact counts_pure hused ⟨_, rfl, hused⟩

end Statements

/-! ## Programs -/

theorem counts_programBody :
    Counts reader.nextId programBody reader (Numbers .program reader.nextId) := by
  have hnone : Fresh reader.nextId [] reader.nextId := .nil (Nat.le_refl _)
  unfold programBody
  apply Counts.bind
  refine ⟨Nat.le_refl _, fun left hleft => ?_⟩
  split
  · exact counts_pure hnone ⟨[], rfl, hnone⟩
  · have hothers : ∀ (first : Except ParseError Stmt) (reached : Reader),
        Fresh reader.nextId (ids .program [first]) reached.nextId →
        Counts reader.nextId (do
          let others ← Routine.call program
          pure (first :: others)) reached (Numbers .program reader.nextId) := by
      intro first reached hused
      apply counts_call_bind rfl hused
      intro others reached hused
      refine counts_pure hused ⟨_, ?_, hused⟩
      exact @List.flatMap_append _ _ [first] others _
    apply Counts.bind
    apply Routine.ensures_attempt.2
    refine Routine.ensures_call.2 ⟨trivial, fun outcome hnumbered => ?_⟩
    refine ⟨hnumbered.1, fun first hfirst => ?_⟩
    cases hfirst
    obtain ⟨problem | s, reached⟩ := outcome
    · exact hothers (.error problem) _ (.nil hnumbered.1)
    · obtain ⟨found, hfound, hfresh⟩ := hnumbered.2 s rfl
      obtain rfl : s.ids = found := hfound
      have hids : ids .program [.ok s] = s.ids := List.append_nil s.ids
      apply hothers (.ok s) reached
      rw [hids]
      exact hfresh

/-- Whatever phrase is read, the numbers are taken in order. -/
theorem numbered_of_read {phrase : Phrase} {outcome : Outcome Reader ParseError phrase.Result}
    (h : Routine.Ends (read closing) (read closing phrase) reader outcome) :
    phrase.Numbered reader.nextId outcome := by
  have hread : ∀ (phrase : Phrase) (reader : Reader), True →
      Routine.Ensures (fun _ => True) (fun call => Numbered call.1 call.2.nextId)
        (read closing phrase) reader (Numbered phrase reader.nextId) := by
    intro phrase reader _
    cases phrase with
    | expression f => exact counts_form f
    | arguments count => exact counts_argumentList count
    | parameters count => exact counts_parameterList count
    | declaration => exact counts_anyDeclaration
    | statement => exact counts_anyStatement
    | block => exact counts_blockBody
    | program => exact counts_programBody
  exact @Routine.Ends.of_ensures Phrase Reader ParseError Result (read closing) reader
    (fun _ => True) (fun call => Numbered call.1 call.2.nextId) hread phrase outcome trivial h

end Phrase

namespace Program

/-- Reading a program gives no number back, whether it is malformed or not. -/
theorem le_nextId_ofTokens (tokens : List Token) (nextId : AccessId) :
    nextId ≤ (ofTokens tokens nextId).2 := by
  rw [nextId_ofTokens]
  exact (Phrase.numbered_of_read (ends_reading tokens nextId)).1

/-- The accesses in a program have numbers of their own, which were not in use before. -/
theorem fresh_of_ofTokens {tokens : List Token} {nextId next : AccessId} {program : List Stmt}
    (h : ofTokens tokens nextId = (.ok program, next)) :
    Fresh nextId (Stmt.allIds program) next := by
  obtain ⟨reader, hdeclarations, rfl⟩ := ofTokens_eq_ok_iff.1 h
  have hnumbered := Phrase.numbered_of_read (ends_reading tokens nextId)
  rw [hdeclarations] at hnumbered
  obtain ⟨ids, hids, hfresh⟩ := hnumbered.2 _ rfl
  have hprogram : ∀ program : List Stmt,
      Phrase.ids .program (program.map .ok) = Stmt.allIds program := by
    intro program
    induction program with
    | nil => rfl
    | cons s ss ih => exact congrArg (s.ids ++ ·) ih
  obtain rfl := (hprogram program).symm.trans hids
  exact hfresh

end Program

end Lox
