/-
# Renaming a variable in the tokens of a program

A program in which a local variable is renamed can be written down: its tokens are those of the
program that it comes from, with the new name in the places where the renaming puts it. The grammar
derives them in the same way. In a compound assignment, where one name of the program stands for two
in the tree, both are renamed or neither is, since they stand at one place.
-/

import Lox.Proofs.Grammar.Completeness
import Lox.Proofs.Tree.Renamed

namespace Lox

theorem Token.rewritten_respelled {ρ : Respelling} {name : Token} (h : name.kind = .identifier)
    (mark : Bool) : name.Rewritten ρ (name.respelled ρ mark) := by
  unfold respelled Respelling.spell
  split
  · rename_i hold
    exact .renamed h hold.2
  · exact .same

namespace Grammar

variable {ρ : Respelling}

open Phrase (Level)

/-- A variable is renamed in the tree of a derivation, at a place and in scopes with some marks. -/
def Symbol.Renamed (ρ : Respelling) (p : Place) (marks : List Bool) :
    (symbol : Symbol) → symbol.Tree → symbol.Tree → Prop
  | .expression _, e, e' => e.Renamed (.static ρ) p marks e'
  | .optional, value, value' => Option.Rel (Expr.Renamed (.static ρ) p marks) value value'
  | .values, es, es' | .arguments, es, es' => Expr.AllRenamed (.static ρ) p marks es es'
  | .names, tokens, tokens' | .parameters, tokens, tokens' =>
    List.Forall₂ ((Renaming.static ρ).declares (marks.headD false)) tokens tokens'
  | .initializer, first, first' => Option.Rel (Stmt.Renamed (.static ρ) p marks) first first'
  | .varDecl, s, s' | .statement _, s, s' | .declaration, s, s' =>
    s.Renamed (.static ρ) p marks s'
  | .declarations, ss, ss' => Stmt.AllRenamed (.static ρ) p marks ss ss'

/-- The tree of a derivation with every access numbered zero. -/
def Symbol.unnumbered : (symbol : Symbol) → symbol.Tree → symbol.Tree
  | .expression _, e => e.unnumbered
  | .optional, value => value.map Expr.unnumbered
  | .values, es | .arguments, es => Expr.allUnnumbered es
  | .names, tokens | .parameters, tokens => tokens
  | .initializer, first => first.map Stmt.unnumbered
  | .varDecl, s | .statement _, s | .declaration, s => s.unnumbered
  | .declarations, ss => Stmt.allUnnumbered ss

/-- The tokens of a derivation can be written anew so that a tree is derived. -/
def Rewrites (ρ : Respelling) (symbol : Symbol) (ts : List Token) (tree : symbol.Tree) : Prop :=
  ∃ ts', List.Forall₂ (Token.Rewritten ρ) ts ts' ∧ Derives symbol ts' (symbol.unnumbered tree)

/-! ## Trees that stand for more than one phrase -/

theorem renamed_joined {p : Place} {marks : List Bool} {level : Level} {left right e' : Expr}
    {operator : Token} (h : (joined level left operator right).Renamed (.static ρ) p marks e') :
    ∃ left' right', left.Renamed (.static ρ) p marks left' ∧
      right.Renamed (.static ρ) p marks right' ∧
        e'.unnumbered = joined level left'.unnumbered operator right'.unnumbered := by
  unfold joined at h ⊢
  split at h
  · rename_i hlevel
    cases h with
    | logical hleft hright => exact ⟨_, _, hleft, hright, by rw [if_pos hlevel]; rfl⟩
  · rename_i hlevel
    cases h with
    | binary hleft hright => exact ⟨_, _, hleft, hright, by rw [if_neg hlevel]; rfl⟩

/-- The parts of a renamed loop are the parts of the loop renamed, each at a place of its own. -/
theorem renamed_loop {p : Place} {marks : List Bool} {first : Option Stmt}
    {condition increment : Option Expr} {body s' : Stmt}
    (h : (loop first condition increment body).Renamed (.static ρ) p marks s') :
    ∃ first' condition' increment' body',
      (∃ p marks, Symbol.Renamed ρ p marks .initializer first first') ∧
      (∃ p marks, Symbol.Renamed ρ p marks .optional condition condition') ∧
      (∃ p marks, Symbol.Renamed ρ p marks .optional increment increment') ∧
      (∃ p marks, body.Renamed (.static ρ) p marks body') ∧
      s'.unnumbered = loop (first'.map Stmt.unnumbered) (condition'.map Expr.unnumbered)
        (increment'.map Expr.unnumbered) body'.unnumbered := by
  have hround : ∀ {p : Place} {marks : List Bool} {body' : Stmt},
      (round body increment).Renamed (.static ρ) p marks body' → ∃ increment' inner,
        (∃ p marks, Symbol.Renamed ρ p marks .optional increment increment') ∧
        (∃ p marks, body.Renamed (.static ρ) p marks inner) ∧
        body'.unnumbered = round inner.unnumbered (increment'.map Expr.unnumbered) := by
    intro p marks body' h
    cases increment with
    | none => exact ⟨none, body', ⟨p, marks, Option.Rel.none⟩, ⟨p, marks, h⟩, rfl⟩
    | some increment =>
      cases h with
      | block h =>
        cases h with
        | cons hbody h =>
          cases h with
          | cons hincrement h =>
            cases h
            cases hincrement with
            | expression hincrement =>
              exact ⟨some _, _, ⟨_, _, Option.Rel.some hincrement⟩, ⟨_, _, hbody⟩, rfl⟩
  have hwhile : ∀ {p : Place} {marks : List Bool} {rounds : Stmt},
      (Stmt.while (condition.getD (.literal (.bool true))) (round body increment)).Renamed
        (.static ρ) p marks rounds → ∃ condition' increment' body',
        (∃ p marks, Symbol.Renamed ρ p marks .optional condition condition') ∧
        (∃ p marks, Symbol.Renamed ρ p marks .optional increment increment') ∧
        (∃ p marks, body.Renamed (.static ρ) p marks body') ∧
        rounds.unnumbered = loop none (condition'.map Expr.unnumbered)
          (increment'.map Expr.unnumbered) body'.unnumbered := by
    intro p marks rounds h
    cases h with
    | «while» hcondition hrounds =>
      obtain ⟨increment', body', hincrement, hbody, heq⟩ := hround hrounds
      cases condition with
      | none =>
        cases hcondition
        exact ⟨none, increment', body', ⟨p, marks, Option.Rel.none⟩, hincrement, hbody,
          congrArg (Stmt.while _) heq⟩
      | some condition =>
        exact ⟨some _, increment', body', ⟨p, marks, Option.Rel.some hcondition⟩, hincrement, hbody,
          congrArg (Stmt.while _) heq⟩
  cases first with
  | none =>
    obtain ⟨condition', increment', body', hcondition, hincrement, hbody, heq⟩ := hwhile h
    exact ⟨none, condition', increment', body', ⟨p, marks, Option.Rel.none⟩, hcondition, hincrement,
      hbody, heq⟩
  | some first =>
    cases h with
    | block h =>
      cases h with
      | @cons _ _ _ first' _ _ hfirst h =>
        cases h with
        | cons h hend =>
          cases hend
          obtain ⟨condition', increment', body', hcondition, hincrement, hbody, heq⟩ := hwhile h
          refine ⟨some first', condition', increment', body', ⟨_, _, Option.Rel.some hfirst⟩,
            hcondition,
            hincrement, hbody, ?_⟩
          show Stmt.block [first'.unnumbered, Stmt.unnumbered _] = _
          rw [heq]
          rfl

theorem length_eq_of_renamed {p : Place} {marks : List Bool} {es es' : List Expr}
    (h : Expr.AllRenamed (.static ρ) p marks es es') : es.length = es'.length := by
  induction es generalizing es' with
  | nil =>
    cases h
    rfl
  | cons e es ih =>
    cases h with
    | cons _ hs => exact congrArg (· + 1) (ih hs)

/-! ## Derivations -/

/-- A rule that leaves tokens as they are leaves them so when they are written anew. -/
theorem Rewrites.imp {symbol symbol' : Symbol} {ts : List Token} {tree : symbol.Tree}
    {tree' : symbol'.Tree} (h : Rewrites ρ symbol ts tree)
    (hrule : ∀ ts', Derives symbol ts' (symbol.unnumbered tree) →
      Derives symbol' ts' (symbol'.unnumbered tree')) : Rewrites ρ symbol' ts tree' := by
  obtain ⟨ts', hts, hderives⟩ := h
  exact ⟨ts', hts, hrule ts' hderives⟩

/-- Whatever the grammar derives, it derives with a variable renamed. -/
theorem Derives.rewrites {symbol : Symbol} {ts : List Token} {tree tree' : symbol.Tree}
    (h : Derives symbol ts tree) {p : Place} {marks : List Bool}
    (hrenamed : symbol.Renamed ρ p marks tree tree') : Rewrites ρ symbol ts tree' := by
  induction h generalizing p marks with
  | assign hname hequal _ ih =>
    cases hrenamed with
    | assign h hvalue =>
      obtain ⟨us', hus, hderives⟩ := ih hvalue
      obtain rfl := h.2
      exact ⟨_, .cons (Token.rewritten_respelled hname _) (.cons .same hus),
        .assign hname hequal hderives⟩
  | compound hname hoperator _ ih =>
    cases hrenamed with
    | assign h hvalue =>
      cases hvalue with
      | binary hread hvalue =>
        cases hread with
        | read hread =>
          obtain ⟨us', hus, hderives⟩ := ih hvalue
          -- Both accesses are at the place `p`, so one token can be written for the two.
          obtain rfl := h.2
          obtain rfl := hread.2
          exact ⟨_, .cons (Token.rewritten_respelled hname _) (.cons .same hus),
            .compound hname hoperator hderives⟩
  | noAssignment _ ih => exact (ih hrenamed).imp fun _ => .noAssignment
  | conditional _ hquestion _ hcolon _ ihCondition ihTrue ihFalse =>
    cases hrenamed with
    | conditional hcondition htrue hfalse =>
      obtain ⟨ts', hts, hcondition⟩ := ihCondition hcondition
      obtain ⟨us', hus, htrue⟩ := ihTrue htrue
      obtain ⟨vs', hvs, hfalse⟩ := ihFalse hfalse
      exact ⟨_, List.rel_append hts (.cons .same (List.rel_append hus (.cons .same hvs))),
        .conditional hcondition hquestion htrue hcolon hfalse⟩
  | noConditional _ ih => exact (ih hrenamed).imp fun _ => .noConditional
  | operation _ hoperator _ ihLeft ihRight =>
    obtain ⟨left', right', hleft, hright, htree⟩ := renamed_joined hrenamed
    obtain ⟨ts', hts, hleft⟩ := ihLeft hleft
    obtain ⟨us', hus, hright⟩ := ihRight hright
    refine ⟨_, List.rel_append hts (.cons .same hus), ?_⟩
    change Derives (.expression (.operation _)) _ (Expr.unnumbered tree')
    rw [htree]
    exact .operation hleft hoperator hright
  | noOperation _ ih => exact (ih hrenamed).imp fun _ => .noOperation
  | unary hoperator _ ih =>
    cases hrenamed with
    | unary hoperand =>
      obtain ⟨us', hus, hderives⟩ := ih hoperand
      exact ⟨_, .cons .same hus, .unary hoperator hderives⟩
  | noUnary _ ih => exact (ih hrenamed).imp fun _ => .noUnary
  | call _ hopening _ hparen ihCallee ihPassed =>
    cases hrenamed with
    | call hcallee hpassed =>
      obtain ⟨ts', hts, hcallee⟩ := ihCallee hcallee
      obtain ⟨us', hus, hpassed⟩ := ihPassed hpassed
      exact ⟨_, List.rel_append hts (.cons .same (List.rel_append hus (.cons .same .nil))),
        .call hcallee hopening hpassed hparen⟩
  | noCall _ ih => exact (ih hrenamed).imp fun _ => .noCall
  | falseLiteral h =>
    cases hrenamed
    exact ⟨_, .cons .same .nil, .falseLiteral h⟩
  | trueLiteral h =>
    cases hrenamed
    exact ⟨_, .cons .same .nil, .trueLiteral h⟩
  | nilLiteral h =>
    cases hrenamed
    exact ⟨_, .cons .same .nil, .nilLiteral h⟩
  | numberLiteral h hliteral =>
    cases hrenamed
    exact ⟨_, .cons .same .nil, .numberLiteral h hliteral⟩
  | stringLiteral h hliteral =>
    cases hrenamed
    exact ⟨_, .cons .same .nil, .stringLiteral h hliteral⟩
  | read hname =>
    cases hrenamed with
    | read h =>
      obtain rfl := h.2
      exact ⟨_, .cons (Token.rewritten_respelled hname _) .nil, .read hname⟩
  | group hopening _ hclosing ih =>
    cases hrenamed with
    | group hinner =>
      obtain ⟨us', hus, hderives⟩ := ih hinner
      exact ⟨_, .cons .same (List.rel_append hus (.cons .same .nil)),
        .group hopening hderives hclosing⟩
  | host hkeyword hopening _ hclosing ih =>
    cases hrenamed with
    | host hcode =>
      obtain ⟨us', hus, hderives⟩ := ih hcode
      exact ⟨_, .cons .same (.cons .same (List.rel_append hus (.cons .same .nil))),
        .host hkeyword hopening hderives hclosing⟩
  | absent =>
    cases hrenamed
    exact ⟨_, .nil, .absent⟩
  | present _ ih =>
    cases hrenamed with
    | some hrenamed => exact (ih hrenamed).imp fun _ => .present
  | lastValue _ ih =>
    cases hrenamed with
    | cons hvalue hend =>
      cases hend
      exact (ih hvalue).imp fun _ => .lastValue
  | moreValues _ hcomma _ ih ihOthers =>
    cases hrenamed with
    | cons hvalue hothers =>
      obtain ⟨ts', hts, hderives⟩ := ih hvalue
      obtain ⟨us', hus, hothers⟩ := ihOthers hothers
      exact ⟨_, List.rel_append hts (.cons .same hus), .moreValues hderives hcomma hothers⟩
  | noArguments =>
    cases hrenamed
    exact ⟨_, .nil, .noArguments⟩
  | arguments _ hmost ih =>
    have hmost' := Nat.le_trans (Nat.le_of_eq (length_eq_of_renamed hrenamed).symm) hmost
    rw [← Expr.length_allUnnumbered] at hmost'
    exact (ih hrenamed).imp fun _ hderives => .arguments hderives hmost'
  | lastName hname =>
    cases hrenamed with
    | cons h hend =>
      cases hend
      obtain rfl := h.2
      exact ⟨_, .cons (Token.rewritten_respelled hname _) .nil, .lastName hname⟩
  | moreNames hname hcomma _ ih =>
    cases hrenamed with
    | cons h hothers =>
      obtain ⟨us', hus, hothers⟩ := @ih _ p marks hothers
      obtain rfl := h.2
      exact ⟨_, .cons (Token.rewritten_respelled hname _) (.cons .same hus),
        .moreNames hname hcomma hothers⟩
  | noParameters =>
    cases hrenamed
    exact ⟨_, .nil, .noParameters⟩
  | parameters _ hmost ih =>
    have hmost' := Nat.le_trans (Nat.le_of_eq hrenamed.length_eq.symm) hmost
    exact (@ih tree' p marks hrenamed).imp fun _ hderives => .parameters hderives hmost'
  | uninitialized hname hsemicolon =>
    cases hrenamed with
    | varNil h =>
      obtain rfl := h.2
      exact ⟨_, .cons (Token.rewritten_respelled hname _) (.cons .same .nil),
        .uninitialized hname hsemicolon⟩
  | initialized hname hequal _ hsemicolon ih =>
    cases hrenamed with
    | varValue h hvalue =>
      obtain ⟨us', hus, hderives⟩ := ih hvalue
      obtain rfl := h.2
      exact ⟨_, .cons (Token.rewritten_respelled hname _)
          (.cons .same (List.rel_append hus (.cons .same .nil))),
        .initialized hname hequal hderives hsemicolon⟩
  | noInitializer hsemicolon =>
    cases hrenamed
    exact ⟨_, .cons .same .nil, .noInitializer hsemicolon⟩
  | variableInitializer hkeyword _ ih =>
    cases hrenamed with
    | some hrenamed =>
      obtain ⟨us', hus, hderives⟩ := ih hrenamed
      exact ⟨_, .cons .same hus, .variableInitializer hkeyword hderives⟩
  | expressionInitializer _ hsemicolon ih =>
    cases hrenamed with
    | some hrenamed =>
      cases hrenamed with
      | expression hvalue =>
        obtain ⟨ts', hts, hderives⟩ := ih hvalue
        exact ⟨_, List.rel_append hts (.cons .same .nil),
          .expressionInitializer hderives hsemicolon⟩
  | print hkeyword _ hsemicolon ih =>
    cases hrenamed with
    | print hvalue =>
      obtain ⟨us', hus, hderives⟩ := ih hvalue
      exact ⟨_, .cons .same (List.rel_append hus (.cons .same .nil)),
        .print hkeyword hderives hsemicolon⟩
  | ifThen hkeyword hopening _ hclosing _ ihCondition ihTrue =>
    cases hrenamed with
    | ifThen hcondition htrue =>
      obtain ⟨us', hus, hcondition⟩ := ihCondition hcondition
      obtain ⟨vs', hvs, htrue⟩ := ihTrue htrue
      exact ⟨_, .cons .same (.cons .same (List.rel_append hus (.cons .same hvs))),
        .ifThen hkeyword hopening hcondition hclosing htrue⟩
  | ifElse hkeyword hopening _ hclosing _ hotherwise _ ihCondition ihTrue ihFalse =>
    cases hrenamed with
    | ifElse hcondition htrue hfalse =>
      obtain ⟨us', hus, hcondition⟩ := ihCondition hcondition
      obtain ⟨vs', hvs, htrue⟩ := ihTrue htrue
      obtain ⟨ws', hws, hfalse⟩ := ihFalse hfalse
      exact ⟨_, .cons .same (.cons .same (List.rel_append hus
          (.cons .same (List.rel_append hvs (.cons .same hws))))),
        .ifElse hkeyword hopening hcondition hclosing htrue hotherwise hfalse⟩
  | «while» hkeyword hopening _ hclosing _ ihCondition ihBody =>
    cases hrenamed with
    | «while» hcondition hbody =>
      obtain ⟨us', hus, hcondition⟩ := ihCondition hcondition
      obtain ⟨vs', hvs, hbody⟩ := ihBody hbody
      exact ⟨_, .cons .same (.cons .same (List.rel_append hus (.cons .same hvs))),
        .while hkeyword hopening hcondition hclosing hbody⟩
  | «for» hkeyword hopening _ _ hsemicolon _ hclosing _ ihFirst ihCondition ihIncrement ihBody =>
    obtain ⟨first', condition', increment', body', ⟨_, _, hfirst⟩, ⟨_, _, hcondition⟩,
      ⟨_, _, hincrement⟩, ⟨_, _, hbody⟩, htree⟩ := renamed_loop hrenamed
    obtain ⟨us', hus, hfirst⟩ := ihFirst hfirst
    obtain ⟨vs', hvs, hcondition⟩ := ihCondition hcondition
    obtain ⟨ws', hws, hincrement⟩ := ihIncrement hincrement
    obtain ⟨xs', hxs, hbody⟩ := ihBody hbody
    refine ⟨_, .cons .same (.cons .same (List.rel_append hus (List.rel_append hvs
      (.cons .same (List.rel_append hws (.cons .same hxs)))))), ?_⟩
    change Derives (.statement _) _ (Stmt.unnumbered tree')
    rw [htree]
    exact .for hkeyword hopening hfirst hcondition hsemicolon hincrement hclosing hbody
  | «return» hkeyword _ hsemicolon ih =>
    cases hrenamed with
    | returnNil =>
      obtain ⟨us', hus, hderives⟩ := @ih none p marks .none
      exact ⟨_, .cons .same (List.rel_append hus (.cons .same .nil)),
        .return hkeyword hderives hsemicolon⟩
    | @returnValue _ _ _ _ value' hvalue =>
      obtain ⟨us', hus, hderives⟩ := @ih (some value') p marks (.some hvalue)
      exact ⟨_, .cons .same (List.rel_append hus (.cons .same .nil)),
        .return hkeyword hderives hsemicolon⟩
  | block hopening _ hclosing ih =>
    cases hrenamed with
    | block hbody =>
      obtain ⟨us', hus, hderives⟩ := ih hbody
      exact ⟨_, .cons .same (List.rel_append hus (.cons .same .nil)),
        .block hopening hderives hclosing⟩
  | expression _ hsemicolon ih =>
    cases hrenamed with
    | expression hvalue =>
      obtain ⟨ts', hts, hderives⟩ := ih hvalue
      exact ⟨_, List.rel_append hts (.cons .same .nil), .expression hderives hsemicolon⟩
  | function hkeyword hname hopening _ hclosing hbrace _ hclosingBrace ihDeclared ihBody =>
    cases hrenamed with
    | @function _ _ mark _ _ parameters' _ body' _ hparameters hbody =>
      obtain ⟨us', hus, hdeclared⟩ := @ihDeclared parameters' p (mark :: marks) hparameters
      obtain ⟨vs', hvs, hbody⟩ := ihBody hbody
      exact ⟨_, .cons .same (.cons .same (.cons .same (List.rel_append hus
          (.cons .same (.cons .same (List.rel_append hvs (.cons .same .nil))))))),
        .function hkeyword hname hopening hdeclared hclosing hbrace hbody hclosingBrace⟩
  | var hkeyword _ ih =>
    obtain ⟨us', hus, hderives⟩ := ih hrenamed
    exact ⟨_, .cons .same hus, .var hkeyword hderives⟩
  | statement _ ih => exact (ih hrenamed).imp fun _ => .statement
  | noDeclarations =>
    cases hrenamed
    exact ⟨_, .nil, .noDeclarations⟩
  | moreDeclarations _ _ ih ihOthers =>
    cases hrenamed with
    | cons h hothers =>
      obtain ⟨ts', hts, hderives⟩ := ih h
      obtain ⟨us', hus, hothers⟩ := ihOthers hothers
      exact ⟨_, List.rel_append hts hus, .moreDeclarations hderives hothers⟩

end Grammar

namespace Program

variable {ρ : Respelling} {program renamed program' : List Stmt}

/-- Which numbers its accesses carry does not matter for whether a program is another with a
variable renamed. -/
theorem Renames.congr (h : Renames ρ program renamed)
    (hprogram' : Stmt.allUnnumbered program' = Stmt.allUnnumbered renamed) :
    Renames ρ program program' :=
  Stmt.AllRenamed.alike h (Stmt.allAlike_of_unnumbered rfl) (Stmt.allAlike_of_unnumbered hprogram')

/-- The tokens of a program can be written anew so that a variable is renamed. -/
theorem Renames.rewrites (h : Renames ρ program renamed) {tokens : List Token}
    {nextId next : AccessId} (hprogram : ofTokens tokens nextId = (.ok program, next)) :
    Grammar.Rewrites ρ .declarations (tokens.takeWhile (·.kind ≠ .endOfInput)) renamed := by
  have hself : Stmt.AllAlike AnyIds Eq (Stmt.allUnnumbered program) (Stmt.allUnnumbered program) :=
    .refl (fun _ => trivial) (fun _ => rfl) _
  have hunnumbered : Stmt.AllRenamed (.static ρ) .top [] (Stmt.allUnnumbered program) renamed :=
    Stmt.AllRenamed.alike h hself.of_unnumbered (Stmt.allAlike_of_unnumbered rfl)
  exact (derives_of_ofTokens hprogram).rewrites hunnumbered

end Program

end Lox
