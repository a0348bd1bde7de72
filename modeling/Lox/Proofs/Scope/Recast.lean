/-
# Scopes of trees that are recast

Where a scope around the first tree is missing around the second, an access finds its variable as
many scopes nearer as are missing in between (`Place.Thinned.depthOf?`); since nothing is declared
directly in a missing scope, no access refers to one. So whether two accesses stand for each other
can be told from what is known of the sites of both trees (`Stmt.AllRecast.refine`).

Where no scope is missing, the sites of both trees stand at the same places. Neither parentheses nor
operators are sites (`Stmt.AllRecast.sites`).
-/

import Lox.Proofs.Scope.Renamed
import Lox.Proofs.Tree.Recast

namespace Lox

variable {marks : List Bool}

theorem head?_false_cons_ne (marks : List Bool) : (false :: marks).head? ≠ some true :=
  fun hmiss => Bool.false_ne_true (Option.some.inj hmiss)

/-! ## Depths -/

/-- Two depths of one variable, where as many scopes are missing on the second side as are marked in
between, but not the scope of the variable itself. -/
def ThinnedDepth (marks : List Bool) : Option Nat → Option Nat → Prop :=
  Option.Rel fun depth depth' =>
    marks[depth]? ≠ some true ∧ depth = depth' + (marks.take depth).count true

namespace ThinnedDepth

variable {depth depth' : Option Nat}

theorem zero (hmark : marks.head? ≠ some true) : ThinnedDepth marks (some 0) (some 0) := by
  refine .some ⟨?_, rfl⟩
  rwa [← List.head?_eq_getElem?]

theorem kept (h : ThinnedDepth marks depth depth') :
    ThinnedDepth (false :: marks) (depth.map (· + 1)) (depth'.map (· + 1)) := by
  cases h with
  | none => exact .none
  | some h =>
    refine .some ⟨h.1, ?_⟩
    dsimp only
    rw [List.take_succ_cons, List.count_cons_of_ne Bool.false_ne_true]
    exact (congrArg (· + 1) h.2).trans (Nat.add_right_comm _ _ 1)

theorem missing (h : ThinnedDepth marks depth depth') :
    ThinnedDepth (true :: marks) (depth.map (· + 1)) depth' := by
  cases h with
  | none => exact .none
  | some h =>
    refine .some ⟨h.1, ?_⟩
    dsimp only
    rw [List.take_succ_cons, List.count_cons_self]
    exact congrArg (· + 1) h.2

/-- Where no scope is missing, depths are the same. -/
theorem eq_of_all_kept (h : ThinnedDepth marks depth depth') (hmarks : AllKept marks) :
    depth = depth' := by
  cases h with
  | none => rfl
  | some h => rw [h.2, hmarks.count_take, Nat.add_zero]

theorem refl (hmarks : AllKept marks) (depth : Option Nat) :
    ThinnedDepth marks depth depth := by
  cases depth with
  | none => exact .none
  | some depth =>
    refine .some ⟨fun hget => ?_, by rw [hmarks.count_take, Nat.add_zero]⟩
    exact Bool.false_ne_true (hmarks true (List.mem_of_getElem? hget)).symm

end ThinnedDepth

/-! ## Places -/

/-- The second scopes are the first ones without those that are marked, in which nothing is
declared. -/
inductive LocalScope.Thinned : List Bool → List LocalScope → List LocalScope → Prop
  | nil {marks : List Bool} : LocalScope.Thinned marks [] []
  | kept {marks : List Bool} {scope : LocalScope} {scopes scopes' : List LocalScope}
      (h : LocalScope.Thinned marks scopes scopes') :
      LocalScope.Thinned (false :: marks) (scope :: scopes) (scope :: scopes')
  | missing {marks : List Bool} {scopes scopes' : List LocalScope}
      (h : LocalScope.Thinned marks scopes scopes') :
      LocalScope.Thinned (true :: marks) (⟨[], []⟩ :: scopes) scopes'

theorem LocalScope.Thinned.findIdx? {scopes scopes' : List LocalScope}
    (h : LocalScope.Thinned marks scopes scopes') (name : String) :
    ThinnedDepth marks (scopes.findIdx? fun scope => name ∈ scope.before)
      (scopes'.findIdx? fun scope => name ∈ scope.before) := by
  induction h with
  | nil => exact .none
  | @kept marks scope scopes scopes' _ ih =>
    rw [List.findIdx?_cons, List.findIdx?_cons]
    split
    · exact .zero (head?_false_cons_ne _)
    · exact ih.kept
  | missing _ ih =>
    rw [List.findIdx?_cons, if_neg (mt of_decide_eq_true List.not_mem_nil)]
    exact ih.missing

theorem LocalScope.Thinned.refl (hmarks : AllKept marks) {scopes : List LocalScope}
    (hlength : scopes.length ≤ marks.length) : LocalScope.Thinned marks scopes scopes := by
  induction scopes generalizing marks with
  | nil => exact .nil
  | cons scope scopes ih =>
    cases marks with
    | nil => cases hlength
    | cons mark marks =>
      obtain ⟨rfl, hothers⟩ := List.forall_mem_cons.1 hmarks
      exact .kept (ih hothers (Nat.le_of_succ_le_succ hlength))

/-- Two places in scopes of which some are missing around the second. -/
structure Place.Thinned (marks : List Bool) (p p' : Place) : Prop where
  scopes : LocalScope.Thinned marks p.scopes p'.scopes
  initializes : p.initializes = p'.initializes
  /-- No variable is initialized in a scope that is missing. -/
  missing : marks.head? = some true → p.initializes = none

namespace Place.Thinned

variable {p p' : Place} (h : p.Thinned marks p')
include h

theorem enter {body body' : List Stmt}
    (hdeclared : Stmt.allDeclared body = Stmt.allDeclared body') :
    (p.enter body).Thinned (false :: marks) (p'.enter body') := by
  unfold Place.enter
  rw [hdeclared]
  exact ⟨.kept h.scopes, rfl, fun hmiss => absurd hmiss (head?_false_cons_ne _)⟩

theorem declaring {declared : List String} (hmark : marks.head? = some true → declared = []) :
    (p.declaring declared).Thinned marks (p'.declaring declared) := by
  refine ⟨?_, ?_, fun hmiss => (initializes_declaring _ _).trans (h.missing hmiss)⟩
  · obtain ⟨scopes, inFunction, initializes⟩ := p
    obtain ⟨scopes', inFunction', initializes'⟩ := p'
    have hscopes := h.scopes
    cases hscopes with
    | nil => exact .nil
    | kept hscopes => exact .kept hscopes
    | missing hscopes =>
      cases hmark rfl
      rw [Place.declaring_nil, Place.declaring_nil]
      exact h.scopes
  · rw [initializes_declaring, initializes_declaring, h.initializes]

theorem enterFunction {name : Token} {parameters : List Token} {body body' : List Stmt}
    (hmark : marks.head? ≠ some true) (hdeclared : Stmt.allDeclared body = Stmt.allDeclared body') :
    (p.enterFunction name parameters body).Thinned (false :: marks)
      (p'.enterFunction name parameters body') := by
  have hdeclaring : (p.declaring [name.lexeme]).Thinned marks (p'.declaring [name.lexeme]) :=
    h.declaring fun hmiss => absurd hmiss hmark
  unfold Place.enterFunction
  rw [hdeclared]
  exact ⟨.kept hdeclaring.scopes, rfl, fun hmiss => absurd hmiss (head?_false_cons_ne _)⟩

theorem initializing (hmark : marks.head? ≠ some true) (name : String) :
    (p.initializing name).Thinned marks (p'.initializing name) :=
  ⟨h.scopes, rfl, fun hmiss => absurd hmiss hmark⟩

/-- An access finds its variable as many scopes nearer as are missing in between. -/
theorem depthOf? (name : String) : ThinnedDepth marks (p.depthOf? name) (p'.depthOf? name) := by
  obtain ⟨scopes, inFunction, initializes⟩ := p
  obtain ⟨scopes', inFunction', initializes'⟩ := p'
  obtain ⟨hscopes, hinitializes, hmissing⟩ := h
  cases hinitializes
  cases hscopes with
  | nil => exact .none
  | kept hscopes =>
    unfold Place.depthOf?
    dsimp only
    split
    · exact .zero (head?_false_cons_ne _)
    · exact (hscopes.findIdx? name).kept
  | @missing marks scopes _ hscopes =>
    cases hmissing rfl
    have hawaits : ∀ scopes inFunction, ¬ Place.Awaits ⟨scopes, inFunction, none⟩ name :=
      fun _ _ hawaits => Option.some_ne_none name hawaits.1.symm
    rw [Place.depthOf?_eq_findIdx? (hawaits _ _), Place.depthOf?_eq_findIdx? (hawaits _ _)]
    exact (LocalScope.Thinned.missing hscopes).findIdx? name

end Place.Thinned

/-! ## What is known of accesses -/

/-- What one recasting allows another allows as well, where something is known of the accesses on
both sides. -/
structure Recasting.Implies (known known' : Place → AccessId → Token → Prop) (r r' : Recasting) :
    Prop where
  accesses : ∀ {marks : List Bool} {p p' : Place} {id id' : AccessId} {name : Token},
    r.accesses marks id id' → p.Thinned marks p' → known p id name → known' p' id' name →
      r'.accesses marks id id'
  operators : ∀ operator operator', r.operators operator operator' →
    r'.operators operator operator'

section Refine

variable {known known' : Place → AccessId → Token → Prop} {r r' : Recasting} {p p' : Place}

mutual

theorem Expr.Recast.refine {e e' : Expr} (h : e.Recast r marks e')
    (himplies : r.Implies known known' r') (hp : p.Thinned marks p')
    (hknown : AccessesKnown known (e.sites p)) (hknown' : AccessesKnown known' (e'.sites p')) :
    e.Recast r' marks e' := by
  cases e with
  | literal value =>
    cases h
    exact .literal
  | read id name =>
    cases h with
    | read h =>
      exact .read (himplies.accesses h hp (hknown _ List.mem_cons_self _ rfl)
        (hknown' _ List.mem_cons_self _ rfl))
  | assign id name value =>
    cases h with
    | assign h hvalue =>
      obtain ⟨hknown, hlast⟩ := known_append hknown
      obtain ⟨hknown', hlast'⟩ := known_append hknown'
      exact .assign (himplies.accesses h hp (hlast _ List.mem_cons_self _ rfl)
        (hlast' _ List.mem_cons_self _ rfl)) (hvalue.refine himplies hp hknown hknown')
  | unary operator operand =>
    cases h with
    | unary hoperand => exact .unary (hoperand.refine himplies hp hknown hknown')
  | binary left operator right =>
    cases h with
    | binary hleft hoperator hright =>
      obtain ⟨hl, hr⟩ := known_append hknown
      obtain ⟨hl', hr'⟩ := known_append hknown'
      exact .binary (hleft.refine himplies hp hl hl') (himplies.operators _ _ hoperator)
        (hright.refine himplies hp hr hr')
    | grouped hleft hoperator hright =>
      obtain ⟨hl, hr⟩ := known_append hknown
      obtain ⟨hl', hr'⟩ := known_append hknown'
      exact .grouped (hleft.refine himplies hp hl hl') (himplies.operators _ _ hoperator)
        (hright.refine himplies hp hr hr')
  | logical left operator right =>
    cases h with
    | logical hleft hright =>
      obtain ⟨hl, hr⟩ := known_append hknown
      obtain ⟨hl', hr'⟩ := known_append hknown'
      exact .logical (hleft.refine himplies hp hl hl') (hright.refine himplies hp hr hr')
  | conditional condition whenTrue whenFalse =>
    cases h with
    | conditional hcondition hwhenTrue hwhenFalse =>
      obtain ⟨hknown, hf⟩ := known_append hknown
      obtain ⟨hc, ht⟩ := known_append hknown
      obtain ⟨hknown', hf'⟩ := known_append hknown'
      obtain ⟨hc', ht'⟩ := known_append hknown'
      exact .conditional (hcondition.refine himplies hp hc hc')
        (hwhenTrue.refine himplies hp ht ht') (hwhenFalse.refine himplies hp hf hf')
  | call callee paren arguments =>
    cases h with
    | call hcallee harguments =>
      obtain ⟨hc, ha⟩ := known_append hknown
      obtain ⟨hc', ha'⟩ := known_append hknown'
      exact .call (hcallee.refine himplies hp hc hc') (harguments.refine himplies hp ha ha')
  | group inner =>
    cases h with
    | group hinner => exact .group (hinner.refine himplies hp hknown hknown')
  | host keyword code =>
    cases h with
    | host hcode => exact .host (hcode.refine himplies hp hknown hknown')

theorem Expr.AllRecast.refine {es es' : List Expr} (h : Expr.AllRecast r marks es es')
    (himplies : r.Implies known known' r') (hp : p.Thinned marks p')
    (hknown : AccessesKnown known (Expr.allSites p es))
    (hknown' : AccessesKnown known' (Expr.allSites p' es')) : Expr.AllRecast r' marks es es' := by
  cases es with
  | nil =>
    cases h
    exact .nil
  | cons e es =>
    cases h with
    | cons h hs =>
      obtain ⟨hk, hks⟩ := known_append hknown
      obtain ⟨hk', hks'⟩ := known_append hknown'
      exact .cons (h.refine himplies hp hk hk') (hs.refine himplies hp hks hks')

end

mutual

theorem Stmt.Recast.refine {marks : List Bool} {p p' : Place} {s s' : Stmt}
    (h : s.Recast r marks s') (himplies : r.Implies known known' r') (hp : p.Thinned marks p')
    (hknown : AccessesKnown known (s.sites p)) (hknown' : AccessesKnown known' (s'.sites p')) :
    s.Recast r' marks s' := by
  cases s with
  | block body =>
    cases h with
    | block hbody =>
      exact .block (hbody.refine himplies (hp.enter hbody.allDeclared_eq) hknown hknown')
  | expression value =>
    cases h with
    | expression hvalue => exact .expression (hvalue.refine himplies hp hknown hknown')
  | function name parameters body =>
    cases h with
    | function hmark hbody =>
      exact .function hmark
        (hbody.refine himplies (hp.enterFunction hmark hbody.allDeclared_eq) hknown hknown')
  | ifThen condition whenTrue =>
    cases h with
    | ifThen hcondition hwhenTrue =>
      obtain ⟨hc, ht⟩ := known_append hknown
      obtain ⟨hc', ht'⟩ := known_append hknown'
      exact .ifThen (hcondition.refine himplies hp hc hc') (hwhenTrue.refine himplies hp ht ht')
  | ifElse condition whenTrue whenFalse =>
    cases h with
    | ifElse hcondition hwhenTrue hwhenFalse =>
      obtain ⟨hknown, hf⟩ := known_append hknown
      obtain ⟨hc, ht⟩ := known_append hknown
      obtain ⟨hknown', hf'⟩ := known_append hknown'
      obtain ⟨hc', ht'⟩ := known_append hknown'
      exact .ifElse (hcondition.refine himplies hp hc hc') (hwhenTrue.refine himplies hp ht ht')
        (hwhenFalse.refine himplies hp hf hf')
  | print keyword value =>
    cases h with
    | print hvalue => exact .print (hvalue.refine himplies hp hknown hknown')
  | «return» keyword value =>
    cases h with
    | returnNil => exact .returnNil
    | returnValue hvalue =>
      exact .returnValue (hvalue.refine himplies hp (List.forall_mem_cons.1 hknown).2
        (List.forall_mem_cons.1 hknown').2)
  | var name initializer =>
    cases h with
    | varNil hmark => exact .varNil hmark
    | varValue hmark hvalue =>
      exact .varValue hmark
        (hvalue.refine himplies (hp.initializing hmark name.lexeme) hknown hknown')
  | «while» condition body =>
    cases h with
    | «while» hcondition hbody =>
      obtain ⟨hc, hb⟩ := known_append hknown
      obtain ⟨hc', hb'⟩ := known_append hknown'
      exact .while (hcondition.refine himplies hp hc hc') (hbody.refine himplies hp hb hb')

theorem Stmt.AllRecast.refine {marks : List Bool} {p p' : Place} {ss ss' : List Stmt}
    (h : Stmt.AllRecast r marks ss ss') (himplies : r.Implies known known' r')
    (hp : p.Thinned marks p') (hknown : AccessesKnown known (Stmt.allSites p ss))
    (hknown' : AccessesKnown known' (Stmt.allSites p' ss')) : Stmt.AllRecast r' marks ss ss' := by
  cases ss with
  | nil =>
    cases h
    exact .nil
  | cons s ss =>
    cases h with
    | cons h hs =>
      rw [Stmt.allSites, ← h.declared_eq] at hknown'
      obtain ⟨hk, hks⟩ := known_append hknown
      obtain ⟨hk', hks'⟩ := known_append hknown'
      exact .cons (h.refine himplies hp hk hk')
        (hs.refine himplies (hp.declaring h.declared_eq_nil) hks hks')

end

/-- Code stays recast when more is allowed. -/
theorem Stmt.AllRecast.mono {ss ss' : List Stmt} (h : Stmt.AllRecast r marks ss ss')
    (hr : r.Within r') : Stmt.AllRecast r' marks ss ss' := by
  have himplies : r.Implies (fun _ _ _ => True) (fun _ _ _ => True) r' :=
    ⟨fun h _ _ _ => hr.accesses _ _ _ h, hr.operators⟩
  have hp : Place.top.Thinned marks Place.top := ⟨.nil, rfl, fun _ => rfl⟩
  exact h.refine himplies hp (fun _ _ _ _ => trivial) fun _ _ _ _ => trivial

end Refine

/-! ## The sites of trees that are recast -/

section Sites

variable {r : Recasting}

mutual

theorem Expr.Recast.sites {e e' : Expr} (h : e.Recast r marks e') (p : Place) :
    List.Forall₂ (Site.Alike AnyIds Eq) (e.sites p) (e'.sites p) := by
  cases e with
  | literal value =>
    cases h
    exact .nil
  | read id name =>
    cases h with
    | read _ => exact .cons (.read trivial (.refl rfl)) .nil
  | assign id name value =>
    cases h with
    | assign _ hvalue =>
      exact List.rel_append (hvalue.sites p) (.cons (.assign trivial (.refl rfl)) .nil)
  | unary operator operand =>
    cases h with
    | unary hoperand => exact hoperand.sites p
  | binary left operator right =>
    cases h with
    | binary hleft _ hright | grouped hleft _ hright =>
      exact List.rel_append (hleft.sites p) (hright.sites p)
  | logical left operator right =>
    cases h with
    | logical hleft hright => exact List.rel_append (hleft.sites p) (hright.sites p)
  | conditional condition whenTrue whenFalse =>
    cases h with
    | conditional hcondition hwhenTrue hwhenFalse =>
      exact List.rel_append (List.rel_append (hcondition.sites p) (hwhenTrue.sites p))
        (hwhenFalse.sites p)
  | call callee paren arguments =>
    cases h with
    | call hcallee harguments => exact List.rel_append (hcallee.sites p) (harguments.sites p)
  | group inner =>
    cases h with
    | group hinner => exact hinner.sites p
  | host keyword code =>
    cases h with
    | host hcode => exact hcode.sites p

theorem Expr.AllRecast.sites {es es' : List Expr} (h : Expr.AllRecast r marks es es') (p : Place) :
    List.Forall₂ (Site.Alike AnyIds Eq) (Expr.allSites p es) (Expr.allSites p es') := by
  cases es with
  | nil =>
    cases h
    exact .nil
  | cons e es =>
    cases h with
    | cons h hs => exact List.rel_append (h.sites p) (hs.sites p)

end

mutual

theorem Stmt.Recast.sites {marks : List Bool} {s s' : Stmt} (h : s.Recast r marks s') (p : Place) :
    List.Forall₂ (Site.Alike AnyIds Eq) (s.sites p) (s'.sites p) := by
  cases s with
  | block body =>
    cases h with
    | block hbody =>
      rw [Stmt.sites, Stmt.sites, Place.enter, Place.enter, hbody.allDeclared_eq]
      exact hbody.sites _
  | expression value =>
    cases h with
    | expression hvalue => exact hvalue.sites p
  | function name parameters body =>
    cases h with
    | function _ hbody =>
      rw [Stmt.sites, Stmt.sites, Place.enterFunction, Place.enterFunction, hbody.allDeclared_eq]
      exact hbody.sites _
  | ifThen condition whenTrue =>
    cases h with
    | ifThen hcondition hwhenTrue =>
      exact List.rel_append (hcondition.sites p) (hwhenTrue.sites p)
  | ifElse condition whenTrue whenFalse =>
    cases h with
    | ifElse hcondition hwhenTrue hwhenFalse =>
      exact List.rel_append (List.rel_append (hcondition.sites p) (hwhenTrue.sites p))
        (hwhenFalse.sites p)
  | print keyword value =>
    cases h with
    | print hvalue => exact hvalue.sites p
  | «return» keyword value =>
    cases h with
    | returnNil => exact .cons (.return (.refl rfl)) .nil
    | returnValue hvalue => exact .cons (.return (.refl rfl)) (hvalue.sites p)
  | var name initializer =>
    cases h with
    | varNil _ => exact .nil
    | varValue _ hvalue => exact hvalue.sites _
  | «while» condition body =>
    cases h with
    | «while» hcondition hbody => exact List.rel_append (hcondition.sites p) (hbody.sites p)

theorem Stmt.AllRecast.sites {marks : List Bool} {ss ss' : List Stmt}
    (h : Stmt.AllRecast r marks ss ss') (p : Place) :
    List.Forall₂ (Site.Alike AnyIds Eq) (Stmt.allSites p ss) (Stmt.allSites p ss') := by
  cases ss with
  | nil =>
    cases h
    exact .nil
  | cons s ss =>
    cases h with
    | cons h hs =>
      rw [Stmt.allSites, Stmt.allSites, h.declared_eq]
      exact List.rel_append (h.sites p) (hs.sites _)

end

end Sites

end Lox
