/-
# Scopes of trees in which a local variable is renamed

In the scopes of the renamed program the new name stands for the old one wherever the scope is
marked. Since nothing else there has the new name, each access of the renamed program finds its
variable as many scopes away as the access that it stands for: none is captured, and none captures
another (`Place.depthOf?_respelled`). So the resolver accepts the renamed program with the same
depths (`Program.Renames.exists_bindingDepths`).

What becomes of the names of accesses can be told in other ways where more is known of the sites of
both trees, and which numbers the accesses carry does not matter (`Stmt.AllRenamed.transport`).
-/

import Lox.Proofs.Scope.Alike
import Lox.Proofs.Tree.Renamed

namespace Lox

variable {ρ : Respelling} {p : Place} {marks : List Bool}

/-! ## Places -/

/-- The scope that stands for a scope. -/
def LocalScope.respelled (ρ : Respelling) (mark : Bool) (scope : LocalScope) : LocalScope :=
  ⟨scope.names.map (ρ.spell mark), scope.before.map (ρ.spell mark)⟩

/-- The scopes that stand for scopes with some marks, both the innermost first. -/
def LocalScope.allRespelled (ρ : Respelling) (marks : List Bool) : List LocalScope → List LocalScope
  | [] => []
  | scope :: scopes =>
    scope.respelled ρ (marks.headD false) :: LocalScope.allRespelled ρ marks.tail scopes

namespace Place

/-- The place in the renamed program that stands for a place. -/
def respelled (ρ : Respelling) (marks : List Bool) (p : Place) : Place :=
  ⟨LocalScope.allRespelled ρ marks p.scopes, p.inFunction,
    p.initializes.map (ρ.spell (marks.headD false))⟩

/-- The new name is nowhere declared before a place. -/
structure Fresh (new : String) (p : Place) : Prop where
  before : ∀ scope ∈ p.scopes, new ∉ scope.before
  initializes : p.initializes ≠ some new

theorem fresh_top {new : String} : top.Fresh new := ⟨nofun, nofun⟩

end Place

@[simp]
theorem LocalScope.respelled_false (scope : LocalScope) : scope.respelled ρ false = scope := by
  have hspell : ρ.spell false = id := funext ρ.spell_false
  unfold respelled
  rw [hspell, List.map_id, List.map_id]

theorem LocalScope.allRespelled_eq_self (hmarks : ∀ mark ∈ marks, mark = false)
    (scopes : List LocalScope) : LocalScope.allRespelled ρ marks scopes = scopes := by
  induction scopes generalizing marks with
  | nil => rfl
  | cons scope scopes ih =>
    have htail : ∀ mark ∈ marks.tail, mark = false :=
      fun mark hmark => hmarks mark (List.mem_of_mem_tail hmark)
    rw [LocalScope.allRespelled, headD_eq_false hmarks, respelled_false, ih htail]

/-- Where no scope is marked, all places stay as they are. -/
theorem Place.respelled_eq_self (hmarks : ∀ mark ∈ marks, mark = false) :
    p.respelled ρ marks = p := by
  have hspell : ρ.spell false = id := funext ρ.spell_false
  unfold respelled
  rw [LocalScope.allRespelled_eq_self hmarks, headD_eq_false hmarks, hspell, Option.map_id]
  rfl

namespace Place

theorem enter_respelled {body body' : List Stmt} {mark : Bool}
    (h : Stmt.allDeclared body' = (Stmt.allDeclared body).map (ρ.spell mark)) :
    (p.respelled ρ marks).enter body' = (p.enter body).respelled ρ (mark :: marks) := by
  unfold enter respelled
  rw [h]
  rfl

theorem declaring_respelled (declared : List String) :
    (p.respelled ρ marks).declaring (declared.map (ρ.spell (marks.headD false))) =
      (p.declaring declared).respelled ρ marks := by
  obtain ⟨_ | ⟨scope, scopes⟩, inFunction, initializes⟩ := p
  · rfl
  · unfold respelled declaring
    simp only [LocalScope.allRespelled, LocalScope.respelled, List.map_append]

theorem enterFunction_respelled {name : Token} {parameters parameters' : List Token}
    {body body' : List Stmt} {mark : Bool}
    (hname : ρ.spell (marks.headD false) name.lexeme = name.lexeme)
    (hparameters : parameters'.map Token.lexeme = (parameters.map Token.lexeme).map (ρ.spell mark))
    (h : Stmt.allDeclared body' = (Stmt.allDeclared body).map (ρ.spell mark)) :
    (p.respelled ρ marks).enterFunction name parameters' body' =
      (p.enterFunction name parameters body).respelled ρ (mark :: marks) := by
  have hdeclaring : (p.respelled ρ marks).declaring [name.lexeme] =
      (p.declaring [name.lexeme]).respelled ρ marks := by
    rw [← declaring_respelled, List.map_singleton, hname]
  unfold enterFunction
  rw [hdeclaring, h, hparameters]
  dsimp only [respelled, LocalScope.allRespelled, LocalScope.respelled, Option.map_none]
  rw [List.map_append]
  rfl

theorem initializing_respelled {name : String} :
    (p.respelled ρ marks).initializing (ρ.spell (marks.headD false) name) =
      (p.initializing name).respelled ρ marks := rfl

namespace Fresh

variable {new : String} (hp : p.Fresh new)
include hp

theorem enter (body : List Stmt) : (p.enter body).Fresh new :=
  ⟨List.forall_mem_cons.2 ⟨List.not_mem_nil, hp.before⟩, nofun⟩

theorem declaring {declared : List String} (h : new ∉ declared) :
    (p.declaring declared).Fresh new := by
  obtain ⟨_ | ⟨scope, scopes⟩, inFunction, initializes⟩ := p
  · exact hp
  · obtain ⟨hscope, hscopes⟩ := List.forall_mem_cons.1 hp.before
    refine ⟨List.forall_mem_cons.2 ⟨fun hmem => ?_, hscopes⟩, hp.initializes⟩
    exact (List.mem_append.1 hmem).elim h hscope

theorem enterFunction {name : Token} {parameters : List Token} (body : List Stmt)
    (hname : name.lexeme ≠ new) (hparameters : new ∉ parameters.map Token.lexeme) :
    (p.enterFunction name parameters body).Fresh new := by
  have hdeclaring : (p.declaring [name.lexeme]).Fresh new :=
    hp.declaring fun hmem => hname (List.mem_singleton.1 hmem).symm
  exact ⟨List.forall_mem_cons.2 ⟨hparameters, hdeclaring.before⟩, nofun⟩

theorem initializing {name : String} (hname : name ≠ new) : (p.initializing name).Fresh new :=
  ⟨hp.before, fun h => hname (Option.some.inj h)⟩

end Fresh

/-! ## Depths -/

/-- Where the new name is declared nowhere, a name that a scope does not declare is not declared in
the scope that stands for it, however both names are spelled. -/
theorem spell_not_mem {names : List String} {name : String} (hname : name ≠ ρ.new)
    (hnames : ρ.new ∉ names) (h : name ∉ names) (mark mark' : Bool) :
    ρ.spell mark name ∉ names.map (ρ.spell mark') := by
  intro hmem
  obtain ⟨other, hother, hspell⟩ := List.mem_map.1 hmem
  have hnew : other ≠ ρ.new := ne_of_mem_of_not_mem hother hnames
  obtain rfl := ρ.eq_of_spell_eq (fun _ => hnew) (fun _ => hname) hspell
  exact h hother

theorem findIdx?_allRespelled {scopes : List LocalScope} {name : String} (hname : name ≠ ρ.new)
    (hfresh : ∀ scope ∈ scopes, ρ.new ∉ scope.before) :
    (LocalScope.allRespelled ρ marks scopes).findIdx?
        (fun scope => ρ.spell
          (markAt marks (scopes.findIdx? fun scope => name ∈ scope.before)) name ∈
          scope.before) =
      scopes.findIdx? fun scope => name ∈ scope.before := by
  induction scopes generalizing marks with
  | nil => rfl
  | cons scope scopes ih =>
    obtain ⟨hscope, hscopes⟩ := List.forall_mem_cons.1 hfresh
    rw [LocalScope.allRespelled, List.findIdx?_cons, List.findIdx?_cons]
    by_cases hmem : name ∈ scope.before
    · rw [if_pos (decide_eq_true hmem), markAt_zero]
      exact if_pos (decide_eq_true (List.mem_map_of_mem hmem))
    · rw [if_neg (mt of_decide_eq_true hmem), markAt_succ, if_neg, ih hscopes]
      exact mt of_decide_eq_true (spell_not_mem hname hscope hmem _ _)

theorem depthOf?_eq_zero {name : String} {scope : LocalScope} {scopes : List LocalScope}
    (hscopes : p.scopes = scope :: scopes) (h : p.initializes = some name ∨ name ∈ scope.before) :
    p.depthOf? name = some 0 := by
  unfold depthOf?
  rw [hscopes]
  exact if_pos h

theorem depthOf?_eq_succ {name : String} {scope : LocalScope} {scopes : List LocalScope}
    (hscopes : p.scopes = scope :: scopes)
    (h : ¬ (p.initializes = some name ∨ name ∈ scope.before)) :
    p.depthOf? name = (scopes.findIdx? fun scope => name ∈ scope.before).map (· + 1) := by
  unfold depthOf?
  rw [hscopes]
  exact if_neg h

/-- Each access of a renamed program finds its variable at the depth of the access it stands for. -/
theorem depthOf?_respelled {name : String} (hp : p.Fresh ρ.new) (hname : name ≠ ρ.new) :
    (p.respelled ρ marks).depthOf? (ρ.spell (markAt marks (p.depthOf? name)) name) =
      p.depthOf? name := by
  cases hscopes : p.scopes with
  | nil =>
    unfold depthOf? respelled
    rw [hscopes]
    rfl
  | cons scope scopes =>
    have hrespelled : (p.respelled ρ marks).scopes =
        scope.respelled ρ (marks.headD false) :: LocalScope.allRespelled ρ marks.tail scopes := by
      unfold respelled
      rw [hscopes]
      rfl
    have hfresh := hp.before
    rw [hscopes] at hfresh
    obtain ⟨hscope, houter⟩ := List.forall_mem_cons.1 hfresh
    by_cases hfirst : p.initializes = some name ∨ name ∈ scope.before
    · rw [depthOf?_eq_zero hscopes hfirst, markAt_zero]
      refine depthOf?_eq_zero hrespelled (hfirst.imp (fun h => ?_) List.mem_map_of_mem)
      exact congrArg (Option.map (ρ.spell (marks.headD false))) h
    · obtain ⟨hinitializes, hbefore⟩ := not_or.1 hfirst
      rw [depthOf?_eq_succ hscopes hfirst, markAt_succ, depthOf?_eq_succ hrespelled,
        findIdx?_allRespelled hname houter]
      rintro (h | h)
      · obtain ⟨other, hother, hspell⟩ := Option.map_eq_some_iff.1 h
        obtain rfl := ρ.eq_of_spell_eq (fun _ heq => hp.initializes (heq ▸ hother))
          (fun _ => hname) hspell
        exact hinitializes hother
      · exact spell_not_mem hname hscope hbefore _ _ h

end Place

/-! ## Sites -/

/-- Two sites that stand for each other, in scopes that do not mention the new name. -/
inductive Site.Renamed (ρ : Respelling) : Site → Site → Prop
  | read {p : Place} {marks : List Bool} {id id' : AccessId} {name name' : Token}
      (hp : p.Fresh ρ.new) (h : (Renaming.static ρ).accesses p marks id name id' name') :
      Site.Renamed ρ (.read p id name) (.read (p.respelled ρ marks) id' name')
  | assign {p : Place} {marks : List Bool} {id id' : AccessId} {name name' : Token}
      (hp : p.Fresh ρ.new) (h : (Renaming.static ρ).accesses p marks id name id' name') :
      Site.Renamed ρ (.assign p id name) (.assign (p.respelled ρ marks) id' name')
  | return {p : Place} {marks : List Bool} {keyword : Token} :
      Site.Renamed ρ (.return p keyword) (.return (p.respelled ρ marks) keyword)

theorem Stmt.Renamed.new_not_mem_declared {s s' : Stmt} (h : s.Renamed (.static ρ) p marks s') :
    ρ.new ∉ s.declared := by
  cases h with
  | function hname _ _ | varNil hname | varValue hname _ =>
    exact fun hmem => hname.1 (List.mem_singleton.1 hmem).symm
  | _ => exact List.not_mem_nil

theorem Token.new_not_mem_lexemes {mark : Bool} {names names' : List Token}
    (h : List.Forall₂ ((Renaming.static ρ).declares mark) names names') :
    ρ.new ∉ names.map Token.lexeme := by
  induction h with
  | nil => exact List.not_mem_nil
  | cons h _ ih => exact List.not_mem_cons_of_ne_of_not_mem (fun heq => h.1 heq.symm) ih

mutual

theorem Expr.Renamed.sites {e e' : Expr} (h : e.Renamed (.static ρ) p marks e')
    (hp : p.Fresh ρ.new) :
    List.Forall₂ (Site.Renamed ρ) (e.sites p) (e'.sites (p.respelled ρ marks)) := by
  cases e with
  | literal value =>
    cases h
    exact .nil
  | read id name =>
    cases h with
    | read h => exact .cons (.read hp h) .nil
  | assign id name value =>
    cases h with
    | assign h hvalue => exact List.rel_append (hvalue.sites hp) (.cons (.assign hp h) .nil)
  | unary operator operand =>
    cases h with
    | unary hoperand => exact hoperand.sites hp
  | binary left operator right =>
    cases h with
    | binary hleft hright => exact List.rel_append (hleft.sites hp) (hright.sites hp)
  | logical left operator right =>
    cases h with
    | logical hleft hright => exact List.rel_append (hleft.sites hp) (hright.sites hp)
  | conditional condition whenTrue whenFalse =>
    cases h with
    | conditional hcondition hwhenTrue hwhenFalse =>
      exact List.rel_append (List.rel_append (hcondition.sites hp) (hwhenTrue.sites hp))
        (hwhenFalse.sites hp)
  | call callee paren arguments =>
    cases h with
    | call hcallee harguments => exact List.rel_append (hcallee.sites hp) (harguments.sites hp)
  | group inner =>
    cases h with
    | group hinner => exact hinner.sites hp
  | host keyword code =>
    cases h with
    | host hcode => exact hcode.sites hp

theorem Expr.AllRenamed.sites {es es' : List Expr} (h : Expr.AllRenamed (.static ρ) p marks es es')
    (hp : p.Fresh ρ.new) :
    List.Forall₂ (Site.Renamed ρ) (Expr.allSites p es)
      (Expr.allSites (p.respelled ρ marks) es') := by
  cases es with
  | nil =>
    cases h
    exact .nil
  | cons e es =>
    cases h with
    | cons h hs => exact List.rel_append (h.sites hp) (hs.sites hp)

end

mutual

theorem Stmt.Renamed.sites {p : Place} {marks : List Bool} {s s' : Stmt}
    (h : s.Renamed (.static ρ) p marks s') (hp : p.Fresh ρ.new) :
    List.Forall₂ (Site.Renamed ρ) (s.sites p) (s'.sites (p.respelled ρ marks)) := by
  cases s with
  | block body =>
    cases h with
    | block hbody =>
      rw [Stmt.sites, Stmt.sites,
        Place.enter_respelled (hbody.allDeclared_eq (Renaming.spells_static ρ))]
      exact hbody.sites (hp.enter body)
  | expression value =>
    cases h with
    | expression hvalue => exact hvalue.sites hp
  | function name parameters body =>
    cases h with
    | function hname hparameters hbody =>
      have hspells := Renaming.spells_static ρ
      rw [Stmt.sites, Stmt.sites, Place.enterFunction_respelled (hspells _ _ _ hname).symm
        (hspells.lexemes_eq hparameters) (hbody.allDeclared_eq hspells)]
      exact hbody.sites
        (hp.enterFunction body hname.1 (Token.new_not_mem_lexemes hparameters))
  | ifThen condition whenTrue =>
    cases h with
    | ifThen hcondition hwhenTrue =>
      exact List.rel_append (hcondition.sites hp) (hwhenTrue.sites hp)
  | ifElse condition whenTrue whenFalse =>
    cases h with
    | ifElse hcondition hwhenTrue hwhenFalse =>
      exact List.rel_append (List.rel_append (hcondition.sites hp) (hwhenTrue.sites hp))
        (hwhenFalse.sites hp)
  | print keyword value =>
    cases h with
    | print hvalue => exact hvalue.sites hp
  | «return» keyword value =>
    cases h with
    | returnNil => exact .cons .return .nil
    | returnValue hvalue => exact .cons .return (hvalue.sites hp)
  | var name initializer =>
    cases h with
    | varNil _ => exact .nil
    | varValue hname hvalue =>
      rw [Stmt.sites, Stmt.sites, hname.2]
      exact hvalue.sites (hp.initializing hname.1)
  | «while» condition body =>
    cases h with
    | «while» hcondition hbody => exact List.rel_append (hcondition.sites hp) (hbody.sites hp)

theorem Stmt.AllRenamed.sites {p : Place} {marks : List Bool} {ss ss' : List Stmt}
    (h : Stmt.AllRenamed (.static ρ) p marks ss ss') (hp : p.Fresh ρ.new) :
    List.Forall₂ (Site.Renamed ρ) (Stmt.allSites p ss)
      (Stmt.allSites (p.respelled ρ marks) ss') := by
  cases ss with
  | nil =>
    cases h
    exact .nil
  | cons s ss =>
    cases h with
    | cons h hs =>
      rw [Stmt.allSites, Stmt.allSites, h.declared_eq (Renaming.spells_static ρ),
        Place.declaring_respelled]
      exact List.rel_append (h.sites hp) (hs.sites (hp.declaring h.new_not_mem_declared))

end

namespace Site.Renamed

variable {site site' : Site}

theorem depth?_eq (h : site.Renamed ρ site') : site.depth? = site'.depth? := by
  cases h with
  | read hp h | assign hp h =>
    obtain ⟨hfresh, rfl⟩ := h
    exact (Place.depthOf?_respelled hp hfresh).symm
  | «return» => rfl

/-- Nothing is wrong at a site of a renamed program if nothing is at the site it stands for. -/
theorem error?_eq_none (h : site.Renamed ρ site') (hnone : site.error? = none) :
    site'.error? = none := by
  cases h with
  | @read p marks id id' name name' hp h =>
    obtain ⟨hfresh, rfl⟩ := h
    refine if_neg fun ⟨hscopes, hown⟩ => ?_
    have hscopes' : p.scopes ≠ [] := by
      intro hnil
      refine hscopes ?_
      unfold Place.respelled
      rw [hnil]
      rfl
    obtain ⟨other, hother, hspell⟩ := Option.map_eq_some_iff.1 hown
    obtain rfl := ρ.eq_of_spell_eq (fun _ heq => hp.initializes (heq ▸ hother)) (fun _ => hfresh)
      hspell
    have hwrong : (Site.read p id name).error? = some ⟨.readInOwnInitializer, name⟩ :=
      if_pos ⟨hscopes', hother⟩
    rw [hwrong] at hnone
    cases hnone
  | assign _ _ => rfl
  | «return» => exact hnone

theorem errors_eq_nil {sites sites' : List Site} (h : List.Forall₂ (Site.Renamed ρ) sites sites')
    (hnone : sites.filterMap Site.error? = []) : sites'.filterMap Site.error? = [] := by
  rw [List.filterMap_eq_nil_iff] at hnone ⊢
  induction h with
  | nil => exact List.forall_mem_nil _
  | cons h _ ih =>
    obtain ⟨hsite, hsites⟩ := List.forall_mem_cons.1 hnone
    exact List.forall_mem_cons.2 ⟨h.error?_eq_none hsite, ih hsites⟩

theorem id?_eq_none_iff (h : site.Renamed ρ site') : site.id? = none ↔ site'.id? = none := by
  cases h with
  | read | assign => exact ⟨nofun, nofun⟩
  | «return» => exact Iff.rfl

end Site.Renamed

/-! ## What else is known of accesses -/

/-- The access that a site is, with the place where it stands. -/
def Site.access? : Site → Option (Place × AccessId × Token)
  | read p id name | assign p id name => some (p, id, name)
  | .return _ _ => none

section Access

variable {site : Site} {access : Place × AccessId × Token} (h : site.access? = some access)
include h

theorem Site.id?_of_access? : site.id? = some access.2.1 := by
  cases site with
  | read | assign =>
    cases h
    rfl
  | «return» => cases h

theorem Site.depth?_of_access? : site.depth? = access.1.depthOf? access.2.2.lexeme := by
  cases site with
  | read | assign =>
    cases h
    rfl
  | «return» => cases h

end Access

/-- Something is known of all accesses among some sites. -/
def AccessesKnown (known : Place → AccessId → Token → Prop) (sites : List Site) : Prop :=
  ∀ site ∈ sites, ∀ access, site.access? = some access → known access.1 access.2.1 access.2.2

theorem known_append {known : Place → AccessId → Token → Prop} {sites sites' : List Site}
    (h : AccessesKnown known (sites ++ sites')) :
    AccessesKnown known sites ∧ AccessesKnown known sites' :=
  List.forall_mem_append.1 h

/-- What one renaming says of names another says as well, where something is known of the accesses
on both sides. -/
structure Renaming.Implies (ρ : Respelling) (known known' : Place → AccessId → Token → Prop)
    (r r' : Renaming) : Prop where
  spells : r.Spells ρ
  declares : ∀ mark name name', r.declares mark name name' → r'.declares mark name name'
  accesses : ∀ {p : Place} {marks : List Bool} {id id' : AccessId} {name name' : Token},
    r.accesses p marks id name id' name' → known p id name →
      known' (p.respelled ρ marks) id' name' → r'.accesses p marks id name id' name'

section Transport

variable {known known' : Place → AccessId → Token → Prop} {r r' : Renaming}

mutual

theorem Expr.Renamed.transport {e e' : Expr} (h : e.Renamed r p marks e')
    (himplies : r.Implies ρ known known' r') (hknown : AccessesKnown known (e.sites p))
    (hknown' : AccessesKnown known' (e'.sites (p.respelled ρ marks))) :
    e.Renamed r' p marks e' := by
  cases e with
  | literal value =>
    cases h
    exact .literal
  | read id name =>
    cases h with
    | read h =>
      exact .read (himplies.accesses h (hknown _ List.mem_cons_self _ rfl)
        (hknown' _ List.mem_cons_self _ rfl))
  | assign id name value =>
    cases h with
    | assign h hvalue =>
      obtain ⟨hknown, hlast⟩ := known_append hknown
      obtain ⟨hknown', hlast'⟩ := known_append hknown'
      exact .assign (himplies.accesses h (hlast _ List.mem_cons_self _ rfl)
        (hlast' _ List.mem_cons_self _ rfl)) (hvalue.transport himplies hknown hknown')
  | unary operator operand =>
    cases h with
    | unary hoperand => exact .unary (hoperand.transport himplies hknown hknown')
  | binary left operator right =>
    cases h with
    | binary hleft hright =>
      obtain ⟨hl, hr⟩ := known_append hknown
      obtain ⟨hl', hr'⟩ := known_append hknown'
      exact .binary (hleft.transport himplies hl hl') (hright.transport himplies hr hr')
  | logical left operator right =>
    cases h with
    | logical hleft hright =>
      obtain ⟨hl, hr⟩ := known_append hknown
      obtain ⟨hl', hr'⟩ := known_append hknown'
      exact .logical (hleft.transport himplies hl hl') (hright.transport himplies hr hr')
  | conditional condition whenTrue whenFalse =>
    cases h with
    | conditional hcondition hwhenTrue hwhenFalse =>
      obtain ⟨hknown, hf⟩ := known_append hknown
      obtain ⟨hc, ht⟩ := known_append hknown
      obtain ⟨hknown', hf'⟩ := known_append hknown'
      obtain ⟨hc', ht'⟩ := known_append hknown'
      exact .conditional (hcondition.transport himplies hc hc')
        (hwhenTrue.transport himplies ht ht') (hwhenFalse.transport himplies hf hf')
  | call callee paren arguments =>
    cases h with
    | call hcallee harguments =>
      obtain ⟨hc, ha⟩ := known_append hknown
      obtain ⟨hc', ha'⟩ := known_append hknown'
      exact .call (hcallee.transport himplies hc hc') (harguments.transport himplies ha ha')
  | group inner =>
    cases h with
    | group hinner => exact .group (hinner.transport himplies hknown hknown')
  | host keyword code =>
    cases h with
    | host hcode => exact .host (hcode.transport himplies hknown hknown')

theorem Expr.AllRenamed.transport {es es' : List Expr} (h : Expr.AllRenamed r p marks es es')
    (himplies : r.Implies ρ known known' r') (hknown : AccessesKnown known (Expr.allSites p es))
    (hknown' : AccessesKnown known' (Expr.allSites (p.respelled ρ marks) es')) :
    Expr.AllRenamed r' p marks es es' := by
  cases es with
  | nil =>
    cases h
    exact .nil
  | cons e es =>
    cases h with
    | cons h hs =>
      obtain ⟨hk, hks⟩ := known_append hknown
      obtain ⟨hk', hks'⟩ := known_append hknown'
      exact .cons (h.transport himplies hk hk') (hs.transport himplies hks hks')

end

mutual

theorem Stmt.Renamed.transport {p : Place} {marks : List Bool} {s s' : Stmt}
    (h : s.Renamed r p marks s') (himplies : r.Implies ρ known known' r')
    (hknown : AccessesKnown known (s.sites p))
    (hknown' : AccessesKnown known' (s'.sites (p.respelled ρ marks))) :
    s.Renamed r' p marks s' := by
  cases s with
  | block body =>
    cases h with
    | block hbody =>
      rw [Stmt.sites, Place.enter_respelled (hbody.allDeclared_eq himplies.spells)] at hknown'
      exact .block (hbody.transport himplies hknown hknown')
  | expression value =>
    cases h with
    | expression hvalue => exact .expression (hvalue.transport himplies hknown hknown')
  | function name parameters body =>
    cases h with
    | function hname hparameters hbody =>
      have hspells := himplies.spells
      rw [Stmt.sites, Place.enterFunction_respelled (hspells _ _ _ hname).symm
        (hspells.lexemes_eq hparameters) (hbody.allDeclared_eq hspells)] at hknown'
      exact .function (himplies.declares _ _ _ hname)
        (hparameters.imp fun _ _ => himplies.declares _ _ _)
        (hbody.transport himplies hknown hknown')
  | ifThen condition whenTrue =>
    cases h with
    | ifThen hcondition hwhenTrue =>
      obtain ⟨hc, ht⟩ := known_append hknown
      obtain ⟨hc', ht'⟩ := known_append hknown'
      exact .ifThen (hcondition.transport himplies hc hc') (hwhenTrue.transport himplies ht ht')
  | ifElse condition whenTrue whenFalse =>
    cases h with
    | ifElse hcondition hwhenTrue hwhenFalse =>
      obtain ⟨hknown, hf⟩ := known_append hknown
      obtain ⟨hc, ht⟩ := known_append hknown
      obtain ⟨hknown', hf'⟩ := known_append hknown'
      obtain ⟨hc', ht'⟩ := known_append hknown'
      exact .ifElse (hcondition.transport himplies hc hc') (hwhenTrue.transport himplies ht ht')
        (hwhenFalse.transport himplies hf hf')
  | print keyword value =>
    cases h with
    | print hvalue => exact .print (hvalue.transport himplies hknown hknown')
  | «return» keyword value =>
    cases h with
    | returnNil => exact .returnNil
    | returnValue hvalue =>
      exact .returnValue (hvalue.transport himplies (List.forall_mem_cons.1 hknown).2
        (List.forall_mem_cons.1 hknown').2)
  | var name initializer =>
    cases h with
    | varNil hname => exact .varNil (himplies.declares _ _ _ hname)
    | varValue hname hvalue =>
      rw [Stmt.sites, himplies.spells _ _ _ hname, Place.initializing_respelled] at hknown'
      exact .varValue (himplies.declares _ _ _ hname) (hvalue.transport himplies hknown hknown')
  | «while» condition body =>
    cases h with
    | «while» hcondition hbody =>
      obtain ⟨hc, hb⟩ := known_append hknown
      obtain ⟨hc', hb'⟩ := known_append hknown'
      exact .while (hcondition.transport himplies hc hc') (hbody.transport himplies hb hb')

theorem Stmt.AllRenamed.transport {p : Place} {marks : List Bool} {ss ss' : List Stmt}
    (h : Stmt.AllRenamed r p marks ss ss') (himplies : r.Implies ρ known known' r')
    (hknown : AccessesKnown known (Stmt.allSites p ss))
    (hknown' : AccessesKnown known' (Stmt.allSites (p.respelled ρ marks) ss')) :
    Stmt.AllRenamed r' p marks ss ss' := by
  cases ss with
  | nil =>
    cases h
    exact .nil
  | cons s ss =>
    cases h with
    | cons h hs =>
      rw [Stmt.allSites, h.declared_eq himplies.spells, Place.declaring_respelled] at hknown'
      obtain ⟨hk, hks⟩ := known_append hknown
      obtain ⟨hk', hks'⟩ := known_append hknown'
      exact .cons (h.transport himplies hk hk') (hs.transport himplies hks hks')

end

end Transport

/-! ## The resolver -/

namespace Program

variable {program program' : List Stmt}

theorem Renames.sites (h : Renames ρ program program') :
    List.Forall₂ (Site.Renamed ρ) (Program.sites program) (Program.sites program') :=
  Stmt.AllRenamed.sites h Place.fresh_top

/-- If the resolver accepts a program, then it accepts the program with a variable renamed, with the
same depth at every access. -/
theorem Renames.exists_bindingDepths (h : Renames ρ program program')
    (hwf : Stmt.AllWellFormed program) (hwf' : Stmt.AllWellFormed program')
    {low high low' high' : AccessId} (hfresh : Fresh low (Stmt.allIds program) high)
    (hfresh' : Fresh low' (Stmt.allIds program') high') {depths : BindingDepths}
    (hdepths : bindingDepths program = .ok depths) :
    ∃ depths', bindingDepths program' = .ok depths' ∧
      List.Forall₂ (fun id id' => depths[id]? = depths'[id']?) (Stmt.allIds program)
        (Stmt.allIds program') := by
  obtain ⟨hsites, -⟩ := sites_of_bindingDepths hwf hfresh hdepths
  have hnone : (Program.sites program).filterMap Site.error? = [] :=
    List.filterMap_eq_nil_iff.2 fun site hsite => (hsites site hsite).1
  have hdepths' := bindingDepths_eq hwf'
  rw [if_pos (Site.Renamed.errors_eq_nil h.sites hnone)] at hdepths'
  obtain ⟨hsites', -⟩ := sites_of_bindingDepths hwf' hfresh' hdepths'
  rw [← ids_sites program, ← ids_sites program']
  have hsame := h.sites.imp fun _ _ hsite => And.intro hsite.id?_eq_none_iff hsite.depth?_eq
  exact ⟨_, hdepths', Site.forall₂_depths hsame (fun site hsite => (hsites site hsite).2)
    fun site hsite => (hsites' site hsite).2⟩

end Program

end Lox
