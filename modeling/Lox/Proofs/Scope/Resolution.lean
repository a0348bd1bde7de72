/-
# What resolution makes of a program

Resolution comes down to the sites of a program: whatever the scopes are that it has on the way, the
depths it notes down and the errors it records are those of the sites, one after another
(`Program.bindingDepths_eq`). So what an access refers to depends on its place alone.
-/

import Lox.Proofs.Scope.Sites
import Lox.Scope.Resolve
import Mathlib.Data.List.Forall2

namespace Lox

/-! ## The scopes that resolution has on the way -/

/-- A scope has recorded the names declared in it before a place, and the variable of which the
place is in the initializer. -/
def Scope.Records (scope : Scope) (initializes : Option String) (before : List String) : Prop :=
  ∀ name, scope.lookup name =
    if initializes = some name then some false else if name ∈ before then some true else none

/-- Resolution has come to a place with its scopes. -/
def Stands (scopes : List Scope) (place : Place) : Prop :=
  match scopes, place.scopes with
  | [], [] => True
  | scope :: scopes, inner :: outer =>
    scope.Records place.initializes inner.before ∧
      List.Forall₂ (fun scope around => scope.Records none around.before) scopes outer
  | _, _ => False

theorem Scope.lookup_cons (scope : Scope) (name other : String) (readable : Bool) :
    List.lookup other ((name, readable) :: scope) =
      if other = name then some readable else scope.lookup other := by
  by_cases h : other = name
  · rw [if_pos h, h, List.lookup_cons_self]
  · rw [if_neg h, List.lookup_cons, beq_false_of_ne h]

namespace Scope.Records

variable {scope : Scope} {initializes : Option String} {before : List String} {name : String}

theorem nil : Scope.Records [] none [] := by
  intro name
  rfl

theorem isSome_lookup (h : scope.Records initializes before) :
    (scope.lookup name).isSome = true ↔ initializes = some name ∨ name ∈ before := by
  rw [h name]
  by_cases hinitializes : initializes = some name
  · simp [hinitializes]
  · by_cases hbefore : name ∈ before <;> simp [hinitializes, hbefore]

/-- A name is declared and can be read, whether it was being initialized or not. -/
theorem define (h : scope.Records initializes before)
    (hinitializes : initializes = none ∨ initializes = some name) :
    Scope.Records ((name, true) :: scope) none (name :: before) := by
  intro other
  rw [Scope.lookup_cons]
  by_cases hother : other = name
  · simp [hother]
  · have hlookup := h other
    have hnot : initializes ≠ some other := by
      rintro rfl
      rcases hinitializes with hnone | hsome
      · cases hnone
      · exact hother (Option.some.inj hsome)
    rw [if_neg hnot] at hlookup
    simp [hother, hlookup]

/-- A name is declared that cannot be read yet. -/
theorem declare (h : scope.Records none before) :
    Scope.Records ((name, false) :: scope) (some name) before := by
  intro other
  rw [Scope.lookup_cons]
  by_cases hother : other = name
  · simp [hother]
  · have hnot : ¬ name = other := fun heq => hother heq.symm
    have hlookup := h other
    simpa [hother, hnot] using hlookup

end Scope.Records

namespace Stands

variable {scopes : List Scope} {r : Resolution} {p q : Place}

theorem depthOf? (h : Stands scopes p) (name : String) :
    Scope.depthOf? name scopes = p.depthOf? name := by
  have houter : ∀ {scopes : List Scope} {outer : List LocalScope},
      List.Forall₂ (fun scope around => scope.Records none around.before) scopes outer →
      Scope.depthOf? name scopes = outer.findIdx? fun scope => name ∈ scope.before := by
    intro scopes outer hall
    induction hall with
    | nil => rfl
    | @cons scope around _ _ hfirst _ ih =>
      have hsome : (scope.lookup name).isSome = decide (name ∈ around.before) := by
        rw [Bool.eq_iff_iff, hfirst.isSome_lookup, decide_eq_true_iff]
        simp
      unfold Scope.depthOf? at ih ⊢
      rw [List.findIdx?_cons, List.findIdx?_cons, hsome, ih]
  obtain ⟨around, inFunction, initializes⟩ := p
  cases scopes with
  | nil =>
    cases around with
    | nil => rfl
    | cons inner outer => exact h.elim
  | cons scope scopes =>
    cases around with
    | nil => exact h.elim
    | cons inner outer =>
      obtain ⟨hinner, hall⟩ := h
      unfold Scope.depthOf? Place.depthOf?
      rw [List.findIdx?_cons]
      dsimp only
      rw [← houter hall]
      by_cases hsome : (scope.lookup name).isSome = true
      · rw [if_pos hsome, if_pos (hinner.isSome_lookup.1 hsome)]
      · rw [if_neg hsome, if_neg fun hor => hsome (hinner.isSome_lookup.2 hor)]
        rfl

theorem isUnreadable (h : Stands r.scopes p) (name : Token) :
    r.isUnreadable name = true ↔ p.scopes ≠ [] ∧ p.initializes = some name.lexeme := by
  obtain ⟨scopes, depths, errors⟩ := r
  obtain ⟨around, inFunction, initializes⟩ := p
  unfold Resolution.isUnreadable
  cases scopes with
  | nil =>
    cases around with
    | nil => simp
    | cons inner outer => exact h.elim
  | cons scope scopes =>
    cases around with
    | nil => exact h.elim
    | cons inner outer =>
      have hlookup := h.1 name.lexeme
      show (List.lookup name.lexeme scope == some false) = true ↔ _
      rw [hlookup]
      by_cases hinitializes : initializes = some name.lexeme
      · simp [hinitializes]
      · by_cases hbefore : name.lexeme ∈ inner.before <;> simp [hinitializes, hbefore]

/-- At the top level nothing is recorded, and elsewhere a name is recorded in the innermost
scope. -/
theorem define (h : Stands r.scopes q) {name : Token} (hscopes : q.scopes = p.scopes)
    (hp : p.initializes = none) (hq : q.initializes = none ∨ q.initializes = some name.lexeme) :
    Stands (r.define name).scopes (p.declaring [name.lexeme]) := by
  obtain ⟨scopes, depths, errors⟩ := r
  obtain ⟨around, inFunction, initializes⟩ := p
  obtain ⟨around', inFunction', initializes'⟩ := q
  obtain rfl := hscopes
  obtain rfl := hp
  cases scopes with
  | nil =>
    cases around' with
    | nil => trivial
    | cons inner outer => exact h.elim
  | cons scope scopes =>
    cases around' with
    | nil => exact h.elim
    | cons inner outer => exact ⟨h.1.define hq, h.2⟩

theorem declare (h : Stands r.scopes p) (hp : p.initializes = none) (name : Token) :
    Stands (r.declare name).scopes (p.initializing name.lexeme) := by
  obtain ⟨scopes, depths, errors⟩ := r
  obtain ⟨around, inFunction, initializes⟩ := p
  obtain rfl := hp
  cases scopes with
  | nil =>
    cases around with
    | nil => trivial
    | cons inner outer => exact h.elim
  | cons scope scopes =>
    cases around with
    | nil => exact h.elim
    | cons inner outer => exact ⟨h.1.declare, h.2⟩

theorem enter (h : Stands r.scopes p) (hp : p.initializes = none) {names : List String}
    (inFunction : Bool) :
    Stands r.enter.scopes ⟨⟨names, []⟩ :: p.scopes, inFunction, none⟩ := by
  obtain ⟨scopes, depths, errors⟩ := r
  obtain ⟨around, inFunction', initializes⟩ := p
  obtain rfl := hp
  refine ⟨.nil, ?_⟩
  cases scopes with
  | nil =>
    cases around with
    | nil => exact .nil
    | cons inner outer => exact h.elim
  | cons scope scopes =>
    cases around with
    | nil => exact h.elim
    | cons inner outer => exact .cons h.1 h.2

theorem leave (h : Stands r.scopes q) {inner : LocalScope} (hq : q.scopes = inner :: p.scopes)
    (hp : p.initializes = none) : Stands r.leave.scopes p := by
  obtain ⟨scopes, depths, errors⟩ := r
  obtain ⟨around, inFunction, initializes⟩ := p
  obtain ⟨around', inFunction', initializes'⟩ := q
  obtain rfl := hp
  obtain rfl := hq
  cases scopes with
  | nil => exact h.elim
  | cons scope scopes =>
    obtain ⟨-, hall⟩ := h
    cases hall with
    | nil => trivial
    | cons hfirst hrest => exact ⟨hfirst, hrest⟩

/-- Only which names are declared before matters, not their order. -/
theorem congr {names before before' : List String} {around : List LocalScope} {inFunction : Bool}
    {initializes : Option String}
    (h : Stands scopes ⟨⟨names, before⟩ :: around, inFunction, initializes⟩)
    (hnames : ∀ name, name ∈ before ↔ name ∈ before') :
    Stands scopes ⟨⟨names, before'⟩ :: around, inFunction, initializes⟩ := by
  cases scopes with
  | nil => exact h.elim
  | cons scope scopes =>
    refine ⟨fun name => (h.1 name).trans ?_, h.2⟩
    simp only [hnames name]

end Stands

namespace Resolution

theorem depths_note (r : Resolution) (name : Token) (readable : Bool) :
    (r.note name readable).depths = r.depths := by
  unfold note
  split <;> rfl

theorem errors_note (r : Resolution) (name : Token) (readable : Bool) :
    (r.note name readable).errors = r.errors := by
  unfold note
  split <;> rfl

end Resolution

/-! ## Resolution -/

/-- Resolution has gone past some sites and come to a place. -/
structure Resolved (r r' : Resolution) (place : Place) (sites : List Site) : Prop where
  /-- The scopes are those at the place. -/
  stands : Stands r'.scopes place
  /-- The depths noted down are those at the sites. -/
  depths : r'.depths = sites.foldl Site.record r.depths
  /-- The errors recorded are those at the sites. -/
  errors : r'.errors = (sites.filterMap Site.error?).reverse ++ r.errors

namespace Resolved

variable {r r' r'' : Resolution} {p q : Place} {sites sites' : List Site}

theorem refl (h : Stands r.scopes p) : Resolved r r p [] := ⟨h, rfl, rfl⟩

theorem trans (h : Resolved r r' p sites) (h' : Resolved r' r'' q sites') :
    Resolved r r'' q (sites ++ sites') := by
  refine ⟨h'.stands, ?_, ?_⟩
  · rw [h'.depths, h.depths, List.foldl_append]
  · rw [h'.errors, h.errors, List.filterMap_append, List.reverse_append, List.append_assoc]

theorem undeclaring (h : Resolved r r' p sites) : Resolved r r' (p.declaring []) sites := by
  rwa [Place.declaring_nil]

theorem assign (h : Stands r.scopes p) (id : AccessId) (name : Token) :
    Resolved r (r.access id name) p [.assign p id name] := by
  have hdepth := h.depthOf? name.lexeme
  unfold Resolution.access
  rw [hdepth]
  cases hp : p.depthOf? name.lexeme with
  | none => exact ⟨h, by simp only [List.foldl, Site.record, hp], rfl⟩
  | some depth => exact ⟨h, by simp only [List.foldl, Site.record, hp], rfl⟩

theorem read (h : Stands r.scopes p) (id : AccessId) (name : Token) :
    Resolved r (r.readAccess id name) p [.read p id name] := by
  unfold Resolution.readAccess
  have hunreadable := h.isUnreadable name
  by_cases hread : r.isUnreadable name = true
  · rw [if_pos hread]
    have hreject : Stands (r.reject .readInOwnInitializer name).scopes p := h
    obtain ⟨hstands, hdepths, herrors⟩ := assign hreject id name
    refine ⟨hstands, hdepths, herrors.trans ?_⟩
    simp only [List.filterMap, Site.error?, if_pos (hunreadable.1 hread)]
    rfl
  · rw [if_neg hread]
    obtain ⟨hstands, hdepths, herrors⟩ := assign h id name
    refine ⟨hstands, hdepths, herrors.trans ?_⟩
    simp only [List.filterMap, Site.error?, if_neg fun hp => hread (hunreadable.2 hp)]

end Resolved

mutual

theorem Expr.resolved {r : Resolution} {p : Place} (h : Stands r.scopes p) (e : Expr) :
    Resolved r (e.resolve r) p (e.sites p) := by
  cases e with
  | literal value => exact .refl h
  | read id name => exact .read h id name
  | assign id name value =>
    have hvalue := Expr.resolved h value
    exact hvalue.trans (.assign hvalue.stands id name)
  | unary operator operand => exact Expr.resolved h operand
  | binary left operator right | logical left operator right =>
    have hleft := Expr.resolved h left
    exact hleft.trans (Expr.resolved hleft.stands right)
  | conditional condition whenTrue whenFalse =>
    have hcondition := Expr.resolved h condition
    have htrue := hcondition.trans (Expr.resolved hcondition.stands whenTrue)
    exact htrue.trans (Expr.resolved htrue.stands whenFalse)
  | call callee paren arguments =>
    have hcallee := Expr.resolved h callee
    exact hcallee.trans (Expr.allResolved hcallee.stands arguments)
  | group inner => exact Expr.resolved h inner
  | host keyword code => exact Expr.resolved h code

theorem Expr.allResolved {r : Resolution} {p : Place} (h : Stands r.scopes p) (es : List Expr) :
    Resolved r (Expr.resolveAll r es) p (Expr.allSites p es) := by
  cases es with
  | nil => exact .refl h
  | cons e es =>
    have he := Expr.resolved h e
    exact he.trans (Expr.allResolved he.stands es)

end

namespace Resolved

variable {r : Resolution} {p q : Place}

theorem declare (h : Stands r.scopes p) (hp : p.initializes = none) (name : Token) :
    Resolved r (r.declare name) (p.initializing name.lexeme) [] :=
  ⟨h.declare hp name, r.depths_note name false, r.errors_note name false⟩

theorem define (h : Stands r.scopes q) {name : Token} (hscopes : q.scopes = p.scopes)
    (hp : p.initializes = none) (hq : q.initializes = none ∨ q.initializes = some name.lexeme) :
    Resolved r (r.define name) (p.declaring [name.lexeme]) [] :=
  ⟨h.define hscopes hp hq, r.depths_note name true, r.errors_note name true⟩

/-- Parameters are declared one after another in the scope of the body. -/
theorem parameters (names : List String) (inFunction : Bool) (scopes : List LocalScope)
    (parameters : List Token) {before : List String} {r : Resolution}
    (h : Stands r.scopes ⟨⟨names, before⟩ :: scopes, inFunction, none⟩) :
    Resolved r (parameters.foldl Resolution.define r)
      ⟨⟨names, (parameters.map Token.lexeme).reverse ++ before⟩ :: scopes, inFunction, none⟩
      [] := by
  induction parameters generalizing r before with
  | nil => exact .refl h
  | cons parameter rest ih =>
    have hfirst : Resolved r (r.define parameter)
        (Place.declaring ⟨⟨names, before⟩ :: scopes, inFunction, none⟩ [parameter.lexeme]) [] :=
      define h rfl rfl (.inl rfl)
    have hrest := hfirst.trans (ih hfirst.stands)
    rwa [List.map_cons, List.reverse_cons, List.append_assoc]

/-- A function is gone into: it is declared around its body, and its parameters in it. -/
theorem enterFunction (h : Stands r.scopes p) (hp : p.initializes = none) (name : Token)
    (parameters : List Token) (ss : List Stmt) :
    Resolved r (parameters.foldl Resolution.define (r.define name).enter)
      (p.enterFunction name parameters ss) [] := by
  have hname : Resolved r (r.define name) (p.declaring [name.lexeme]) [] :=
    define h rfl hp (.inl hp)
  have henter : Stands (r.define name).enter.scopes
      ⟨⟨parameters.map Token.lexeme ++ Stmt.allDeclared ss, []⟩ ::
        (p.declaring [name.lexeme]).scopes, true, none⟩ :=
    hname.stands.enter ((p.initializes_declaring _).trans hp) true
  obtain ⟨hstands, hdepths, herrors⟩ := Resolved.parameters
    (parameters.map Token.lexeme ++ Stmt.allDeclared ss) true (p.declaring [name.lexeme]).scopes
    parameters henter
  refine ⟨?_, hdepths.trans hname.depths, herrors.trans hname.errors⟩
  apply hstands.congr
  intro other
  rw [List.append_nil, List.mem_reverse]

end Resolved

mutual

theorem Stmt.resolved {r : Resolution} {p : Place} (h : Stands r.scopes p)
    (hp : p.initializes = none) (s : Stmt) (hwf : s.WellFormed) :
    Resolved r (s.resolve p.inFunction r) (p.declaring s.declared) (s.sites p) := by
  cases s with
  | block body =>
    have henter : Stands r.enter.scopes (p.enter body) := h.enter hp p.inFunction
    obtain ⟨q, hbody, hq⟩ := Stmt.allResolved henter rfl body hwf
    obtain ⟨inner, hq⟩ := hq _ _ rfl
    have hleave : Stands (Resolution.leave _).scopes p := hbody.stands.leave hq hp
    exact Resolved.undeclaring ⟨hleave, hbody.depths, hbody.errors⟩
  | expression value => exact (value.resolved h).undeclaring
  | function name parameters body =>
    have henter := Resolved.enterFunction h hp name parameters body
    obtain ⟨q, hbody, hq⟩ := Stmt.allResolved henter.stands rfl body hwf
    obtain ⟨inner, hq⟩ := hq _ _ rfl
    obtain ⟨-, hdepths, herrors⟩ := henter.trans hbody
    have hp' : (p.declaring [name.lexeme]).initializes = none :=
      (p.initializes_declaring _).trans hp
    have hleave : Stands (Resolution.leave _).scopes (p.declaring [name.lexeme]) :=
      hbody.stands.leave hq hp'
    exact ⟨hleave, hdepths, herrors⟩
  | ifThen condition whenTrue =>
    have hcondition := condition.resolved h
    have htrue := Stmt.resolved hcondition.stands hp whenTrue hwf.2.2
    rw [hwf.2.1] at htrue
    exact hcondition.trans htrue
  | ifElse condition whenTrue whenFalse =>
    have hcondition := condition.resolved h
    have htrue := Stmt.resolved hcondition.stands hp whenTrue hwf.2.1.2
    rw [hwf.2.1.1, Place.declaring_nil] at htrue
    have hfalse := Stmt.resolved htrue.stands hp whenFalse hwf.2.2.2
    rw [hwf.2.2.1] at hfalse
    exact (hcondition.trans htrue).trans hfalse
  | print keyword value => exact (value.resolved h).undeclaring
  | «return» keyword value =>
    have hreturn : Resolved r
        (if p.inFunction then r else r.reject .topLevelReturn keyword) p [.return p keyword] := by
      by_cases hinFunction : p.inFunction = true
      · rw [if_pos hinFunction]
        exact ⟨h, rfl, by simp only [List.filterMap, Site.error?, if_pos hinFunction]; rfl⟩
      · rw [if_neg hinFunction]
        exact ⟨h, rfl, by simp only [List.filterMap, Site.error?, if_neg hinFunction]; rfl⟩
    cases value with
    | none => exact hreturn.undeclaring
    | some value => exact (hreturn.trans (value.resolved hreturn.stands)).undeclaring
  | var name initializer =>
    have hdeclare := Resolved.declare h hp name
    cases initializer with
    | none => exact hdeclare.trans (.define hdeclare.stands rfl hp (.inr rfl))
    | some value =>
      have hvalue := hdeclare.trans (value.resolved hdeclare.stands)
      have hdefine : Resolved _ _ (p.declaring [name.lexeme]) [] :=
        .define hvalue.stands rfl hp (.inr rfl)
      have hall := hvalue.trans hdefine
      rwa [List.append_nil] at hall
  | «while» condition body =>
    have hcondition := condition.resolved h
    have hbody := Stmt.resolved hcondition.stands hp body hwf.2.2
    rw [hwf.2.1] at hbody
    exact hcondition.trans hbody

theorem Stmt.allResolved {r : Resolution} {p : Place} (h : Stands r.scopes p)
    (hp : p.initializes = none) (ss : List Stmt) (hwf : Stmt.AllWellFormed ss) :
    ∃ q, Resolved r (Stmt.resolveAll p.inFunction r ss) q (Stmt.allSites p ss) ∧
      ∀ scope scopes, p.scopes = scope :: scopes → ∃ scope, q.scopes = scope :: scopes := by
  cases ss with
  | nil => exact ⟨p, .refl h, fun scope scopes hscopes => ⟨scope, hscopes⟩⟩
  | cons s ss =>
    have hs := Stmt.resolved h hp s hwf.1
    have hp' : (p.declaring s.declared).initializes = none :=
      (p.initializes_declaring s.declared).trans hp
    obtain ⟨q, hq, hrest⟩ := Stmt.allResolved hs.stands hp' ss hwf.2
    rw [Place.inFunction_declaring] at hq
    refine ⟨q, hs.trans hq, fun scope scopes hscopes => ?_⟩
    apply hrest { scope with before := s.declared ++ scope.before } scopes
    unfold Place.declaring
    rw [hscopes]

end

namespace Program

/-- Resolution notes down the depths of the sites of a program, unless something is wrong at one of
them. -/
theorem bindingDepths_eq {program : List Stmt} (hwf : Stmt.AllWellFormed program) :
    bindingDepths program =
      if (sites program).filterMap Site.error? = [] then .ok ((sites program).foldl Site.record ∅)
      else .error ((sites program).filterMap Site.error?) := by
  have hinitial : Stands Resolution.initial.scopes .top := trivial
  obtain ⟨q, ⟨-, hdepths, herrors⟩, -⟩ := Stmt.allResolved hinitial rfl program hwf
  have herrors : (Stmt.resolveAll false .initial program).errors =
      ((sites program).filterMap Site.error?).reverse := herrors.trans (List.append_nil _)
  have hdepths : (Stmt.resolveAll false .initial program).depths =
      (sites program).foldl Site.record ∅ := hdepths
  unfold bindingDepths
  dsimp only
  rw [herrors, hdepths]
  cases hsites : (sites program).filterMap Site.error? with
  | nil => rfl
  | cons error errors =>
    rw [if_neg (List.cons_ne_nil _ _)]
    split
    · rename_i hnil
      exact absurd (List.reverse_eq_nil_iff.1 hnil) (List.cons_ne_nil _ _)
    · rw [List.reverse_reverse]

end Program

/-! ## Depths at sites -/

namespace Site

variable {depths : BindingDepths} {sites : List Site} {site : Site} {id : AccessId}

/-- Only the depth of the access itself is noted down at a site. -/
theorem getElem?_record (depths : BindingDepths) (site : Site) (id : AccessId) :
    (site.record depths)[id]? =
      if site.id? = some id then site.depth?.or depths[id]? else depths[id]? := by
  have hinsert : ∀ (id' : AccessId) (depth : Nat), (depths.insert id' depth)[id]? =
      if some id' = some id then some depth else depths[id]? := by
    intro id' depth
    rw [Std.TreeMap.getElem?_insert]
    simp only [Nat.compare_eq_eq, Option.some_inj]
  cases site with
  | read place id' name | assign place id' name =>
    unfold record id? depth?
    dsimp only
    cases place.depthOf? name.lexeme with
    | none => exact (ite_self (depths[id]?)).symm
    | some depth => exact hinsert id' depth
  | «return» place keyword => rfl

/-- For a number that no access has, nothing is noted down. -/
theorem getElem?_foldl_record_of_not_mem (hid : id ∉ sites.filterMap id?) :
    (sites.foldl record depths)[id]? = depths[id]? := by
  induction sites generalizing depths with
  | nil => rfl
  | cons site sites ih =>
    have hsite : site.id? ≠ some id := by
      intro heq
      rw [List.filterMap_cons, heq] at hid
      exact hid List.mem_cons_self
    have hsites : id ∉ sites.filterMap id? := by
      intro hmem
      rw [List.filterMap_cons] at hid
      split at hid
      · exact hid hmem
      · exact hid (List.mem_cons_of_mem _ hmem)
    rw [List.foldl_cons, ih hsites, getElem?_record, if_neg hsite]

/-- Where each access has a number of its own, the depth noted down for a number is that at the
access. -/
theorem getElem?_foldl_record (hnodup : (sites.filterMap id?).Nodup) (hsite : site ∈ sites)
    (hid : site.id? = some id) (hnone : depths[id]? = none) :
    (sites.foldl record depths)[id]? = site.depth? := by
  induction sites generalizing depths with
  | nil => cases hsite
  | cons first sites ih =>
    rw [List.foldl_cons]
    rcases List.mem_cons.1 hsite with rfl | hsite
    · rw [List.filterMap_cons, hid] at hnodup
      rw [getElem?_foldl_record_of_not_mem (List.nodup_cons.1 hnodup).1, getElem?_record,
        if_pos hid, hnone, Option.or_none]
    · rw [List.filterMap_cons] at hnodup
      have hrest : first.id? ≠ some id ∧ (sites.filterMap id?).Nodup := by
        cases hfirst : first.id? with
        | none =>
          rw [hfirst] at hnodup
          exact ⟨fun h => (Option.some_ne_none _ h.symm).elim, hnodup⟩
        | some other =>
          rw [hfirst] at hnodup
          obtain ⟨hother, hrest⟩ := List.nodup_cons.1 hnodup
          refine ⟨fun heq => hother ?_, hrest⟩
          obtain rfl := Option.some.inj heq
          exact List.mem_filterMap.2 ⟨site, hsite, hid⟩
      apply ih hrest.2 hsite
      rw [getElem?_record, if_neg hrest.1, hnone]

end Site

/-- In a program that is accepted nothing is wrong at any site, and the depths noted down are those
at its accesses. -/
theorem Program.sites_of_bindingDepths {program : List Stmt} {low high : AccessId}
    {depths : BindingDepths} (hwf : Stmt.AllWellFormed program)
    (hfresh : Fresh low (Stmt.allIds program) high) (h : bindingDepths program = .ok depths) :
    (∀ site ∈ sites program, site.error? = none ∧
        ∀ id, site.id? = some id → depths[id]? = site.depth?) ∧
      ∀ id, id ∉ Stmt.allIds program → depths[id]? = none := by
  rw [bindingDepths_eq hwf] at h
  split at h
  · rename_i herrors
    cases h
    constructor
    · intro site hsite
      constructor
      · exact List.filterMap_eq_nil_iff.1 herrors site hsite
      · intro id hid
        have hnodup := hfresh.nodup
        rw [← ids_sites] at hnodup
        exact Site.getElem?_foldl_record hnodup hsite hid Std.TreeMap.getElem?_emptyc
    · intro id hid
      rw [← ids_sites] at hid
      rw [Site.getElem?_foldl_record_of_not_mem hid]
      exact Std.TreeMap.getElem?_emptyc
  · cases h

end Lox
