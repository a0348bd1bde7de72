/-
# Scopes of trees that say the same

Programs that are alike have the same scopes, so their accesses and returns stand at the same
places: one by one, the sites of the one correspond to those of the other. The resolver therefore
accepts both or neither, with the same problems, and gives accesses that correspond the same depth.

On the other hand, which numbers stand for each other can be told from the sites alone. Trees that
are alike up to any numbers are alike for every correspondence that holds at their sites
(`Stmt.AllAlike.refine`).
-/

import Lox.Proofs.CallTree.Similar
import Lox.Proofs.Scope.Resolution
import Lox.Proofs.Tree.Alike

namespace Lox

variable {ids ids' : AccessId → AccessId → Prop} {lines : Nat → Nat → Prop}

/-- Two sites at the same place that differ at most in the numbers of accesses and in lines. -/
inductive Site.Alike (ids : AccessId → AccessId → Prop) (lines : Nat → Nat → Prop) :
    Site → Site → Prop
  | read {place : Place} {id id' : AccessId} {name name' : Token} (hid : ids id id')
      (hname : name.Alike lines name') :
        Site.Alike ids lines (.read place id name) (.read place id' name')
  | assign {place : Place} {id id' : AccessId} {name name' : Token} (hid : ids id id')
      (hname : name.Alike lines name') :
      Site.Alike ids lines (.assign place id name) (.assign place id' name')
  | return {place : Place} {keyword keyword' : Token} (hkeyword : keyword.Alike lines keyword') :
      Site.Alike ids lines (.return place keyword) (.return place keyword')

/-! ## The sites of trees that are alike -/

mutual

theorem Expr.Alike.sites {e e' : Expr} (h : e.Alike ids lines e') (p : Place) :
    List.Forall₂ (Site.Alike ids lines) (e.sites p) (e'.sites p) := by
  cases e with
  | literal value =>
    cases h
    exact .nil
  | read id name =>
    cases h with
    | read hid hname => exact .cons (.read hid hname) .nil
  | assign id name value =>
    cases h with
    | assign hid hname hvalue =>
      exact List.rel_append (hvalue.sites p) (.cons (.assign hid hname) .nil)
  | unary operator operand =>
    cases h with
    | unary _ hoperand => exact hoperand.sites p
  | binary left operator right =>
    cases h with
    | binary hleft _ hright => exact List.rel_append (hleft.sites p) (hright.sites p)
  | logical left operator right =>
    cases h with
    | logical hleft _ hright => exact List.rel_append (hleft.sites p) (hright.sites p)
  | conditional condition whenTrue whenFalse =>
    cases h with
    | conditional hcondition hwhenTrue hwhenFalse =>
      exact List.rel_append (List.rel_append (hcondition.sites p) (hwhenTrue.sites p))
        (hwhenFalse.sites p)
  | call callee paren arguments =>
    cases h with
    | call hcallee _ harguments => exact List.rel_append (hcallee.sites p) (harguments.sites p)
  | group inner =>
    cases h with
    | group hinner => exact hinner.sites p
  | host keyword code =>
    cases h with
    | host _ hcode => exact hcode.sites p

theorem Expr.AllAlike.sites {es es' : List Expr} (h : Expr.AllAlike ids lines es es') (p : Place) :
    List.Forall₂ (Site.Alike ids lines) (Expr.allSites p es) (Expr.allSites p es') := by
  cases es with
  | nil =>
    cases h
    exact .nil
  | cons e es =>
    cases h with
    | cons h hs => exact List.rel_append (h.sites p) (hs.sites p)

end

mutual

theorem Stmt.Alike.sites {s s' : Stmt} (h : s.Alike ids lines s') (p : Place) :
    List.Forall₂ (Site.Alike ids lines) (s.sites p) (s'.sites p) := by
  cases s with
  | block body =>
    cases h with
    | block hbody =>
      rw [Stmt.sites, Stmt.sites, Place.enter, Place.enter, Stmt.allDeclared_eq_of_alike hbody]
      exact hbody.sites _
  | expression value =>
    cases h with
    | expression hvalue => exact hvalue.sites p
  | function name parameters body =>
    cases h with
    | function hname hparameters hbody =>
      rw [Stmt.sites, Stmt.sites, Place.enterFunction, Place.enterFunction,
        Stmt.allDeclared_eq_of_alike hbody, Token.lexemes_eq_of_alike hparameters, hname.lexeme]
      exact hbody.sites _
  | ifThen condition whenTrue =>
    cases h with
    | ifThen hcondition hwhenTrue =>
      exact List.rel_append (hcondition.sites p) (hwhenTrue.sites p)
  | ifElse condition whenTrue whenFalse =>
    cases h with
    | ifElse hcondition hwhenTrue hwhenFalse =>
      exact List.rel_append (List.rel_append (hcondition.sites p) (hwhenTrue.sites p))
        (hwhenFalse.sites p)
  | print keyword value =>
    cases h with
    | print _ hvalue => exact hvalue.sites p
  | «return» keyword value =>
    cases h with
    | returnNil hkeyword => exact .cons (.return hkeyword) .nil
    | returnValue hkeyword hvalue => exact .cons (.return hkeyword) (hvalue.sites p)
  | var name initializer =>
    cases h with
    | varNil _ => exact .nil
    | varValue hname hvalue =>
      rw [Stmt.sites, Stmt.sites, hname.lexeme]
      exact hvalue.sites _
  | «while» condition body =>
    cases h with
    | «while» hcondition hbody => exact List.rel_append (hcondition.sites p) (hbody.sites p)

theorem Stmt.AllAlike.sites {ss ss' : List Stmt} (h : Stmt.AllAlike ids lines ss ss') (p : Place) :
    List.Forall₂ (Site.Alike ids lines) (Stmt.allSites p ss) (Stmt.allSites p ss') := by
  cases ss with
  | nil =>
    cases h
    exact .nil
  | cons s ss =>
    cases h with
    | cons h hs =>
      rw [Stmt.allSites, Stmt.allSites, Stmt.declared_eq_of_alike h]
      exact List.rel_append (h.sites p) (hs.sites _)

end

/-! ## What corresponds at the sites corresponds in the trees -/

theorem forall₂_of_append {α β : Type} {R : α → β → Prop} {first rest : List α}
    {first' rest' : List β} (hlength : first.length = first'.length)
    (h : List.Forall₂ R (first ++ rest) (first' ++ rest')) :
    List.Forall₂ R first first' ∧ List.Forall₂ R rest rest' := by
  induction first generalizing first' with
  | nil =>
    obtain rfl := List.length_eq_zero_iff.1 hlength.symm
    exact ⟨.nil, h⟩
  | cons a first ih =>
    cases first' with
    | nil => cases hlength
    | cons a' first' =>
      obtain ⟨ha, hrest⟩ := List.forall₂_cons.1 h
      obtain ⟨hfirst, hrest⟩ := ih (Nat.succ_inj.1 hlength) hrest
      exact ⟨.cons ha hfirst, hrest⟩

mutual

theorem Expr.Alike.refine {e e' : Expr} {p : Place} (h : e.Alike ids lines e')
    (hsites : List.Forall₂ (Site.Alike ids' lines) (e.sites p) (e'.sites p)) :
    e.Alike ids' lines e' := by
  cases e with
  | literal value =>
    cases h
    exact .literal
  | read id name =>
    cases h with
    | read _ hname =>
      cases (List.forall₂_cons.1 hsites).1 with
      | read hid _ => exact .read hid hname
  | assign id name value =>
    cases h with
    | assign _ hname hvalue =>
      obtain ⟨hsites, hlast⟩ := forall₂_of_append (hvalue.sites p).length_eq hsites
      cases (List.forall₂_cons.1 hlast).1 with
      | assign hid _ => exact .assign hid hname (hvalue.refine hsites)
  | unary operator operand =>
    cases h with
    | unary hoperator hoperand => exact .unary hoperator (hoperand.refine hsites)
  | binary left operator right =>
    cases h with
    | binary hleft hoperator hright =>
      obtain ⟨hsites, hsites'⟩ := forall₂_of_append (hleft.sites p).length_eq hsites
      exact .binary (hleft.refine hsites) hoperator (hright.refine hsites')
  | logical left operator right =>
    cases h with
    | logical hleft hoperator hright =>
      obtain ⟨hsites, hsites'⟩ := forall₂_of_append (hleft.sites p).length_eq hsites
      exact .logical (hleft.refine hsites) hoperator (hright.refine hsites')
  | conditional condition whenTrue whenFalse =>
    cases h with
    | conditional hcondition hwhenTrue hwhenFalse =>
      have hfirst := List.rel_append (hcondition.sites p) (hwhenTrue.sites p)
      obtain ⟨hsites, hsites''⟩ := forall₂_of_append hfirst.length_eq hsites
      obtain ⟨hsites, hsites'⟩ := forall₂_of_append (hcondition.sites p).length_eq hsites
      exact .conditional (hcondition.refine hsites) (hwhenTrue.refine hsites')
        (hwhenFalse.refine hsites'')
  | call callee paren arguments =>
    cases h with
    | call hcallee hparen harguments =>
      obtain ⟨hsites, hsites'⟩ := forall₂_of_append (hcallee.sites p).length_eq hsites
      exact .call (hcallee.refine hsites) hparen (harguments.refine hsites')
  | group inner =>
    cases h with
    | group hinner => exact .group (hinner.refine hsites)
  | host keyword code =>
    cases h with
    | host hkeyword hcode => exact .host hkeyword (hcode.refine hsites)

theorem Expr.AllAlike.refine {es es' : List Expr} {p : Place} (h : Expr.AllAlike ids lines es es')
    (hsites : List.Forall₂ (Site.Alike ids' lines) (Expr.allSites p es) (Expr.allSites p es')) :
    Expr.AllAlike ids' lines es es' := by
  cases es with
  | nil =>
    cases h
    exact .nil
  | cons e es =>
    cases h with
    | cons h hs =>
      obtain ⟨hsites, hsites'⟩ := forall₂_of_append (h.sites p).length_eq hsites
      exact .cons (h.refine hsites) (hs.refine hsites')

end

mutual

theorem Stmt.Alike.refine {s s' : Stmt} {p : Place} (h : s.Alike ids lines s')
    (hsites : List.Forall₂ (Site.Alike ids' lines) (s.sites p) (s'.sites p)) :
    s.Alike ids' lines s' := by
  cases s with
  | block body =>
    cases h with
    | block hbody =>
      rw [Stmt.sites, Stmt.sites, Place.enter, Place.enter,
        Stmt.allDeclared_eq_of_alike hbody] at hsites
      exact .block (hbody.refine hsites)
  | expression value =>
    cases h with
    | expression hvalue => exact .expression (hvalue.refine hsites)
  | function name parameters body =>
    cases h with
    | function hname hparameters hbody =>
      rw [Stmt.sites, Stmt.sites, Place.enterFunction, Place.enterFunction,
        Stmt.allDeclared_eq_of_alike hbody, Token.lexemes_eq_of_alike hparameters, hname.lexeme]
        at hsites
      exact .function hname hparameters (hbody.refine hsites)
  | ifThen condition whenTrue =>
    cases h with
    | ifThen hcondition hwhenTrue =>
      obtain ⟨hsites, hsites'⟩ := forall₂_of_append (hcondition.sites p).length_eq hsites
      exact .ifThen (hcondition.refine hsites) (hwhenTrue.refine hsites')
  | ifElse condition whenTrue whenFalse =>
    cases h with
    | ifElse hcondition hwhenTrue hwhenFalse =>
      have hfirst := List.rel_append (hcondition.sites p) (hwhenTrue.sites p)
      obtain ⟨hsites, hsites''⟩ := forall₂_of_append hfirst.length_eq hsites
      obtain ⟨hsites, hsites'⟩ := forall₂_of_append (hcondition.sites p).length_eq hsites
      exact .ifElse (hcondition.refine hsites) (hwhenTrue.refine hsites')
        (hwhenFalse.refine hsites'')
  | print keyword value =>
    cases h with
    | print hkeyword hvalue => exact .print hkeyword (hvalue.refine hsites)
  | «return» keyword value =>
    cases h with
    | returnNil hkeyword => exact .returnNil hkeyword
    | returnValue hkeyword hvalue =>
      exact .returnValue hkeyword (hvalue.refine (List.forall₂_cons.1 hsites).2)
  | var name initializer =>
    cases h with
    | varNil hname => exact .varNil hname
    | varValue hname hvalue =>
      rw [Stmt.sites, Stmt.sites, hname.lexeme] at hsites
      exact .varValue hname (hvalue.refine hsites)
  | «while» condition body =>
    cases h with
    | «while» hcondition hbody =>
      obtain ⟨hsites, hsites'⟩ := forall₂_of_append (hcondition.sites p).length_eq hsites
      exact .while (hcondition.refine hsites) (hbody.refine hsites')

theorem Stmt.AllAlike.refine {ss ss' : List Stmt} {p : Place}
    (h : Stmt.AllAlike ids lines ss ss')
    (hsites : List.Forall₂ (Site.Alike ids' lines) (Stmt.allSites p ss) (Stmt.allSites p ss')) :
    Stmt.AllAlike ids' lines ss ss' := by
  cases ss with
  | nil =>
    cases h
    exact .nil
  | cons s ss =>
    cases h with
    | cons h hs =>
      rw [Stmt.allSites, Stmt.allSites, Stmt.declared_eq_of_alike h] at hsites
      obtain ⟨hsites, hsites'⟩ := forall₂_of_append (h.sites p).length_eq hsites
      exact .cons (h.refine hsites) (hs.refine hsites')

end

theorem Site.Alike.mono {site site' : Site} (h : site.Alike ids lines site')
    (himp : ∀ id id', ids id id' → ids' id id') : site.Alike ids' lines site' := by
  cases h with
  | read hid hname => exact .read (himp _ _ hid) hname
  | assign hid hname => exact .assign (himp _ _ hid) hname
  | «return» hkeyword => exact .return hkeyword

/-- Trees stay alike when more numbers stand for each other. -/
theorem Stmt.AllAlike.mono {ss ss' : List Stmt} (h : Stmt.AllAlike ids lines ss ss')
    (himp : ∀ id id', ids id id' → ids' id id') : Stmt.AllAlike ids' lines ss ss' :=
  h.refine ((h.sites .top).imp fun _ _ hsite => hsite.mono himp)

/-! ## The resolver -/

/-- Two breaches of the rules of scoping that differ at most in lines. -/
structure ResolveError.Alike (lines : Nat → Nat → Prop) (error error' : ResolveError) : Prop where
  problem : error.problem = error'.problem
  token : error.token.Alike lines error'.token

namespace Site.Alike

variable {site site' : Site}

theorem depth?_eq (h : site.Alike ids lines site') : site.depth? = site'.depth? := by
  cases h with
  | read _ hname | assign _ hname =>
    unfold Site.depth?
    dsimp only
    rw [hname.lexeme]
  | «return» _ => rfl

theorem rel_error? (h : site.Alike ids lines site') :
    Option.Rel (ResolveError.Alike lines) site.error? site'.error? := by
  cases h with
  | @read place id id' name name' _ hname =>
    unfold Site.error?
    dsimp only
    rw [hname.lexeme]
    split
    · exact .some ⟨rfl, hname⟩
    · exact .none
  | assign _ _ => exact .none
  | @«return» place keyword keyword' hkeyword =>
    unfold Site.error?
    dsimp only
    split
    · exact .none
    · exact .some ⟨rfl, hkeyword⟩

end Site.Alike

/-- Numbers stand for each other at all sites, if they do wherever the depths are the same. -/
theorem Site.forall₂_alike_of_depths {sites sites' : List Site}
    (h : List.Forall₂ (Site.Alike ids lines) sites sites')
    (hids : ∀ site ∈ sites, ∀ site' ∈ sites', ∀ id id', site.id? = some id →
      site'.id? = some id' → site.depth? = site'.depth? → ids' id id') :
    List.Forall₂ (Site.Alike ids' lines) sites sites' := by
  induction h with
  | nil => exact .nil
  | @cons site site' sites sites' h _ ih =>
    have hfirst := hids site List.mem_cons_self site' List.mem_cons_self
    refine .cons ?_ (ih fun site hsite site' hsite' =>
      hids site (List.mem_cons_of_mem _ hsite) site' (List.mem_cons_of_mem _ hsite'))
    have hdepth := h.depth?_eq
    cases h with
    | read _ hname => exact .read (hfirst _ _ rfl rfl hdepth) hname
    | assign _ hname => exact .assign (hfirst _ _ rfl rfl hdepth) hname
    | «return» hkeyword => exact .return hkeyword

/-- Where sites have the same depths one by one, so have the accesses there in tables that know
them. -/
theorem Site.forall₂_depths {sites sites' : List Site}
    (h : List.Forall₂ (fun site site' : Site => (site.id? = none ↔ site'.id? = none) ∧
      site.depth? = site'.depth?) sites sites') {depths depths' : BindingDepths}
    (hdepths : ∀ site ∈ sites, ∀ id, site.id? = some id → depths[id]? = site.depth?)
    (hdepths' : ∀ site ∈ sites', ∀ id, site.id? = some id → depths'[id]? = site.depth?) :
    List.Forall₂ (fun id id' => depths[id]? = depths'[id']?) (sites.filterMap Site.id?)
      (sites'.filterMap Site.id?) := by
  induction h with
  | nil => exact .nil
  | @cons site site' sites sites' h _ ih =>
    obtain ⟨hfirst, hothers⟩ := List.forall_mem_cons.1 hdepths
    obtain ⟨hfirst', hothers'⟩ := List.forall_mem_cons.1 hdepths'
    have hrest := ih hothers hothers'
    cases hid : site.id? with
    | none =>
      rw [List.filterMap_cons_none hid, List.filterMap_cons_none (h.1.1 hid)]
      exact hrest
    | some id =>
      obtain ⟨id', hid'⟩ := Option.ne_none_iff_exists'.1
        fun hnone => Option.some_ne_none id (hid.symm.trans (h.1.2 hnone))
      rw [List.filterMap_cons_some hid, List.filterMap_cons_some hid']
      exact .cons ((hfirst id hid).trans (h.2.trans (hfirst' id' hid').symm)) hrest

theorem Site.Alike.id?_eq_none_iff {site site' : Site} (h : site.Alike ids lines site') :
    site.id? = none ↔ site'.id? = none := by
  cases h with
  | read | assign => exact ⟨nofun, nofun⟩
  | «return» => exact Iff.rfl

namespace Program

variable {program program' : List Stmt}
  (h : List.Forall₂ (Site.Alike ids lines) (sites program) (sites program'))
include h

/-- What is wrong at the sites of two programs is the same if these are alike. -/
theorem forall₂_errors :
    List.Forall₂ (ResolveError.Alike lines) ((sites program).filterMap Site.error?)
      ((sites program').filterMap Site.error?) :=
  List.rel_filterMap (fun _ _ hsite => Site.Alike.rel_error? hsite) h

theorem errors_eq_nil_iff :
    (sites program).filterMap Site.error? = [] ↔ (sites program').filterMap Site.error? = [] := by
  rw [← List.length_eq_zero_iff, ← List.length_eq_zero_iff, (forall₂_errors h).length_eq]

/-- Of two programs with sites that are alike the resolver accepts both or neither. It finds the
same wrong with both, or the same depths at the accesses of both. -/
theorem bindingDepths_alike (hwf : Stmt.AllWellFormed program) (hwf' : Stmt.AllWellFormed program')
    {low high low' high' : AccessId} (hfresh : Fresh low (Stmt.allIds program) high)
    (hfresh' : Fresh low' (Stmt.allIds program') high') :
    ResultAlike (List.Forall₂ (ResolveError.Alike lines))
      (fun depths depths' => List.Forall₂ (fun id id' => depths[id]? = depths'[id']?)
        (Stmt.allIds program) (Stmt.allIds program'))
      (bindingDepths program) (bindingDepths program') := by
  have hdepths := bindingDepths_eq hwf
  have hdepths' := bindingDepths_eq hwf'
  by_cases hnone : (sites program).filterMap Site.error? = []
  · rw [if_pos hnone] at hdepths
    rw [if_pos ((errors_eq_nil_iff h).1 hnone)] at hdepths'
    have hsites := (sites_of_bindingDepths hwf hfresh hdepths).1
    have hsites' := (sites_of_bindingDepths hwf' hfresh' hdepths').1
    rw [hdepths, hdepths', ← ids_sites program, ← ids_sites program']
    have hsame := h.imp fun _ _ hsite => And.intro hsite.id?_eq_none_iff hsite.depth?_eq
    exact .ok (Site.forall₂_depths hsame (fun site hsite => (hsites site hsite).2)
      fun site hsite => (hsites' site hsite).2)
  · rw [if_neg hnone] at hdepths
    rw [if_neg (mt (errors_eq_nil_iff h).2 hnone)] at hdepths'
    rw [hdepths, hdepths']
    exact .error (forall₂_errors h)

end Program

end Lox
