/-
# The same code in other scopes

The same code can be executed in two settings that know different depths of its accesses, because on
the second side some of the scopes around it are missing. Accesses stand for each other if their
depths differ by the scopes that are missing (`Setting.nesting`). They do if each setting knows the
depths that the accesses have at their places (`Stmt.Alike.nested`), and then executions correspond.

Whatever a run has come to corresponds to itself, if both settings know the depths of all programs
that have been run so far (`History.recast_self`): every function in the store was declared in one
of these programs, and no frame is missing.
-/

import Lox.Proofs.Execution.Recast
import Lox.Proofs.Session.Consistency
import Lox.Proofs.Session.Declarations

namespace Lox

/-- An access has lost its variable further out than where it stands. -/
def Fault.Stray (fault : Fault) : Prop :=
  (∃ depth name, fault.cause = .internal (.pastOutermostFrame depth name)) ∨
    ∃ depth name, fault.cause = .internal (.missingVariable (depth + 1) name)

namespace Setting

/-- With the resolver, a setting knows the depth of an access at a place. -/
def Knows (setting : Setting) (p : Place) (id : AccessId) (name : Token) : Prop :=
  setting.config.useResolver = true → setting.depths[id]? = p.depthOf? name.lexeme

/-- A setting that knows the depths of all programs knows those of any code in them. -/
theorem KnowsAll.accesses {setting : Setting} {runs : List Run} (h : setting.KnowsAll runs)
    {origin : Run} (horigin : origin ∈ runs) {place : Place} {code : Code}
    (hlies : Lies origin.program place code) :
    AccessesKnown setting.Knows (code.sites place) := by
  intro site hsite access haccess hresolver
  have hdepth := h hresolver origin horigin site (hlies.sites_subset hsite)
  cases site with
  | read | assign =>
    cases haccess
    exact hdepth _ rfl
  | «return» => cases haccess

/-- What stands for what in two settings, where some of the scopes around are missing on the second
side. -/
def nesting (setting setting' : Setting) : Recasting where
  accesses marks id id' := setting.config.useResolver = true →
    ThinnedDepth marks setting.depths[id]? setting'.depths[id']?
  operators operator operator' := operator = operator'
  faults fault fault' := fault = fault' ∨ fault.Stray

variable {setting setting' : Setting}

theorem recasts_nesting (hconfig : setting.config = setting'.config)
    (hhost : setting.host = setting'.host) :
      setting.Recasts (setting.nesting setting') setting' where
  config := hconfig
  host := hhost
  depths hresolver _ _ _ h := h hresolver
  lost := by
    intro hresolver marks id id' depth depth' name h hdepth hdepth'
    have hthinned := h hresolver
    rw [hdepth, hdepth'] at hthinned
    refine ⟨.inr (.inl ⟨depth, name.lexeme, rfl⟩), ?_⟩
    cases hthinned with
    | some hthinned =>
      cases depth with
      | zero =>
        obtain ⟨rfl, -⟩ := Nat.add_eq_zero_iff.1 hthinned.2.symm
        exact .inl rfl
      | succ depth => exact .inr (.inr ⟨depth, name.lexeme, rfl⟩)
  operators := by
    rintro operator _ rfl left right
    cases Operator.binary operator left right with
    | ok value => exact .ok rfl
    | error fault => exact .error (.inl rfl)
  faults _ := .inl rfl

/-- Each access for any other. -/
private def anyNumbers : Recasting where
  accesses _ _ _ := True
  operators operator operator' := operator = operator'
  faults _ _ := True

private theorem anyNumbers_renumbers : anyNumbers.Renumbers (fun _ => True) AnyIds :=
  ⟨fun _ _ _ _ _ => trivial, fun _ => rfl, fun _ _ => trivial⟩

private theorem anyNumbers_implies (hconfig : setting.config = setting'.config) :
    anyNumbers.Implies setting.Knows setting'.Knows (setting.nesting setting') where
  accesses := by
    intro marks p p' id id' name _ hp hknown hknown' hresolver
    rw [hknown hresolver, hknown' (hconfig ▸ hresolver)]
    exact hp.depthOf? name.lexeme
  operators _ _ h := h

end Setting

section Alike

variable {setting setting' : Setting} (hconfig : setting.config = setting'.config)
  {marks : List Bool} {p p' : Place} (hp : p.Thinned marks p')
include hconfig hp

/-- An expression in other scopes, where each setting knows the depths of its accesses. -/
theorem Expr.Alike.nested {e e' : Expr} (h : e.Alike AnyIds Eq e')
    (hknown : AccessesKnown setting.Knows (e.sites p))
    (hknown' : AccessesKnown setting'.Knows (e'.sites p')) :
    e.Recast (setting.nesting setting') marks e' :=
  (h.recast Setting.anyNumbers_renumbers trivial).refine
  (Setting.anyNumbers_implies hconfig) hp hknown
    hknown'

/-- A statement in other scopes, where each setting knows the depths of its accesses. -/
theorem Stmt.Alike.nested {s s' : Stmt} (h : s.Alike AnyIds Eq s') (hwf : s.WellFormed)
    (hmark : marks.head? = some true → s.declared = [])
    (hknown : AccessesKnown setting.Knows (s.sites p))
    (hknown' : AccessesKnown setting'.Knows (s'.sites p')) :
    s.Recast (setting.nesting setting') marks s' :=
  (h.recast Setting.anyNumbers_renumbers trivial hwf hmark).refine
    (Setting.anyNumbers_implies hconfig) hp hknown hknown'

theorem Stmt.AllAlike.nested {ss ss' : List Stmt} (h : Stmt.AllAlike AnyIds Eq ss ss')
    (hwf : Stmt.AllWellFormed ss) (hmark : marks.head? = some true → Stmt.allDeclared ss = [])
    (hknown : AccessesKnown setting.Knows (Stmt.allSites p ss))
    (hknown' : AccessesKnown setting'.Knows (Stmt.allSites p' ss')) :
    Stmt.AllRecast (setting.nesting setting') marks ss ss' :=
  (h.recast Setting.anyNumbers_renumbers trivial hwf hmark).refine
    (Setting.anyNumbers_implies hconfig) hp hknown hknown'

end Alike

/-! ## What a run has come to -/

theorem Place.Thinned.refl {marks : List Bool} (hmarks : AllKept marks) {p : Place}
    (hlength : p.scopes.length ≤ marks.length) : p.Thinned marks p :=
  ⟨.refl hmarks hlength, rfl, fun hmiss => absurd hmiss hmarks.head?_ne⟩

namespace Sees

variable {runs : List Run} {store : Store} {environment : Environment} {scopes : List LocalScope}

theorem scopes_length_le (h : Sees runs store environment scopes) :
    scopes.length ≤ environment.length := by
  obtain ⟨frames, rfl, hfits⟩ := h
  rw [List.length_append, hfits.length_eq]
  exact Nat.le_add_right _ _

theorem lt_size (h : Sees runs store environment scopes)
    (hglobal : Store.globalFrame < store.frames.size) :
    ∀ frame ∈ environment, frame < store.frames.size := by
  obtain ⟨frames, rfl, hfits⟩ := h
  intro frame hframe
  induction hfits with
  | nil =>
    obtain rfl := List.mem_singleton.1 hframe
    exact hglobal
  | cons hfirst _ ih =>
    rcases List.mem_cons.1 hframe with rfl | hframe
    · exact hfirst.lt_size
    · exact ih hframe

end Sees

/-- A store in which every function corresponds to itself does so as well. -/
theorem Store.Recast.refl {r : Recasting} {store : Store}
    (hglobal : Store.globalFrame < store.frames.size)
    (h : ∀ frame name value, store.find? frame name = some value →
      value.Recast r (List.replicate store.frames.size false) value) :
    store.Recast r (List.replicate store.frames.size false) store where
  size := List.length_replicate.symm
  size' := List.count_replicate_self.symm
  functions := rfl
  globals := List.getElem?_replicate_of_lt hglobal
  find := by
    intro frame hframe name
    have hlt : frame < store.frames.size := by
      have hlt := (List.getElem?_eq_some_iff.1 hframe).1
      rwa [List.length_replicate] at hlt
    rw [FrameId.thinned_replicate (List.prefix_refl _) (Nat.le_of_lt hlt)]
    cases hfind : store.find? frame name with
    | none => exact .none
    | some value => exact .some (h frame name value hfind)
  missing := by
    intro frame hframe
    exact absurd (AllKept.replicate true (List.mem_of_getElem? hframe)) Bool.false_ne_true.symm

namespace History

variable {host : Host} {config : Config} {past : List Run} {session : Session} {source : String}
  {run : Run} {place : Place} {code : Code} {state : State}

/-- Whatever a run has come to corresponds to itself, in a setting that knows the depths of all
programs so far, as the run does. -/
theorem recast_self (h : History host config past session)
    (hbegin : session.begin? host source = some run) (hown : run.setting.KnowsAll (run :: past))
    {setting : Setting} (hconfig : run.setting.config = setting.config)
    (hknown : setting.KnowsAll (run :: past))
    (hmoment : Moment (run :: past) place code state) :
    state.Recast (run.setting.nesting setting) ⟨List.replicate state.store.frames.size false,
      List.replicate state.environment.length false⟩ state := by
  have hbegun := h.begun hbegin
  have hcomes := hmoment.comes_latest
  have hglobal : ∀ {reached : State}, run.state.Grows reached →
      Store.globalFrame < reached.store.frames.size :=
    fun hgrows => Nat.lt_of_lt_of_le hbegun.globalFrame_lt_size hgrows.frames
  refine ⟨.refl (hglobal hcomes.grows) fun frame name value hfind => ?_,
    .refl ((hbegun.sees hmoment).lt_size (hglobal hcomes.grows)), rfl, rfl, rfl⟩
  cases value with
  | callable identity called =>
    cases called with
    | builtin builtin => exact .callable .builtin
    | function declaration closure =>
      obtain ⟨hidentity, runs, q, state₀, hruns, hdeclared, rfl, rfl⟩ :=
        (hbegun.starts hcomes).2.known frame name _ hfind _ _ _ rfl
      obtain ⟨first, hfirst, hcomesDeclared⟩ := hdeclared.comes
      have hgrows := trans_of State.Grows (State.grows_declare state₀ declaration)
        (hbegun.grows_declare (hruns.subset (List.mem_of_mem_head? hfirst)) List.mem_cons_self
          hcomesDeclared hcomes hidentity)
      have hsees := (hdeclared.sees fun earlier before hearlier =>
        hbegun.of_suffix (hearlier ▸ hruns)).mono (List.Subset.refl runs) hgrows
      obtain ⟨origin, horigin, hlies⟩ := hdeclared.lies
      replace horigin := hruns.subset horigin
      obtain ⟨before, horiginal⟩ := hbegun.exists_of_mem horigin
      have hbody : Lies origin.program (q.within declaration) (.body declaration.body) :=
        hlies.tail .functionBody
      have hplace : q.Thinned (List.replicate state₀.environment.length false) q :=
        .refl AllKept.replicate (hsees.scopes_length_le.trans_eq List.length_replicate.symm)
      refine .callable (.function (.refl (hsees.lt_size (hglobal hcomes.grows))) ?_)
      exact (Stmt.AllAlike.refl (fun _ => trivial) (fun _ => rfl) declaration.body).nested hconfig
        (hplace.enterFunction AllKept.replicate.head?_ne rfl)
        (hbody.wellFormed horiginal.wellFormed).1 nofun
        (hown.accesses horigin hbody) (hknown.accesses horigin hbody)
  | _ => exact .data nofun

end History

end Lox
