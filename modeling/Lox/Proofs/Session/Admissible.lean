/-
# Texts for which both ways of looking up agree

Where a scope declares a name behind an access, the depth of the access leads past that scope, while
a search by name finds what the scope has by then. `Admissible` are the texts without such accesses,
and without assignments to a local variable in its own initializer. They are admissible as texts:
whatever number is the next when one is run, it is accepted, and its sites are clear.
-/

import Lox.Proofs.Session.Run
import Lox.Proofs.Scope.Resolution

namespace Lox

/-- The depth noted down for an access is that of the innermost scope that declares the name, before
the access or behind it; and an assignment is not to a local variable in its own initializer. -/
def Site.Settled (depths : BindingDepths) : Site → Prop
  | read place id name => depths[id]? = place.owner? name.lexeme
  | assign place id name =>
    depths[id]? = place.owner? name.lexeme ∧
      ¬ (place.scopes ≠ [] ∧ place.initializes = some name.lexeme)
  | .return _ _ => True

instance (depths : BindingDepths) : DecidablePred (Site.Settled depths)
  | .read _ _ _ => inferInstanceAs (Decidable (_ = _))
  | .assign _ _ _ => inferInstanceAs (Decidable (_ ∧ _))
  | .return _ _ => inferInstanceAs (Decidable True)

/-- A text that is accepted, and in which the depth of each access is that of the scope its name
belongs to. -/
def Admissible (source : String) : Prop :=
  ∃ tokens program next depths, Token.scan source = .ok tokens ∧
    Program.ofTokens tokens 0 = (.ok program, next) ∧ Program.bindingDepths program = .ok depths ∧
      ∀ site ∈ Program.sites program, site.Settled depths

namespace Site

/-- The variable of an access is there, and it is in the innermost scope that declares its name at
all. -/
def Clear : Site → Prop
  | read place _ name | assign place _ name =>
    ¬ place.Awaits name.lexeme ∧ place.depthOf? name.lexeme = place.owner? name.lexeme
  | .return _ _ => True

variable {site : Site} {depths : BindingDepths}

theorem clear_unnumbered : site.unnumbered.Clear ↔ site.Clear := by
  cases site <;> rfl

theorem error?_unnumbered : site.unnumbered.error? = site.error? := by
  cases site <;> rfl

theorem Settled.clear (h : site.Settled depths) (herror : site.error? = none)
    (hdepth : ∀ id, site.id? = some id → depths[id]? = site.depth?) : site.Clear := by
  cases site with
  | read place id name =>
    constructor
    · intro hawaits
      unfold error? at herror
      dsimp only at herror
      rw [if_pos ⟨hawaits.scopes_ne_nil, hawaits.1⟩] at herror
      cases herror
    · exact (hdepth id rfl).symm.trans h
  | assign place id name =>
    constructor
    · exact fun hawaits => h.2 ⟨hawaits.scopes_ne_nil, hawaits.1⟩
    · exact (hdepth id rfl).symm.trans h.1
  | «return» place keyword => trivial

end Site

namespace Admissible

variable {source : String}

/-- Whatever number is the next, an admissible text is accepted, and its sites are clear. -/
theorem accepted (h : Admissible source) (nextId : AccessId) :
    ∃ tokens program next depths, Token.scan source = .ok tokens ∧
      Program.ofTokens tokens nextId = (.ok program, next) ∧
        Program.bindingDepths program = .ok depths ∧
          ∀ site ∈ Program.sites program, site.Clear := by
  obtain ⟨tokens, program₀, next₀, depths₀, hscan, hprogram₀, hdepths₀, hsettled⟩ := h
  obtain ⟨program, next, hprogram, hunnumbered⟩ :=
    Program.exists_ofTokens_of_ofTokens hprogram₀ nextId
  obtain ⟨hsites₀, -⟩ := Program.sites_of_bindingDepths
    (Program.wellFormed_of_ofTokens hprogram₀) (Program.fresh_of_ofTokens hprogram₀) hdepths₀
  have hsites : ∀ site ∈ Program.sites program, site.error? = none ∧ site.Clear := by
    intro site hsite
    have hmem : site.unnumbered ∈ (Program.sites program₀).map Site.unnumbered := by
      have hlist := congrArg (Stmt.allSites .top) hunnumbered
      rw [Stmt.allSites_unnumbered, Stmt.allSites_unnumbered] at hlist
      exact hlist ▸ List.mem_map_of_mem hsite
    obtain ⟨site₀, hsite₀, heq⟩ := List.mem_map.1 hmem
    obtain ⟨herror, hdepth⟩ := hsites₀ site₀ hsite₀
    rw [← Site.error?_unnumbered, ← Site.clear_unnumbered, ← heq, Site.error?_unnumbered,
      Site.clear_unnumbered]
    exact ⟨herror, (hsettled site₀ hsite₀).clear herror hdepth⟩
  have hnone : (Program.sites program).filterMap Site.error? = [] :=
    List.filterMap_eq_nil_iff.2 fun site hsite => (hsites site hsite).1
  have hdepths := Program.bindingDepths_eq (Program.wellFormed_of_ofTokens hprogram)
  rw [if_pos hnone] at hdepths
  exact ⟨tokens, program, next, _, hscan, hprogram, hdepths,
    fun site hsite => (hsites site hsite).2⟩

/-- An admissible text is prepared for execution, with or without the resolver. The program depends
only on the number that is the next. -/
theorem prepared (h : Admissible source) (nextId : AccessId) :
    ∃ program next, (∀ site ∈ Program.sites program, site.Clear) ∧
      ∀ session : Session, session.nextId = nextId →
        ∃ depths, session.prepare source = (.ok (program, depths), next) := by
  obtain ⟨tokens, program, next, depths, hscan, hprogram, hdepths, hclear⟩ := h.accepted nextId
  refine ⟨program, next, hclear, ?_⟩
  rintro session rfl
  unfold Session.prepare
  rw [hscan]
  dsimp only
  rw [hprogram]
  dsimp only
  split
  · rw [hdepths]
    exact ⟨depths, rfl⟩
  · exact ⟨∅, rfl⟩

/-- So in sessions in which the same number is the next, it begins runs of the same program. -/
theorem begins (h : Admissible source) (nextId : AccessId) :
    ∃ program next, (∀ site ∈ Program.sites program, site.Clear) ∧
      ∀ (host : Host) (session : Session), session.nextId = nextId →
        (session.prepare source).2 = next ∧ ∃ run, session.begin? host source = some run ∧
          run.program = program := by
  obtain ⟨program, next, hclear, hprepared⟩ := h.prepared nextId
  refine ⟨program, next, hclear, fun host session hnextId => ?_⟩
  obtain ⟨depths, hprepare⟩ := hprepared session hnextId
  unfold Session.begin?
  rw [hprepare]
  exact ⟨rfl, _, rfl, rfl⟩

end Admissible

end Lox
