/-
# Sessions under a renaming

Two sessions differ at most in the names of variables if their states do, where accesses stand for
each other that have numbers in use and the same depth. Running a text keeps this so. A text in
which a local variable is renamed is accepted like the one that it comes from, with the same depth
at every access, and whatever is run from then on comes to the same reports, but that a fault may be
reported with the new name instead of the old one (`Session.local_names_do_not_matter`).
-/

import Lox.Proofs.Execution.Renamed
import Lox.Proofs.Session.Alike

namespace Lox

variable {reach : AccessId → AccessId → Option Nat → Prop} {ρ : Respelling}

/-! ## Programs -/

/-- Two programs came to an end in the same way, but that a variable may be called by its new
name. -/
def OutcomesRenamed (reach : AccessId → AccessId → Option Nat → Prop) (ρ : Respelling)
    (outcome outcome' : Except Fault Unit × State) : Prop :=
  ResultAlike (Fault.Renamed ρ) Eq outcome.1 outcome'.1 ∧
    ∃ flags, outcome.2.Renamed reach ρ ⟨flags, []⟩ outcome'.2

/-- A program in which a variable is renamed does what the one does that it comes from. -/
theorem Program.rel_execute_renamed {setting setting' : Setting}
    (hsetting : setting.Reaches reach setting') (rounds : Nat) {p : Place}
    {program program' : List Stmt}
    (hprogram : Stmt.AllRenamed (.dynamic reach ρ) p [] program program') {flags : List Bool}
    {state state' : State} (hstate : state.Renamed reach ρ ⟨flags, []⟩ state') :
    Option.Rel (OutcomesRenamed reach ρ) (execute setting rounds program state)
      (execute setting' rounds program' state') := by
  induction program generalizing p program' flags state state' with
  | nil =>
    cases hprogram
    exact .some ⟨.ok rfl, flags, hstate⟩
  | cons s ss ih =>
    cases hprogram with
    | @cons _ _ _ s' _ ss' h hs =>
      have hcode : (Code.renamed reach ρ).procedures ⟨flags, []⟩ (.statement s) (.statement s') :=
        .statement h
      have hrun := Routine.Development.rel_run
        (fun _ _ _ hcode => Code.similar_execute_renamed hsetting hcode) hcode hstate rounds
      unfold execute
      generalize Routine.run (Code.execute setting) rounds (.statement s) state = outcome at hrun ⊢
      generalize Routine.run (Code.execute setting') rounds (.statement s') state' = outcome'
        at hrun ⊢
      cases hrun with
      | none => exact .none
      | some houtcome =>
        cases houtcome with
        | @ok later _ _ _ _ hle _ hreached =>
          obtain ⟨frames, scopes⟩ := later
          obtain rfl : scopes = [] := hle.2
          exact ih hs hreached
        | error _ hfault hreached =>
          exact .some ⟨.error hfault, _, State.Renamed.settle hreached⟩

/-! ## Reports -/

/-- Two runs failed in the same way, but that a fault may be reported with a variable called by its
new name. -/
inductive Failure.Renamed (ρ : Respelling) : Failure → Failure → Prop
  | same {failure : Failure} : Failure.Renamed ρ failure failure
  | runtime {fault fault' : Fault} (h : fault.Renamed ρ fault') :
      Failure.Renamed ρ (.runtime fault) (.runtime fault')

/-- Two runs came to the same result, but that a fault may be reported with a variable called by its
new name, and they printed the same. -/
structure Report.Renamed (ρ : Respelling) (report report' : Report) : Prop where
  result : ResultAlike (Failure.Renamed ρ) Eq report.result report'.result
  output : report.output = report'.output

namespace Session

/-! ## Accesses -/

/-- Two accesses have numbers in use, and both have some depth. -/
def Reached (session session' : Session) (id id' : AccessId) (depth : Option Nat) : Prop :=
  id < session.nextId ∧ id' < session'.nextId ∧ session.depths[id]? = depth ∧
    session'.depths[id']? = depth

/-- What a session knows of the access to a variable at a place. -/
def KnowsAccess (session : Session) (p : Place) (id : AccessId) (name : Token) : Prop :=
  id < session.nextId ∧ session.depths[id]? = p.depthOf? name.lexeme

variable {session session' : Session} {program program' : List Stmt}

theorem known_of_knows (hresolver : session.config.useResolver = true)
    (h : session.Knows program) : AccessesKnown session.KnowsAccess (Program.sites program) := by
  intro site hsite access haccess
  cases site with
  | read p id name | assign p id name =>
    cases haccess
    obtain ⟨hlt, hdepth⟩ := h _ hsite id rfl
    rw [if_pos hresolver] at hdepth
    exact ⟨hlt, hdepth⟩
  | «return» p keyword => cases haccess

/-- In two sessions that know the depths of both, a program in which a variable is renamed is
written as the depths of its accesses say. -/
theorem renamed_of_renames (hresolver : session.config.useResolver = true)
    (hresolver' : session'.config.useResolver = true) (h : Program.Renames ρ program program')
    (hknows : session.Knows program) (hknows' : session'.Knows program') :
    Stmt.AllRenamed (.dynamic (session.Reached session') ρ) .top [] program program' := by
  have hfresh : ∀ {sites sites' : List Site}, List.Forall₂ (Site.Renamed ρ) sites sites' →
      AccessesKnown (fun p _ _ => p.Fresh ρ.new) sites := by
    intro sites sites' hsites
    induction hsites with
    | nil => exact List.forall_mem_nil _
    | cons hsite _ ih =>
      refine List.forall_mem_cons.2 ⟨fun access haccess => ?_, ih⟩
      cases hsite with
      | read hp _ | assign hp _ =>
        cases haccess
        exact hp
      | «return» => cases haccess
  have hknown : AccessesKnown (fun p id name => p.Fresh ρ.new ∧ session.KnowsAccess p id name)
      (Program.sites program) := fun site hsite access haccess =>
    ⟨hfresh h.sites site hsite access haccess,
      known_of_knows hresolver hknows site hsite access haccess⟩
  have himplies : (Renaming.static ρ).Implies ρ
      (fun p id name => p.Fresh ρ.new ∧ session.KnowsAccess p id name) session'.KnowsAccess
      (.dynamic (session.Reached session') ρ) := by
    refine ⟨Renaming.spells_static ρ, fun mark name name' hname => ⟨fun _ => hname.1, hname.2⟩, ?_⟩
    rintro p marks id id' name _ ⟨hname, rfl⟩ ⟨hp, hlt, hdepth⟩ ⟨hlt', hdepth'⟩
    exact ⟨_, ⟨hlt, hlt', hdepth, hdepth'.trans (Place.depthOf?_respelled hp hname)⟩,
      fun _ => hname, rfl⟩
  have hknown' := known_of_knows hresolver' hknows'
  exact h.transport himplies hknown hknown'

/-- In two sessions that know the depths of both, programs that differ in the numbers of their
accesses alone are written as the depths of their accesses say. -/
theorem renamed_of_alike (hresolver : session.config.useResolver = true)
    (hresolver' : session'.config.useResolver = true)
    (h : Stmt.AllAlike AnyIds Eq program program') (hknows : session.Knows program)
    (hknows' : session'.Knows program') :
    Stmt.AllRenamed (.dynamic (session.Reached session') ρ) .top [] program program' := by
  have himplies : Renaming.same.Implies ρ session.KnowsAccess session'.KnowsAccess
      (.dynamic (session.Reached session') ρ) := by
    refine ⟨Renaming.spells_same ρ, ?_, ?_⟩
    · rintro _ _ name ⟨rfl, rfl⟩
      exact ⟨nofun, Token.respelled_false.symm⟩
    · rintro p marks id id' name _ ⟨hmarks, rfl⟩ ⟨hlt, hdepth⟩ ⟨hlt', hdepth'⟩
      rw [Place.respelled_eq_self hmarks] at hdepth'
      refine ⟨_, ⟨hlt, hlt', hdepth, hdepth'⟩, ?_⟩
      rw [markAt_eq_false hmarks]
      exact ⟨nofun, Token.respelled_false.symm⟩
  exact (h.renamed (fun _ hmark => absurd hmark List.not_mem_nil) .top).transport himplies
    (known_of_knows hresolver hknows) (known_of_knows hresolver' hknows')

/-! ## Sessions -/

/-- Two sessions with states that differ at most in the names of variables. -/
structure Renamed (ρ : Respelling) (session session' : Session) : Prop where
  config : session.config = session'.config
  resolver : session.config.useResolver = true
  tidy : session.Tidy
  tidy' : session'.Tidy
  state : ∃ flags, session.state.Renamed (session.Reached session') ρ ⟨flags, []⟩ session'.state

namespace Renamed

variable (h : session.Renamed ρ session')
include h

/-- Sessions go on to differ in names alone when they get to know more depths of new accesses. -/
theorem extend {next next' : Session} (hconfig : next.config = session.config)
    (hconfig' : next'.config = session'.config) (htidy : next.Tidy) (htidy' : next'.Tidy)
    (hstate : next.state = session.state) (hstate' : next'.state = session'.state)
    (hle : session.nextId ≤ next.nextId) (hle' : session'.nextId ≤ next'.nextId)
    (hdepths : ∀ id < session.nextId, next.depths[id]? = session.depths[id]?)
    (hdepths' : ∀ id < session'.nextId, next'.depths[id]? = session'.depths[id]?) :
    next.Renamed ρ next' := by
  obtain ⟨flags, hrenamed⟩ := h.state
  refine ⟨hconfig.trans (h.config.trans hconfig'.symm), hconfig ▸ h.resolver, htidy, htidy', flags,
    ?_⟩
  rw [hstate, hstate']
  apply hrenamed.mono
  rintro id id' depth ⟨hid, hid', hdepth, hdepth'⟩
  exact ⟨Nat.lt_of_lt_of_le hid hle, Nat.lt_of_lt_of_le hid' hle',
    (hdepths id hid).trans hdepth, (hdepths' id' hid').trans hdepth'⟩

end Renamed

variable {source source' : String} {depths depths' : BindingDepths} {nextId nextId' : AccessId}

/-- Two texts are read as programs that each session accepts, and that differ at most in the names
of variables. So the sessions go on to differ in names alone. -/
theorem Renamed.rel_run_of_prepare (h : session.Renamed ρ session')
    (hprepare : session.prepare source = (.ok (program, depths), nextId))
    (hprepare' : session'.prepare source' = (.ok (program', depths'), nextId'))
    (hlt : nextId < UInt32.size) (hlt' : nextId' < UInt32.size)
    (hprogram : ∀ next next' : Session, next.config.useResolver = true →
      next'.config.useResolver = true → next.Knows program → next'.Knows program' →
      Stmt.AllRenamed (.dynamic (next.Reached next') ρ) .top [] program program')
    (host : Host) (rounds : Nat) :
    Option.Rel (RunsRelated (Report.Renamed ρ) (Session.Renamed ρ)) (session.run host rounds source)
      (session'.run host rounds source') := by
  obtain ⟨htidy, hknows, hle, hold⟩ := learn_of_prepare h.tidy hprepare hlt
  obtain ⟨htidy', hknows', hle', hold'⟩ := learn_of_prepare h.tidy' hprepare' hlt'
  have hready : Renamed ρ { session.learn depths with nextId }
      { session'.learn depths' with nextId := nextId' } :=
    h.extend rfl rfl htidy htidy' rfl rfl hle hle' hold hold'
  have hresolver' : session'.config.useResolver = true := h.config ▸ h.resolver
  have hsame := hprogram { session.learn depths with nextId }
    { session'.learn depths' with nextId := nextId' } h.resolver hresolver' hknows hknows'
  have hsetting : Setting.Reaches
      (Reached { session.learn depths with nextId }
        { session'.learn depths' with nextId := nextId' })
      ⟨session.config, (session.learn depths).depths, host⟩
      ⟨session'.config, (session'.learn depths').depths, host⟩ :=
    ⟨h.resolver, h.config, rfl, fun _ _ _ hreach => hreach.2.2⟩
  obtain ⟨flags, hstate⟩ := hready.state
  have hrel : Option.Rel (OutcomesRenamed _ ρ)
      (Program.execute ⟨session.config, (session.learn depths).depths, host⟩ rounds program
        session.state)
      (Program.execute ⟨session'.config, (session'.learn depths').depths, host⟩ rounds program'
        session'.state) := Program.rel_execute_renamed hsetting rounds hsame hstate
  rw [run_of_prepare host rounds hprepare, run_of_prepare host rounds hprepare']
  generalize Program.execute ⟨session.config, (session.learn depths).depths, host⟩ rounds program
    session.state = outcome at hrel ⊢
  generalize Program.execute
    ⟨session'.config, (session'.learn depths').depths, host⟩ rounds program'
    session'.state = outcome' at hrel ⊢
  cases hrel with
  | none => exact .none
  | @some outcome outcome' houtcome =>
    obtain ⟨result, reached⟩ := outcome
    obtain ⟨result', reached'⟩ := outcome'
    obtain ⟨hresult, flags, hreached⟩ := houtcome
    refine .some ⟨⟨?_, hreached.output⟩, h.config, h.resolver, htidy, htidy', flags, hreached.store,
      hreached.environment, hreached.marked, hreached.callDepth, hreached.clockReadings, rfl⟩
    cases hresult with
    | ok _ => exact .ok rfl
    | error hfault => exact .error (.runtime hfault)

namespace Renamed

variable (h : session.Renamed ρ session')
include h

/-- Where sessions differ in names alone, any text is run to the same report but for names. -/
theorem rel_run (hroom : session.HasRoom [source]) (hroom' : session'.HasRoom [source])
    (host : Host) (rounds : Nat) :
    Option.Rel (RunsRelated (Report.Renamed ρ) (Session.Renamed ρ)) (session.run host rounds source)
      (session'.run host rounds source) := by
  have halike := @preparesAlike_self Eq (fun _ => rfl) source session session' h.config
  have hlt := hroom.prepare_lt
  have hlt' := hroom'.prepare_lt
  generalize hprepare : session.prepare source = prepared at halike hlt
  generalize hprepare' : session'.prepare source = prepared' at halike hlt'
  obtain ⟨result, nextId⟩ := prepared
  obtain ⟨result', nextId'⟩ := prepared'
  cases halike with
  | error hfailure =>
    have hle := session.le_nextId_prepare source
    have hle' := session'.le_nextId_prepare source
    rw [hprepare] at hle
    rw [hprepare'] at hle'
    unfold run
    rw [hprepare, hprepare', hfailure.eq]
    exact .some ⟨⟨.error .same, rfl⟩, h.extend rfl rfl (h.tidy.skip hle) (h.tidy'.skip hle') rfl rfl
      hle hle' (fun _ _ => rfl) fun _ _ => rfl⟩
  | ok halike =>
    exact h.rel_run_of_prepare hprepare hprepare' hlt hlt'
      (fun _ _ hresolver hresolver' => renamed_of_alike hresolver hresolver' halike) host rounds

/-- The same holds of any texts that are run one after another. -/
theorem rel_runAll {sources : List String} (hroom : session.HasRoom sources)
    (hroom' : session'.HasRoom sources) (host : Host) (rounds : Nat) :
    Option.Rel (RunAllsRelated (Report.Renamed ρ) (Session.Renamed ρ))
      (session.runAll host rounds sources) (session'.runAll host rounds sources) := by
  induction sources generalizing session session' with
  | nil => exact .some ⟨.nil, h⟩
  | cons source sources ih =>
    refine rel_runAll_cons (h.rel_run hroom.head hroom'.head host rounds) ?_
    exact fun hnext hnext' hrenamed => ih hrenamed (hroom.tail hnext) (hroom'.tail hnext')

end Renamed

end Session

/-! ## Every session is related to itself -/

theorem Store.Renamed.install {flags : List Bool} {store store' : Store}
    (h : store.Renamed reach ρ flags store') :
    (store.install Store.globals).Renamed reach ρ flags (store'.install Store.globals) := by
  unfold Store.install
  induction Builtin.all generalizing store store' with
  | nil => exact h
  | cons builtin builtins ih =>
    have hfunction := h.newFunction (@Callable.Renamed.builtin reach ρ flags builtin)
    have hname : Token.Renamed ρ false (.identifier builtin.name 0) (.identifier builtin.name 0) :=
      ⟨nofun, Token.respelled_false.symm⟩
    exact ih (hfunction.2.define (.globals h.globals) hname hfunction.1)

theorem State.renamed_initial : State.Renamed reach ρ ⟨[false], []⟩ .initial .initial := by
  have hempty : Store.Renamed reach ρ [false] .empty .empty := by
    refine ⟨rfl, rfl, rfl, rfl, fun frame mark _ name _ => ?_⟩
    have hnone : ∀ name, Store.empty.find? frame name = none := by
      intro name
      cases frame <;> rfl
    rw [hnone, hnone]
    exact .none
  have hinstalled := hempty.install
  exact ⟨hinstalled, rfl, .globals hinstalled.globals, rfl, rfl, rfl⟩

/-- In a session that texts were run in, no variable is renamed, as long as low bits are enough. -/
theorem History.renamed_self {host : Host} {config : Config} {past : List Run} {session : Session}
    (h : History host config past session) (hresolver : config.useResolver = true)
    (hroom : session.nextId < UInt32.size) : session.Renamed ρ session := by
  induction h with
  | start =>
    exact ⟨rfl, hresolver, Session.tidy_start _, Session.tidy_start _, [false],
      State.renamed_initial⟩
  | @run past session session' source rounds report _ hrun ih =>
    have hbefore := Session.hasRoom_of_run hrun hroom
    have hrel := (ih hbefore.nextId_lt).rel_run hbefore hbefore host rounds
    rw [hrun] at hrel
    cases hrel with
    | some houtcome => exact houtcome.2

end Lox
