/-
# Sessions in which programs are recast

Operators can be written otherwise if others make the same of all operands, up to faults that stand
for each other; a `Rewording` says which operators and which faults. A program that is reworded may
have further parentheses, too. Two sessions that differ only in this come to the same when they run
the same texts from then on, and one when it runs a text while the other runs it reworded
(`Session.Recast.endsRelated_runAll`).

Parentheses take rounds of their own. So what is compared is what comes of running texts with a
bound that is high enough on each side (`EndsRelated`).
-/

import Lox.Proofs.Execution.Recast
import Lox.Proofs.Scope.Recast
import Lox.Proofs.Session.Alike

namespace Lox

/-! ## Computations with a bound -/

/-- Two computations get a bound on their rounds each. Whatever the one comes to within some bound,
the other comes to something related within some bound, and the other way round. -/
structure EndsRelated {α α' : Type} (rel : α → α' → Prop) (first : Nat → Option α)
    (second : Nat → Option α') : Prop where
  forth : ∀ outcome, (∃ rounds, first rounds = some outcome) →
    ∃ outcome', (∃ rounds, second rounds = some outcome') ∧ rel outcome outcome'
  back : ∀ outcome', (∃ rounds, second rounds = some outcome') →
    ∃ outcome, (∃ rounds, first rounds = some outcome) ∧ rel outcome outcome'

namespace EndsRelated

variable {α α' β β' : Type} {rel : α → α' → Prop} {first : Nat → Option α}
    {second : Nat → Option α'}

theorem of_some {outcome : α} {outcome' : α'} (h : rel outcome outcome') :
    EndsRelated rel (fun _ => some outcome) fun _ => some outcome' := by
  constructor
  · rintro _ ⟨_, ⟨⟩⟩
    exact ⟨outcome', ⟨0, rfl⟩, h⟩
  · rintro _ ⟨_, ⟨⟩⟩
    exact ⟨outcome, ⟨0, rfl⟩, h⟩

theorem map {later : β → β' → Prop} {f : α → β} {f' : α' → β'} (h : EndsRelated rel first second)
    (himp : ∀ outcome outcome', rel outcome outcome' → later (f outcome) (f' outcome')) :
    EndsRelated later (fun rounds => (first rounds).map f)
      fun rounds => (second rounds).map f' := by
  constructor
  · rintro _ ⟨rounds, hfirst⟩
    obtain ⟨outcome, hsome, rfl⟩ := Option.map_eq_some_iff.1 hfirst
    obtain ⟨outcome', ⟨rounds', hsecond⟩, hrel⟩ := h.forth outcome ⟨rounds, hsome⟩
    exact ⟨f' outcome', ⟨rounds', Option.map_eq_some_iff.2 ⟨outcome', hsecond, rfl⟩⟩,
      himp _ _ hrel⟩
  · rintro _ ⟨rounds', hsecond⟩
    obtain ⟨outcome', hsome, rfl⟩ := Option.map_eq_some_iff.1 hsecond
    obtain ⟨outcome, ⟨rounds, hfirst⟩, hrel⟩ := h.back outcome' ⟨rounds', hsome⟩
    exact ⟨f outcome, ⟨rounds, Option.map_eq_some_iff.2 ⟨outcome, hfirst, rfl⟩⟩, himp _ _ hrel⟩

end EndsRelated

/-! ## Programs -/

section Programs

variable {r : Recasting} {flags : List Bool} {program program' : List Stmt} {state state' : State}

/-- Two programs came to an end in the same way, up to faults that stand for each other. -/
def OutcomesRecast (r : Recasting) (outcome outcome' : Except Fault Unit × State) : Prop :=
  ResultAlike r.faults Eq outcome.1 outcome'.1 ∧
    ∃ flags, outcome.2.Recast r ⟨flags, [false]⟩ outcome'.2

namespace Program

variable {setting setting' : Setting}

theorem exists_execute_iff {result : Except Fault Unit} {last : State} :
    (∃ rounds, execute setting rounds program state = some (result, last)) ↔
      ∃ reached, Routine.Ends (Code.execute setting) (steps program) state (result, reached) ∧
        left result reached = last := by
  constructor
  · rintro ⟨rounds, h⟩
    obtain ⟨reached, hends, rfl⟩ := ends_of_execute h
    exact ⟨reached, hends, rfl⟩
  · rintro ⟨reached, hends, rfl⟩
    exact exists_execute_of_ends hends

theorem outcomesRecast_left {outcome outcome' : Outcome State Fault Unit}
    (h : (Code.recast r).Outcomes ⟨flags, [false]⟩ (fun _ => Eq) outcome outcome') :
    OutcomesRecast r (outcome.1, left outcome.1 outcome.2)
      (outcome'.1, left outcome'.1 outcome'.2) := by
  cases h with
  | @ok later _ _ _ _ hle h hstates =>
    obtain ⟨frames, scopes⟩ := later
    obtain rfl : scopes = [false] := hle.2
    exact ⟨.ok h, frames, hstates⟩
  | error hle hfault hstates => exact ⟨.error hfault, _, State.Recast.settle hstates⟩

variable (hsetting : setting.Recasts r setting')
    (hprogram : Stmt.AllRecast r [false] program program')
include hsetting hprogram

theorem endsAlike_steps :
    (Code.recast r).EndsAlike (Code.execute setting) (Code.execute setting') ⟨flags, [false]⟩
      (fun _ => Eq) (steps program) (steps program') := by
  induction program generalizing program' flags with
  | nil =>
    cases hprogram
    exact Routine.Development.endsAlike_pure rfl
  | cons s ss ih =>
    cases hprogram with
    | cons h hs =>
      have hfirst := Code.endsAlike_of_similar hsetting
        (@Code.similar_statement_recast r ⟨flags, [false]⟩ _ le_rfl _ _ h)
      refine hfirst.bind fun later hle _ _ _ => ?_
      obtain ⟨frames, scopes⟩ := later
      obtain rfl : scopes = [false] := hle.2
      exact ih hs

/-- A program that is recast does what the one does that it comes from. -/
theorem endsRelated_execute (hstate : state.Recast r ⟨flags, [false]⟩ state') :
    EndsRelated (OutcomesRecast r) (fun rounds => execute setting rounds program state)
      fun rounds => execute setting' rounds program' state' := by
  have halike := endsAlike_steps hsetting hprogram state state' hstate
  constructor
  · rintro ⟨result, last⟩ h
    obtain ⟨reached, hends, rfl⟩ := exists_execute_iff.1 h
    obtain ⟨⟨result', reached'⟩, hends', houtcome⟩ := halike.forth _ hends
    exact ⟨_, exists_execute_iff.2 ⟨reached', hends', rfl⟩, outcomesRecast_left houtcome⟩
  · rintro ⟨result', last'⟩ h
    obtain ⟨reached', hends', rfl⟩ := exists_execute_iff.1 h
    obtain ⟨⟨result, reached⟩, hends, houtcome⟩ := halike.back _ hends'
    exact ⟨_, exists_execute_iff.2 ⟨reached, hends, rfl⟩, outcomesRecast_left houtcome⟩

end Program

end Programs

/-! ## Operators that are written otherwise -/

/-- Which operators may be written instead of which. They make the same of all operands, up to
faults that stand for each other. -/
structure Rewording where
  operators : Token → Token → Prop
  faults : Fault → Fault → Prop
  operators_refl : ∀ operator, operators operator operator
  faults_refl : ∀ fault, faults fault fault
  binary : ∀ operator operator', operators operator operator' → ∀ left right,
    ResultAlike faults Eq (Operator.binary operator left right)
      (Operator.binary operator' left right)

/-- Two runs failed in the same way, up to faults that stand for each other. -/
inductive Failure.SameBut (faults : Fault → Fault → Prop) : Failure → Failure → Prop
  | same {failure : Failure} : Failure.SameBut faults failure failure
  | runtime {fault fault' : Fault} (h : faults fault fault') :
      Failure.SameBut faults (.runtime fault) (.runtime fault')

/-- Two runs came to the same result, up to faults that stand for each other, and printed the
same. -/
structure Report.SameBut (faults : Fault → Fault → Prop) (report report' : Report) : Prop where
  result : ResultAlike (Failure.SameBut faults) Eq report.result report'.result
  output : report.output = report'.output

namespace Rewording

variable (w : Rewording)

/-- Programs that are reworded, whatever the numbers of their accesses. No scope is missing. -/
def static : Recasting where
  accesses marks _ _ := AllKept marks
  operators := w.operators
  faults := w.faults

/-- What is reworded in two sessions: accesses stand for each other that have the same depth. -/
def dynamic (session session' : Session) : Recasting where
  accesses marks id id' := AllKept marks ∧ session.SameDepth session' id id'
  operators := w.operators
  faults := w.faults

theorem renumbers_static : w.static.Renumbers AllKept AnyIds :=
  ⟨fun _ hmarks _ _ _ => hmarks, w.operators_refl, fun _ hmarks => hmarks.enter⟩

theorem ignoresIds_static : w.static.IgnoresIds := fun _ _ _ _ _ h => h

/-- A program in which only the numbers of accesses are others is reworded as well. -/
theorem static_of_alike {program program' : List Stmt}
    (h : Stmt.AllAlike AnyIds Eq program program')
    (hwf : Stmt.AllWellFormed program) : Stmt.AllRecast w.static [false] program program' :=
  h.recast w.renumbers_static (@AllKept.replicate 1) hwf nofun

end Rewording

/-! ## Sessions -/

namespace Session

variable {w : Rewording} {session session' : Session} {program program' : List Stmt}

/-- What a session knows of the access to a variable at a place. -/
def KnowsDepth (session : Session) (p : Place) (id : AccessId) (name : Token) : Prop :=
  id < session.nextId ∧
    session.depths[id]? = if session.config.useResolver then p.depthOf? name.lexeme else none

theorem Knows.knowsDepth (h : session.Knows program) :
    AccessesKnown session.KnowsDepth (Program.sites program) := by
  intro site hsite access haccess
  cases site with
  | read | assign =>
    cases haccess
    exact h _ hsite _ rfl
  | «return» => cases haccess

/-- In two sessions that know the depths of both, a program that is reworded is reworded with the
same depths. -/
theorem recast_of_knows (hconfig : session.config = session'.config)
    (h : Stmt.AllRecast w.static [false] program program') (hknows : session.Knows program)
    (hknows' : session'.Knows program') :
    Stmt.AllRecast (w.dynamic session session') [false] program program' := by
  have himplies : w.static.Implies session.KnowsDepth session'.KnowsDepth
      (w.dynamic session session') := by
    refine ⟨?_, fun _ _ h => h⟩
    rintro marks p p' id id' name hmarks hp ⟨hlt, hdepth⟩ ⟨hlt', hdepth'⟩
    refine ⟨hmarks, hlt, hlt', ?_⟩
    rw [hdepth, hdepth', hconfig, (hp.depthOf? name.lexeme).eq_of_all_kept hmarks]
  have htop : Place.top.Thinned [false] Place.top := ⟨.nil, rfl, fun _ => rfl⟩
  exact h.refine himplies htop hknows.knowsDepth hknows'.knowsDepth

/-- Two sessions with states that differ at most in how what is in them is worded. -/
structure Recast (w : Rewording) (session session' : Session) : Prop where
  config : session.config = session'.config
  tidy : session.Tidy
  tidy' : session'.Tidy
  state : ∃ flags, session.state.Recast (w.dynamic session session') ⟨flags, [false]⟩ session'.state

theorem recasts_dynamic (hconfig : session.config = session'.config) (host : Host) :
    Setting.Recasts (w.dynamic session session') ⟨session.config, session.depths, host⟩
      ⟨session'.config, session'.depths, host⟩ where
  config := hconfig
  host := rfl
  depths := by
    rintro - marks id id' ⟨hmarks, -, -, hsame⟩
    dsimp only
    rw [hsame]
    exact .refl hmarks _
  lost := by
    rintro - marks id id' depth depth' name ⟨hmarks, -, -, hsame⟩ hdepth hdepth'
    obtain rfl := Option.some.inj (hdepth.symm.trans (hsame.trans hdepth'))
    exact ⟨w.faults_refl _, w.faults_refl _⟩
  operators := w.binary
  faults := w.faults_refl

namespace Recast

variable (h : session.Recast w session')
include h

/-- Sessions go on to differ in words alone when they get to know more depths of new accesses. -/
theorem extend {next next' : Session} (hconfig : next.config = session.config)
    (hconfig' : next'.config = session'.config) (htidy : next.Tidy) (htidy' : next'.Tidy)
    (hstate : next.state = session.state) (hstate' : next'.state = session'.state)
    (hle : session.nextId ≤ next.nextId) (hle' : session'.nextId ≤ next'.nextId)
    (hdepths : ∀ id < session.nextId, next.depths[id]? = session.depths[id]?)
    (hdepths' : ∀ id < session'.nextId, next'.depths[id]? = session'.depths[id]?) :
    next.Recast w next' := by
  obtain ⟨flags, hrecast⟩ := h.state
  refine ⟨hconfig.trans (h.config.trans hconfig'.symm), htidy, htidy', flags, ?_⟩
  rw [hstate, hstate']
  refine hrecast.mono ⟨?_, fun _ _ h => h⟩
  rintro marks id id' ⟨hmarks, hid, hid', hsame⟩
  refine ⟨hmarks, Nat.lt_of_lt_of_le hid hle, Nat.lt_of_lt_of_le hid' hle', ?_⟩
  rw [hdepths id hid, hdepths' id' hid', hsame]

variable {source source' : String} {depths depths' : BindingDepths} {nextId nextId' : AccessId}

/-- Two texts are read as programs that each session accepts, and of which the second is the first
reworded. They come to the same, and so do the sessions from then on. -/
theorem endsRelated_run_of_prepare
    (hprepare : session.prepare source = (.ok (program, depths), nextId))
    (hprepare' : session'.prepare source' = (.ok (program', depths'), nextId'))
    (hlt : nextId < UInt32.size) (hlt' : nextId' < UInt32.size)
    (hprogram : Stmt.AllRecast w.static [false] program program') (host : Host) :
    EndsRelated (RunsRelated (Report.SameBut w.faults) (Session.Recast w))
      (fun rounds => session.run host rounds source)
      fun rounds => session'.run host rounds source' := by
  obtain ⟨htidy, hknows, hle, hold⟩ := learn_of_prepare h.tidy hprepare hlt
  obtain ⟨htidy', hknows', hle', hold'⟩ := learn_of_prepare h.tidy' hprepare' hlt'
  have hready : Session.Recast w { session.learn depths with nextId }
      { session'.learn depths' with nextId := nextId' } :=
    h.extend rfl rfl htidy htidy' rfl rfl hle hle' hold hold'
  have hsame := recast_of_knows hready.config hprogram hknows hknows'
  obtain ⟨flags, hstate⟩ := hready.state
  have hends := Program.endsRelated_execute (recasts_dynamic hready.config host) hsame hstate
  simp only [run_of_prepare host _ hprepare, run_of_prepare host _ hprepare']
  refine hends.map ?_
  rintro ⟨result, reached⟩ ⟨result', reached'⟩ ⟨hresult, flags, hreached⟩
  refine ⟨⟨?_, hreached.output⟩, h.config, htidy, htidy', flags, hreached.store,
    hreached.environment, hreached.callDepth, hreached.clockReadings, rfl⟩
  cases hresult with
  | ok _ => exact .ok rfl
  | error hfault => exact .error (.runtime hfault)

/-- Two texts that are both rejected for the same reason leave sessions as they differ. -/
theorem endsRelated_run_of_error {failure : Failure}
    (hprepare : session.prepare source = (.error failure, nextId))
    (hprepare' : session'.prepare source' = (.error failure, nextId')) (host : Host) :
    EndsRelated (RunsRelated (Report.SameBut w.faults) (Session.Recast w))
      (fun rounds => session.run host rounds source)
      fun rounds => session'.run host rounds source' := by
  have hle := session.le_nextId_prepare source
  have hle' := session'.le_nextId_prepare source'
  rw [hprepare] at hle
  rw [hprepare'] at hle'
  unfold run
  rw [hprepare, hprepare']
  exact .of_some ⟨⟨.error .same, rfl⟩, h.extend rfl rfl (h.tidy.skip hle) (h.tidy'.skip hle') rfl
    rfl hle hle' (fun _ _ => rfl) fun _ _ => rfl⟩

/-- Where sessions differ in words alone, any text is run to the same report but for words. -/
theorem endsRelated_run (hroom : session.HasRoom [source]) (hroom' : session'.HasRoom [source])
    (host : Host) :
    EndsRelated (RunsRelated (Report.SameBut w.faults) (Session.Recast w))
      (fun rounds => session.run host rounds source)
      fun rounds => session'.run host rounds source := by
  have halike := @preparesAlike_self Eq (fun _ => rfl) source session session' h.config
  have hlt := hroom.prepare_lt
  have hlt' := hroom'.prepare_lt
  generalize hprepare : session.prepare source = prepared at halike hlt
  generalize hprepare' : session'.prepare source = prepared' at halike hlt'
  obtain ⟨result, nextId⟩ := prepared
  obtain ⟨result', nextId'⟩ := prepared'
  cases halike with
  | error hfailure =>
    cases hfailure.eq
    exact h.endsRelated_run_of_error hprepare hprepare' host
  | @ok prepared prepared' halike =>
    obtain ⟨tokens, -, hprogram, -⟩ := prepare_eq_ok_iff.1 hprepare
    exact h.endsRelated_run_of_prepare hprepare hprepare' hlt hlt'
      (w.static_of_alike halike (Program.wellFormed_of_ofTokens hprogram)) host

end Recast

/-! ## Texts run one after another -/

/-- Texts are run one after another if the first is run and then the others. -/
theorem exists_runAll_cons_iff {host : Host} {source : String} {later : List String}
    {reports : List Report} {last : Session} :
    (∃ rounds, session.runAll host rounds (source :: later) = some (reports, last)) ↔
      ∃ report next rest, (∃ rounds, session.run host rounds source = some (report, next)) ∧
        (∃ rounds, next.runAll host rounds later = some (rest, last)) ∧
          report :: rest = reports := by
  constructor
  · rintro ⟨rounds, h⟩
    unfold runAll at h
    split at h
    · cases h
    · rename_i report next hrun
      split at h
      · cases h
      · rename_i rest last hrest
        cases h
        exact ⟨report, next, rest, ⟨rounds, hrun⟩, ⟨rounds, hrest⟩, rfl⟩
  · rintro ⟨report, next, rest, ⟨rounds, hrun⟩, ⟨rounds', hrest⟩, rfl⟩
    refine ⟨max rounds rounds', ?_⟩
    unfold runAll
    rw [run_mono (Nat.le_max_left _ _) hrun]
    dsimp only
    rw [runAll_mono (Nat.le_max_right _ _) hrest]

theorem endsRelated_runAll_cons {reports : Report → Report → Prop}
    {sessions : Session → Session → Prop} {host : Host} {source source' : String}
    {later later' : List String}
    (hrun : EndsRelated (RunsRelated reports sessions)
      (fun rounds => session.run host rounds source)
      fun rounds => session'.run host rounds source')
    (hlater : ∀ {next next' : Session}, next.nextId = (session.prepare source).2 →
      next'.nextId = (session'.prepare source').2 → sessions next next' →
      EndsRelated (RunAllsRelated reports sessions) (fun rounds => next.runAll host rounds later)
        fun rounds => next'.runAll host rounds later') :
    EndsRelated (RunAllsRelated reports sessions)
      (fun rounds => session.runAll host rounds (source :: later))
      fun rounds => session'.runAll host rounds (source' :: later') := by
  constructor
  · rintro ⟨_, last⟩ h
    obtain ⟨report, next, rest, hfirst, hrest, rfl⟩ := exists_runAll_cons_iff.1 h
    obtain ⟨⟨report', next'⟩, hfirst', hreport, hnext⟩ := hrun.forth _ hfirst
    obtain ⟨_, hfound⟩ := hfirst
    obtain ⟨_, hfound'⟩ := hfirst'
    have hothers := hlater (known_of_run hfound).1 (known_of_run hfound').1 hnext
    obtain ⟨⟨rest', last'⟩, hrest', hreports, hlast⟩ := hothers.forth _ hrest
    exact ⟨_, exists_runAll_cons_iff.2 ⟨_, _, _, ⟨_, hfound'⟩, hrest', rfl⟩,
      .cons hreport hreports, hlast⟩
  · rintro ⟨_, last'⟩ h
    obtain ⟨report', next', rest', hfirst', hrest', rfl⟩ := exists_runAll_cons_iff.1 h
    obtain ⟨⟨report, next⟩, hfirst, hreport, hnext⟩ := hrun.back _ hfirst'
    obtain ⟨_, hfound⟩ := hfirst
    obtain ⟨_, hfound'⟩ := hfirst'
    have hothers := hlater (known_of_run hfound).1 (known_of_run hfound').1 hnext
    obtain ⟨⟨rest, last⟩, hrest, hreports, hlast⟩ := hothers.back _ hrest'
    exact ⟨_, exists_runAll_cons_iff.2 ⟨_, _, _, ⟨_, hfound⟩, hrest, rfl⟩,
      .cons hreport hreports, hlast⟩

/-- Where sessions differ in words alone, texts that are run one after another come to the same but
for words. -/
theorem Recast.endsRelated_runAll (h : session.Recast w session') {sources : List String}
    (hroom : session.HasRoom sources) (hroom' : session'.HasRoom sources) (host : Host) :
    EndsRelated (RunAllsRelated (Report.SameBut w.faults) (Session.Recast w))
      (fun rounds => session.runAll host rounds sources)
      fun rounds => session'.runAll host rounds sources := by
  induction sources generalizing session session' with
  | nil => exact .of_some ⟨.nil, h⟩
  | cons source sources ih =>
    refine endsRelated_runAll_cons (h.endsRelated_run hroom.head hroom'.head host) ?_
    exact fun hnext hnext' hrecast => ih hrecast (hroom.tail hnext) (hroom'.tail hnext')

end Session

/-! ## Every session is related to itself -/

section Self

variable {r : Recasting}

theorem Store.Recast.install {flags : List Bool} {store store' : Store}
    (h : store.Recast r flags store') :
    (store.install Store.globals).Recast r flags (store'.install Store.globals) := by
  unfold Store.install
  induction Builtin.all generalizing store store' with
  | nil => exact h
  | cons builtin builtins ih =>
    have hfunction := h.newFunction (@Callable.Recast.builtin r flags builtin)
    exact ih (hfunction.2.define (.globals h.globals) nofun builtin.name hfunction.1)

theorem State.recast_initial : State.Recast r ⟨[false], [false]⟩ .initial .initial := by
  have hnone : ∀ frame name, Store.empty.find? frame name = none := by
    intro frame name
    cases frame <;> rfl
  have hempty : Store.Recast r [false] .empty .empty := by
    refine ⟨rfl, rfl, rfl, rfl, fun frame _ name => ?_, fun frame _ name => hnone frame name⟩
    rw [hnone, hnone]
    exact .none
  exact ⟨hempty.install, .globals hempty.install.globals, rfl, rfl, rfl⟩

/-- In a session that texts were run in, everything is worded as it is, as long as low bits are
enough. -/
theorem History.recast {host : Host} {config : Config} {past : List Run} {session : Session}
    (h : History host config past session) (hroom : session.nextId < UInt32.size)
    (w : Rewording) : session.Recast w session := by
  induction h with
  | start => exact ⟨rfl, Session.tidy_start _, Session.tidy_start _, [false], State.recast_initial⟩
  | @run past session session' source rounds report _ hrun ih =>
    have hbefore := Session.hasRoom_of_run hrun hroom
    obtain ⟨outcome, ⟨rounds', hrun'⟩, -, hnext⟩ :=
      ((ih hbefore.nextId_lt).endsRelated_run hbefore hbefore host).forth _ ⟨rounds, hrun⟩
    cases Session.run_unique hrun hrun'
    exact hnext

end Self

end Lox
