/-
# Sessions that behave alike

Two sessions are alike if their states are, where accesses stand for each other that have numbers in
use and the same depth. Running a text keeps them alike, and what it reports is the same but for
lines: the text is read to programs that differ in the numbers of their accesses alone, the resolver
accepts both or neither, and gives accesses that correspond the same depth
(`Session.Alike.rel_run`). This holds round by round, so what does not end in the one does not end
in the other either.

Each session that texts were run in is alike to itself (`History.alike_self`): whatever is in its
state carries numbers in use.
-/

import Lox.Proofs.Execution.Alike
import Lox.Proofs.Grammar.Alike
import Lox.Proofs.Session.Depths

namespace Lox

variable {ids : AccessId → AccessId → Prop} {lines : Nat → Nat → Prop} {before : String}

/-! ## Programs -/

/-- Two programs came to an end alike. -/
def OutcomesAlike (ids : AccessId → AccessId → Prop) (lines : Nat → Nat → Prop) (before : String)
    (outcome outcome' : Except Fault Unit × State) : Prop :=
  ResultAlike (Fault.Alike lines) Eq outcome.1 outcome'.1 ∧
    outcome.2.Alike ids lines before outcome'.2

/-- Programs that are alike do the same in states that are alike. -/
theorem Program.rel_execute {setting setting' : Setting} (hsetting : setting.Suits ids setting')
    (rounds : Nat) {program program' : List Stmt}
    (hprogram : Stmt.AllAlike ids lines program program')
    {state state' : State} (hstate : state.Alike ids lines before state') :
    Option.Rel (OutcomesAlike ids lines before) (execute setting rounds program state)
      (execute setting' rounds program' state') := by
  induction program generalizing program' state state' with
  | nil =>
    cases hprogram
    exact .some ⟨.ok rfl, hstate⟩
  | cons s ss ih =>
    cases hprogram with
    | @cons _ s' _ ss' h hs =>
      have hrun := Routine.Likeness.rel_run
        (fun code code' hcode => Code.similar_execute hsetting hcode) hstate
        (Code.Alike.statement h) rounds
      unfold execute
      generalize Routine.run (Code.execute setting) rounds (.statement s) state = outcome at hrun ⊢
      generalize Routine.run (Code.execute setting') rounds (.statement s') state' = outcome'
        at hrun ⊢
      cases hrun with
      | none => exact .none
      | some houtcome =>
        cases houtcome with
        | ok _ hreached => exact ih hs hreached
        | error hfault hreached => exact .some ⟨.error hfault, State.Alike.settle hreached⟩

/-! ## Reports -/

/-- Two runs failed for reasons that differ at most in lines. -/
inductive Failure.Alike (lines : Nat → Nat → Prop) : Failure → Failure → Prop
  | scan {errors : List ScanError} : Failure.Alike lines (.scan errors) (.scan errors)
  | parse {errors errors' : List ParseError}
      (h : List.Forall₂ (ParseError.Alike lines) errors errors') :
      Failure.Alike lines (.parse errors) (.parse errors')
  | resolve {errors errors' : List ResolveError}
      (h : List.Forall₂ (ResolveError.Alike lines) errors errors') :
      Failure.Alike lines (.resolve errors) (.resolve errors')
  | runtime {fault fault' : Fault} (h : fault.Alike lines fault') :
      Failure.Alike lines (.runtime fault) (.runtime fault')

/-- Two runs came to results that differ at most in lines, and printed the same. -/
structure Report.Alike (lines : Nat → Nat → Prop) (report report' : Report) : Prop where
  result : ResultAlike (Failure.Alike lines) Eq report.result report'.result
  output : report.output = report'.output

theorem ResolveError.Alike.eq {error error' : ResolveError} (h : error.Alike Eq error') :
    error = error' := by
  cases error
  cases error'
  cases h.token.eq
  cases h.problem
  rfl

theorem Failure.Alike.eq {failure failure' : Failure} (h : failure.Alike Eq failure') :
    failure = failure' := by
  cases h with
  | scan => rfl
  | parse h =>
    have herrors := h.imp fun _ _ => ParseError.Alike.eq
    rw [List.forall₂_eq_eq_eq] at herrors
    rw [herrors]
  | resolve h =>
    have herrors := h.imp fun _ _ => ResolveError.Alike.eq
    rw [List.forall₂_eq_eq_eq] at herrors
    rw [herrors]
  | runtime h => rw [h.eq]

/-- Whatever failures correspond, a run that corresponds to one that succeeded is that one. -/
theorem Report.eq_of_ok {failures : Failure → Failure → Prop} {report report' : Report}
    (hresult : ResultAlike failures Eq report.result report'.result)
    (houtput : report.output = report'.output) (hok : report.result = .ok ()) :
    report' = report := by
  obtain ⟨result, output⟩ := report
  obtain ⟨result', output'⟩ := report'
  cases hok
  cases houtput
  cases hresult
  rfl

/-- Where lines are the same, so are reports. -/
theorem Report.Alike.eq {report report' : Report} (h : report.Alike Eq report') :
    report = report' := by
  obtain ⟨result, output⟩ := report
  obtain ⟨result', output'⟩ := report'
  obtain ⟨hresult, rfl⟩ := h
  cases hresult with
  | ok _ => rfl
  | error hfailure => rw [hfailure.eq]

theorem Report.eq_of_rel {reports reports' : Option (List Report)}
    (h : Option.Rel (List.Forall₂ (Report.Alike Eq)) reports reports') : reports' = reports := by
  cases h with
  | none => rfl
  | some h =>
    have hreports := h.imp fun _ _ => Report.Alike.eq
    rw [List.forall₂_eq_eq_eq] at hreports
    rw [hreports]

/-! ## Sessions -/

namespace Session

/-- Two accesses with numbers in use have the same depth. -/
def SameDepth (session session' : Session) (id id' : AccessId) : Prop :=
  id < session.nextId ∧ id' < session'.nextId ∧ session.depths[id]? = session'.depths[id']?

/-- Depths are known only of accesses with numbers in use. -/
def Tidy (session : Session) : Prop := Informed [] session.nextId session.depths

/-- The accesses of a program have numbers in use, and if the resolver is used, their depths are
known. -/
def Knows (session : Session) (program : List Stmt) : Prop :=
  ∀ site ∈ Program.sites program, ∀ id, site.id? = some id → id < session.nextId ∧
    session.depths[id]? = if session.config.useResolver then site.depth? else none

/-- Two sessions with states that are alike, where the second has printed `before` in addition. -/
structure Alike (lines : Nat → Nat → Prop) (before : String) (session session' : Session) :
    Prop where
  config : session.config = session'.config
  tidy : session.Tidy
  tidy' : session'.Tidy
  state : session.state.Alike (session.SameDepth session') lines before session'.state

variable {host : Host} {session session' : Session} {source : String} {program program' : List Stmt}
  {depths : BindingDepths} {nextId : AccessId} {rounds : Nat}

/-! ## Programs that are ready to be executed -/

theorem tidy_start (config : Config) : (start config).Tidy := by
  refine ⟨fun program hprogram => ?_, fun id _ hid => ?_, fun program hprogram => ?_⟩
  · cases hprogram
  · exact absurd DepthTable.getElem?_empty hid
  · cases hprogram

theorem getElem?_eq_none_of_tidy (h : session.Tidy) {id : AccessId} (hid : session.nextId ≤ id)
    (hlt : id < UInt32.size) : session.depths[id]? = none := by
  by_contra hsome
  exact absurd (h.known id hlt hsome) (Nat.not_lt.2 hid)

/-- The depths of a program that is ready to be executed are new, and are those of its accesses. -/
theorem learn_of_prepare (htidy : session.Tidy)
    (h : session.prepare source = (.ok (program, depths), nextId))
    (hroom : nextId < UInt32.size) :
    Tidy { session.learn depths with nextId } ∧ Knows { session.learn depths with nextId } program ∧
      session.nextId ≤ nextId ∧ ∀ id < session.nextId,
        (session.learn depths).depths[id]? = session.depths[id]? := by
  obtain ⟨tokens, -, hprogram, hdepths⟩ := prepare_eq_ok_iff.1 h
  have hfresh := Program.fresh_of_ofTokens hprogram
  have hwf := Program.wellFormed_of_ofTokens hprogram
  have hids : ∀ site ∈ Program.sites program, ∀ id, site.id? = some id →
      id ∈ Stmt.allIds program := by
    intro site hsite id hid
    rw [← Program.ids_sites]
    exact List.mem_filterMap.2 ⟨site, hsite, hid⟩
  unfold Tidy Knows
  show Informed [] nextId (session.learn depths).depths ∧ _
  split at hdepths
  · rename_i hresolver
    have hinformed := Informed.learn htidy hfresh hroom hwf hdepths
    refine ⟨⟨fun program hprogram => ?_, hinformed.known, fun program hprogram => ?_⟩,
      fun site hsite id hid => ⟨(hfresh.bounds id (hids site hsite id hid)).2, ?_⟩, hfresh.le,
      fun id hid => ?_⟩
    · cases hprogram
    · cases hprogram
    · exact ((hinformed.sites program List.mem_cons_self site hsite).2 id hid).trans
        (if_pos hresolver).symm
    · have hold : id ∉ Stmt.allIds program :=
        fun hmem => absurd (hfresh.bounds id hmem).1 (Nat.not_le.2 hid)
      have hnew := (Program.sites_of_bindingDepths hwf hfresh hdepths).2
      have hlt := Nat.lt_trans (Nat.lt_of_lt_of_le hid hfresh.le) hroom
      refine (DepthTable.getElem?_learn (lt_size_of_fresh hfresh hroom hnew) hlt).trans ?_
      rw [hnew id hold, Option.none_or]
  · rename_i hresolver
    subst hdepths
    refine ⟨htidy.skip hfresh.le, fun site hsite id hid => ?_, hfresh.le, fun id _ => rfl⟩
    have hbounds := hfresh.bounds id (hids site hsite id hid)
    refine ⟨hbounds.2, ?_⟩
    show session.depths[id]? = _
    rw [getElem?_eq_none_of_tidy htidy hbounds.1 (Nat.lt_trans hbounds.2 hroom)]
    exact (if_neg hresolver).symm

/-- Two texts are prepared alike in any two sessions of one configuration. -/
def PreparesAlike (lines : Nat → Nat → Prop) (source source' : String) : Prop :=
  ∀ session session' : Session, session.config = session'.config →
    ResultAlike (Failure.Alike lines)
      (fun prepared prepared' => Stmt.AllAlike AnyIds lines prepared.1 prepared'.1)
      (session.prepare source).1 (session'.prepare source').1

/-- Two texts are read as programs with sites that are alike. So both are accepted, with the same
depths at the accesses of both, or both are rejected for the same reasons. -/
theorem resultAlike_prepare {source' : String} {tokens tokens' : List Token} {nextId' : AccessId}
    (hconfig : session.config = session'.config) (hscan : Token.scan source = .ok tokens)
    (hscan' : Token.scan source' = .ok tokens')
    (hprogram : Program.ofTokens tokens session.nextId = (.ok program, nextId))
    (hprogram' : Program.ofTokens tokens' session'.nextId = (.ok program', nextId'))
    (hsites : List.Forall₂ (Site.Alike ids lines) (Program.sites program)
      (Program.sites program')) :
    ResultAlike (Failure.Alike lines)
      (fun prepared prepared' => prepared.1 = program ∧ prepared'.1 = program' ∧
        List.Forall₂ (fun id id' => prepared.2[id]? = prepared'.2[id']?) (Stmt.allIds program)
          (Stmt.allIds program'))
      (session.prepare source).1 (session'.prepare source').1 := by
  have hdepths := Program.bindingDepths_alike hsites (Program.wellFormed_of_ofTokens hprogram)
    (Program.wellFormed_of_ofTokens hprogram') (Program.fresh_of_ofTokens hprogram)
    (Program.fresh_of_ofTokens hprogram')
  unfold prepare
  rw [hscan, hscan', ← hconfig]
  dsimp only
  rw [hprogram, hprogram']
  dsimp only
  split
  · generalize Program.bindingDepths program = result at hdepths ⊢
    generalize Program.bindingDepths program' = result' at hdepths ⊢
    cases hdepths with
    | ok hdepths => exact .ok ⟨rfl, rfl, hdepths⟩
    | error herrors => exact .error (.resolve herrors)
  · refine .ok ⟨rfl, rfl, ?_⟩
    rw [← Program.ids_sites program, ← Program.ids_sites program']
    refine List.rel_filterMap (fun site site' hsite => ?_) hsites
    have hempty : ∀ id : AccessId, (∅ : BindingDepths)[id]? = none :=
      fun id => Std.TreeMap.getElem?_emptyc
    cases hsite with
    | read | assign => exact .some ((hempty _).trans (hempty _).symm)
    | «return» => exact .none

theorem preparesAlike_of_scan {source' : String} {tokens tokens' : List Token}
    (hscan : Token.scan source = .ok tokens) (hscan' : Token.scan source' = .ok tokens')
    (h : List.Forall₂ (Token.Alike lines) tokens tokens') (hfirst : lines 1 1) :
    PreparesAlike lines source source' := by
  intro session session' hconfig
  have hread := Program.ofTokens_alike h hfirst session.nextId session'.nextId
  generalize hprogram : Program.ofTokens tokens session.nextId = read at hread
  generalize hprogram' : Program.ofTokens tokens' session'.nextId = read' at hread
  obtain ⟨result, next⟩ := read
  obtain ⟨result', next'⟩ := read'
  cases hread with
  | error herrors =>
    unfold prepare
    rw [hscan, hscan']
    dsimp only
    rw [hprogram, hprogram']
    exact .error (.parse herrors)
  | ok h =>
    have hprepared := resultAlike_prepare hconfig hscan hscan' hprogram hprogram' (h.sites .top)
    refine hprepared.mono (fun _ _ h => h) ?_
    rintro ⟨_, depths⟩ ⟨_, depths'⟩ ⟨rfl, rfl, -⟩
    exact h

/-- Which session it is does not matter for how a text is prepared. -/
theorem preparesAlike_self (hlines : ∀ line, lines line line) (source : String) :
    PreparesAlike lines source source := by
  cases hscan : Token.scan source with
  | error errors =>
    intro session session' _
    unfold prepare
    rw [hscan]
    exact .error .scan
  | ok tokens =>
    have htokens : List.Forall₂ (Token.Alike lines) tokens tokens :=
      List.forall₂_same.2 fun token _ => .refl (hlines token.line)
    exact preparesAlike_of_scan hscan hscan htokens (hlines 1)

/-- In two sessions that know the depths of two programs, accesses that correspond have the same
depth. -/
theorem alike_of_knows (hconfig : session.config = session'.config)
    (h : Stmt.AllAlike AnyIds lines program program') (hknows : session.Knows program)
    (hknows' : session'.Knows program') :
    Stmt.AllAlike (session.SameDepth session') lines program program' := by
  apply h.refine
  apply Site.forall₂_alike_of_depths (h.sites .top)
  intro site hsite site' hsite' id id' hid hid' hdepth
  obtain ⟨hlt, hget⟩ := hknows site hsite id hid
  obtain ⟨hlt', hget'⟩ := hknows' site' hsite' id' hid'
  refine ⟨hlt, hlt', ?_⟩
  rw [hget, hget', hconfig, hdepth]

/-! ## Running a text -/

/-- Running a text that is accepted is to execute its program. -/
theorem run_of_prepare (host : Host) (rounds : Nat)
    (h : session.prepare source = (.ok (program, depths), nextId)) :
    session.run host rounds source =
      (Program.execute ⟨session.config, (session.learn depths).depths, host⟩ rounds program
        session.state).map fun outcome =>
          (⟨outcome.1.mapError .runtime, outcome.2.output⟩,
            ⟨session.config, nextId, (session.learn depths).depths,
              { outcome.2 with output := "" }⟩) := by
  unfold run execute learn
  rw [h]
  dsimp only
  cases Program.execute ⟨session.config, session.depths.learn depths, host⟩ rounds program
    session.state <;> rfl

/-- A run in one session came to the same as the execution of a program in another session, which
had printed `before` already. -/
structure ComesTo (lines : Nat → Nat → Prop) (before : String) (session' : Session)
    (separate : Report × Session) (outcome : Except Fault Unit × State) : Prop where
  result : ResultAlike (Failure.Alike lines) Eq separate.1.result (outcome.1.mapError .runtime)
  output : outcome.2.output = before ++ separate.1.output
  drained : separate.2.state.output = ""
  alike : separate.2.Alike lines outcome.2.output { session' with state := outcome.2 }

namespace Alike

variable (h : session.Alike lines before session')
include h

/-- Sessions stay alike when they get to know more depths of new accesses. -/
theorem extend {next next' : Session} (hconfig : next.config = session.config)
    (hconfig' : next'.config = session'.config) (htidy : next.Tidy) (htidy' : next'.Tidy)
    (hstate : next.state = session.state) (hstate' : next'.state = session'.state)
    (hle : session.nextId ≤ next.nextId) (hle' : session'.nextId ≤ next'.nextId)
    (hdepths : ∀ id < session.nextId, next.depths[id]? = session.depths[id]?)
    (hdepths' : ∀ id < session'.nextId, next'.depths[id]? = session'.depths[id]?) :
    next.Alike lines before next' := by
  refine ⟨hconfig.trans (h.config.trans hconfig'.symm), htidy, htidy', ?_⟩
  rw [hstate, hstate']
  apply h.state.mono
  rintro id id' ⟨hid, hid', hsame⟩
  refine ⟨Nat.lt_of_lt_of_le hid hle, Nat.lt_of_lt_of_le hid' hle', ?_⟩
  rw [hdepths id hid, hdepths' id' hid', hsame]

/-- What has been printed can be taken away. -/
theorem drain (houtput : session.state.output = "") :
    session.Alike lines "" { session' with state := { session'.state with output := "" } } :=
  ⟨h.config, h.tidy, h.tidy', h.state.store, h.state.environment, h.state.callDepth,
    h.state.clockReadings, String.empty_append.trans houtput |>.symm⟩

/-- A text is run in one session as its program is executed in another session that knows the
program already. -/
theorem rel_execute (host : Host) (rounds : Nat)
    (hprepare : session.prepare source = (.ok (program, depths), nextId))
    (hroom : nextId < UInt32.size) (hprogram : Stmt.AllAlike AnyIds lines program program')
    (hknows' : session'.Knows program') :
    Option.Rel (ComesTo lines before session') (session.run host rounds source)
      (Program.execute ⟨session'.config, session'.depths, host⟩ rounds program'
        session'.state) := by
  obtain ⟨htidy, hknows, hle, hold⟩ := learn_of_prepare h.tidy hprepare hroom
  have hready : Alike lines before { session.learn depths with nextId } session' :=
    h.extend rfl rfl htidy h.tidy' rfl rfl hle (Nat.le_refl _) hold fun _ _ => rfl
  have hsame := alike_of_knows hready.config hprogram hknows hknows'
  have hsetting : Setting.Suits (SameDepth { session.learn depths with nextId } session')
      ⟨session.config, (session.learn depths).depths, host⟩
      ⟨session'.config, session'.depths, host⟩ := ⟨h.config, rfl, fun _ _ hid => hid.2.2⟩
  have hrel := Program.rel_execute hsetting rounds hsame hready.state
  rw [run_of_prepare host rounds hprepare]
  have hstate : Session.state { session.learn depths with nextId } = session.state := rfl
  rw [hstate] at hrel
  generalize Program.execute ⟨session.config, (session.learn depths).depths, host⟩ rounds program
    session.state = outcome at hrel ⊢
  generalize Program.execute ⟨session'.config, session'.depths, host⟩ rounds program'
    session'.state = outcome' at hrel ⊢
  cases hrel with
  | none => exact .none
  | @some outcome outcome' houtcome =>
    obtain ⟨result, reached⟩ := outcome
    obtain ⟨result', reached'⟩ := outcome'
    obtain ⟨hresult, hreached⟩ := houtcome
    refine .some ⟨?_, hreached.output, rfl, h.config, htidy, h.tidy', hreached.store,
      hreached.environment, hreached.callDepth, hreached.clockReadings, String.append_empty.symm⟩
    cases hresult with
    | ok _ => exact .ok rfl
    | error hfault => exact .error (.runtime hfault)

end Alike

/-! ## Texts run one after another -/

section

variable {reports : Report → Report → Prop} {sessions : Session → Session → Prop}

/-- Two runs came to reports that are related, and so are the sessions then. -/
def RunsRelated (reports : Report → Report → Prop) (sessions : Session → Session → Prop)
    (outcome outcome' : Report × Session) : Prop :=
  reports outcome.1 outcome'.1 ∧ sessions outcome.2 outcome'.2

/-- The same of texts that were run one after another, report by report. -/
def RunAllsRelated (reports : Report → Report → Prop) (sessions : Session → Session → Prop)
    (outcome outcome' : List Report × Session) : Prop :=
  List.Forall₂ reports outcome.1 outcome'.1 ∧ sessions outcome.2 outcome'.2

theorem rel_runAll_cons {host : Host} {rounds : Nat} {source source' : String}
    {later later' : List String}
    (hrun : Option.Rel (RunsRelated reports sessions) (session.run host rounds source)
      (session'.run host rounds source'))
    (hlater : ∀ {next next' : Session}, next.nextId = (session.prepare source).2 →
      next'.nextId = (session'.prepare source').2 → sessions next next' →
      Option.Rel (RunAllsRelated reports sessions) (next.runAll host rounds later)
        (next'.runAll host rounds later')) :
    Option.Rel (RunAllsRelated reports sessions) (session.runAll host rounds (source :: later))
      (session'.runAll host rounds (source' :: later')) := by
  unfold runAll
  generalize hfirst : session.run host rounds source = outcome at hrun ⊢
  generalize hfirst' : session'.run host rounds source' = outcome' at hrun ⊢
  cases hrun with
  | none => exact .none
  | @some outcome outcome' houtcome =>
    obtain ⟨report, next⟩ := outcome
    obtain ⟨report', next'⟩ := outcome'
    obtain ⟨hreport, hnext⟩ := houtcome
    have hrest := hlater (known_of_run hfirst).1 (known_of_run hfirst').1 hnext
    dsimp only
    generalize next.runAll host rounds later = rest at hrest ⊢
    generalize next'.runAll host rounds later' = rest' at hrest ⊢
    cases hrest with
    | none => exact .none
    | some hrest => exact .some ⟨.cons hreport hrest.1, hrest.2⟩

theorem rel_reports {outcome outcome' : Option (List Report × Session)}
    (h : Option.Rel (RunAllsRelated reports sessions) outcome outcome') :
    Option.Rel (List.Forall₂ reports) (outcome.map Prod.fst) (outcome'.map Prod.fst) := by
  cases h with
  | none => exact .none
  | some houtcome => exact .some houtcome.1

end

/-! ## Sessions that are alike -/

/-- Sessions that are alike behave alike: whatever text is run in both, it comes to an end in both
or in neither, the reports differ at most in lines, and the sessions stay alike. -/
theorem Alike.rel_run (h : session.Alike lines "" session') {source' : String}
    (hsource : PreparesAlike lines source source') (hroom : session.HasRoom [source])
    (hroom' : session'.HasRoom [source']) (host : Host) (rounds : Nat) :
    Option.Rel (RunsRelated (Report.Alike lines) (Session.Alike lines ""))
      (session.run host rounds source) (session'.run host rounds source') := by
  have halike := hsource session session' h.config
  have hlt := hroom.prepare_lt
  have hlt' := hroom'.prepare_lt
  generalize hprepare : session.prepare source = prepared at halike hlt
  generalize hprepare' : session'.prepare source' = prepared' at halike hlt'
  obtain ⟨result, nextId⟩ := prepared
  obtain ⟨result', nextId'⟩ := prepared'
  cases halike with
  | error hfailure =>
    have hle := session.le_nextId_prepare source
    have hle' := session'.le_nextId_prepare source'
    rw [hprepare] at hle
    rw [hprepare'] at hle'
    unfold run
    rw [hprepare, hprepare']
    refine .some ⟨⟨.error hfailure, rfl⟩, ?_⟩
    exact h.extend rfl rfl (h.tidy.skip hle) (h.tidy'.skip hle') rfl rfl hle hle'
      (fun _ _ => rfl) fun _ _ => rfl
  | @ok prepared prepared' hprogram =>
    obtain ⟨program, depths⟩ := prepared
    obtain ⟨program', depths'⟩ := prepared'
    obtain ⟨htidy', hknows', hle', hold'⟩ := learn_of_prepare h.tidy' hprepare' hlt'
    have hready : session.Alike lines "" { session'.learn depths' with nextId := nextId' } :=
      h.extend rfl rfl h.tidy htidy' rfl rfl (Nat.le_refl _) hle' (fun _ _ => rfl) hold'
    have hrel : Option.Rel
        (ComesTo lines "" { session'.learn depths' with nextId := nextId' })
        (session.run host rounds source)
        (Program.execute ⟨session'.config, (session'.learn depths').depths, host⟩ rounds program'
          session'.state) := hready.rel_execute host rounds hprepare hlt hprogram hknows'
    rw [run_of_prepare host rounds hprepare']
    generalize session.run host rounds source = outcome at hrel ⊢
    generalize Program.execute ⟨session'.config, (session'.learn depths').depths, host⟩ rounds
      program' session'.state = outcome' at hrel ⊢
    cases hrel with
    | none => exact .none
    | some hcomes =>
      refine .some ⟨⟨hcomes.result, ?_⟩, hcomes.alike.drain hcomes.drained⟩
      exact (hcomes.output.trans String.empty_append).symm

/-- The same holds of any texts that are run one after another. -/
theorem Alike.rel_runAll (h : session.Alike lines "" session') {sources sources' : List String}
    (hsources : List.Forall₂ (PreparesAlike lines) sources sources')
    (hroom : session.HasRoom sources) (hroom' : session'.HasRoom sources') (host : Host)
    (rounds : Nat) :
    Option.Rel (RunAllsRelated (Report.Alike lines) (Session.Alike lines ""))
      (session.runAll host rounds sources) (session'.runAll host rounds sources') := by
  induction hsources generalizing session session' with
  | nil => exact .some ⟨.nil, h⟩
  | cons hsource _ ih =>
    refine rel_runAll_cons (h.rel_run hsource hroom.head hroom'.head host rounds) ?_
    exact fun hnext hnext' halike => ih halike (hroom.tail hnext) (hroom'.tail hnext')

/-- So whatever texts are run one after another, the reports differ at most in lines. -/
theorem Alike.rel_reports (h : session.Alike lines "" session')
    (hlines : ∀ line, lines line line) {sources : List String} (hroom : session.HasRoom sources)
    (hroom' : session'.HasRoom sources) (host : Host) (rounds : Nat) :
    Option.Rel (List.Forall₂ (Report.Alike lines))
      ((session.runAll host rounds sources).map Prod.fst)
      ((session'.runAll host rounds sources).map Prod.fst) := by
  have hsources : List.Forall₂ (PreparesAlike lines) sources sources :=
    List.forall₂_same.2 fun source _ => preparesAlike_self hlines source
  exact Session.rel_reports (h.rel_runAll hsources hroom hroom' host rounds)

/-- Where lines are the same, sessions that are alike report the same about whatever texts are run
one after another. -/
theorem Alike.reports_eq (h : session.Alike Eq "" session') {sources : List String}
    (hroom : session.HasRoom sources) (hroom' : session'.HasRoom sources) (host : Host)
    (rounds : Nat) :
    (session'.runAll host rounds sources).map Prod.fst =
      (session.runAll host rounds sources).map Prod.fst :=
  Report.eq_of_rel (h.rel_reports (fun _ => rfl) hroom hroom' host rounds)

end Session

/-! ## Every session is alike to itself -/

theorem Store.Alike.install {store store' : Store} (h : store.Alike ids lines store')
    (environment : Environment) :
    (store.install environment).Alike ids lines (store'.install environment) := by
  unfold Store.install
  induction Builtin.all generalizing store store' with
  | nil => exact h
  | cons builtin builtins ih =>
    have hfunction := h.newFunction (@Callable.Alike.builtin ids lines builtin)
    exact ih (hfunction.2.define environment builtin.name hfunction.1)

theorem State.alike_initial : State.Alike ids lines "" .initial .initial := by
  have hempty : Store.Alike ids lines .empty .empty := by
    refine ⟨rfl, rfl, fun frame name => ?_⟩
    have hnone : Store.empty.find? frame name = none := by
      cases frame <;> rfl
    rw [hnone]
    exact .none
  exact ⟨hempty.install Store.globals, rfl, rfl, rfl, rfl⟩

/-- A session that texts were run in is alike to itself, as long as low bits are enough. -/
theorem History.alike_self {host : Host} {config : Config} {past : List Run} {session : Session}
    (h : History host config past session) (hroom : session.nextId < UInt32.size)
    (hlines : ∀ line, lines line line) : session.Alike lines "" session := by
  induction h with
  | start =>
    exact ⟨rfl, Session.tidy_start _, Session.tidy_start _, State.alike_initial⟩
  | @run past session session' source rounds report _ hrun ih =>
    have hbefore := Session.hasRoom_of_run hrun hroom
    have hrel := (ih hbefore.nextId_lt).rel_run (Session.preparesAlike_self hlines source) hbefore
      hbefore host rounds
    rw [hrun] at hrel
    cases hrel with
    | some houtcome => exact houtcome.2

end Lox
