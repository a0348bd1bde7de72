/-
# With and without the resolver

Whether variables are found by depth or by name makes no difference for admissible texts. At each
access of such a text both ways lead to the same variable (`Place.Corresponds.lookup_eq`), and all
else that is executed takes no notice of how variables are found. So whatever a run comes to ends
alike (`Run.AgreesWith.ends`). Two sessions that run the same admissible texts are then in the same
state after each of them, and report the same (`Session.runAll_resolver_iff`), as long as low bits
are enough to tell accesses apart (`Session.runAll_resolver_differs_without_room`).
-/

import Lox.Proofs.Session.Admissible
import Lox.Proofs.Session.Lookup
import Lox.Proofs.Session.Spending

namespace Lox

/-! ## What does not look up variables -/

/-- Two settings differ at most in how variables are found. -/
structure Setting.Alike (setting setting' : Setting) : Prop where
  /-- As many calls can be under way at once. -/
  maxCallDepth : setting'.config.maxCallDepth = setting.config.maxCallDepth
  /-- Commands to the host are obeyed in both or in none. -/
  allowHost : setting'.config.allowHost = setting.config.allowHost
  /-- The machine is the same. -/
  host : setting'.host = setting.host

/-- Code that is no access itself is executed in the same way. -/
theorem Code.execute_eq {setting setting' : Setting} (h : setting.Alike setting') (code : Code)
    (hread : ∀ id name, code ≠ .expression (.read id name))
    (hassign : ∀ id name e, code ≠ .expression (.assign id name e)) :
    execute setting' code = execute setting code := by
  obtain ⟨⟨useResolver, maxCallDepth, allowHost⟩, depths, host⟩ := setting
  obtain ⟨⟨useResolver', maxCallDepth', allowHost'⟩, depths', host'⟩ := setting'
  obtain ⟨hdepth, hallow, hhost⟩ := h
  cases hdepth
  cases hallow
  cases hhost
  cases code with
  | expression e =>
    cases e with
    | read id name => exact absurd rfl (hread id name)
    | assign id name e => exact absurd rfl (hassign id name e)
    | _ => rfl
  | arguments es => cases es <;> rfl
  | statement s => rfl
  | body ss => cases ss <;> rfl

namespace Run

/-- In another setting, all accesses that a run comes to lead to the same variables, and all else is
the same. -/
structure AgreesWith (run : Run) (setting' : Setting) : Prop where
  /-- The settings are alike. -/
  alike : run.setting.Alike setting'
  /-- Variables are read alike. -/
  read : ∀ id name state, run.Comes (.expression (.read id name), state) →
    state.lookup run.setting id name = state.lookup setting' id name
  /-- Variables are assigned alike. -/
  assign : ∀ id name e state value reached,
    run.Comes (.expression (.assign id name e), state) →
    run.Answers (.expression e) state (.ok value, reached) →
    reached.lookup run.setting id name = reached.lookup setting' id name

namespace AgreesWith

variable {run : Run} {setting' : Setting} (h : run.AgreesWith setting')
include h

/-- What a run comes to ends alike in the other setting, if whatever it comes to in turn does. -/
theorem ensures {code : Code} {state : State} (hcomes : run.Comes (code, state)) :
    Routine.Ensures (fun _ => True)
      (fun made outcome =>
        Routine.Ends (Code.execute setting') (Code.execute setting' made.1) made.2 outcome ∧
          run.Answers made.1 made.2 outcome)
      (Code.execute run.setting code) state
      (Routine.Ends (Code.execute setting') (Code.execute setting' code) state) := by
  by_cases hread : ∃ id name, code = .expression (.read id name)
  · obtain ⟨id, name, rfl⟩ := hread
    have hget : State.get run.setting id name state = State.get setting' id name state := by
      unfold State.get
      rw [h.read id name state hcomes]
    exact Routine.ends_step.2 hget
  · by_cases hassign : ∃ id name e, code = .expression (.assign id name e)
    · obtain ⟨id, name, e, rfl⟩ := hassign
      apply Routine.Ensures.call_bind
      · trivial
      · intro fault reached hvalue
        exact (Routine.ends_call.2 hvalue.1).bind_error
      · intro value reached hvalue
        have hset : State.assign run.setting id name value reached =
            State.assign setting' id name value reached := by
          unfold State.assign
          rw [h.assign id name e state value reached hcomes hvalue.2]
        exact (Routine.ends_call.2 hvalue.1).bind (Routine.ends_step.2 hset)
    · have heq := Code.execute_eq h.alike code (fun id name hcode => hread ⟨id, name, hcode⟩)
        fun id name e hcode => hassign ⟨id, name, e, hcode⟩
      rw [heq]
      exact CallTree.ensures_ends _ fun made outcome hmade => hmade.1

/-- A run ends alike in the other setting. -/
theorem ends {result : Except Fault Unit} {reached : State} (hends : run.Ends result reached) :
    Routine.Ends (Code.execute setting') (Program.steps run.program) run.state
      (result, reached) := by
  let spec : (made : Code × State) → Outcome State Fault made.1.Result → Prop := fun made =>
    Routine.Ends (Code.execute setting') (Code.execute setting' made.1) made.2
  have hbody : ∀ made : Code × State, run.Comes made →
      Routine.Ensures (fun _ => True)
        (fun made outcome => spec made outcome ∧ run.Answers made.1 made.2 outcome)
        (Code.execute run.setting made.1) made.2 (spec made) := fun made hcomes => h.ensures hcomes
  exact CallTree.Ends.of_comes hbody (CallTree.ensures_ends _ fun made outcome hmade => hmade.1)
    hends

end AgreesWith

end Run

/-! ## Sessions that run the same texts -/

/-- A clear access is to the variable that is found by name. -/
theorem History.lookup_eq {host : Host} {config : Config} {past : List Run} {session : Session}
    {source : String} {run : Run} {program : List Stmt} {place : Place} {id : AccessId}
    {name : Token} {state : State} (h : History host config past session)
    (hroom : session.HasRoom [source]) (hbegin : session.begin? host source = some run)
    (hprogram : program ∈ (run :: past).map Run.program)
    (hclear : ∀ site ∈ Program.sites program, site.Clear)
    (hsite : .read place id name ∈ Program.sites program ∨
      .assign place id name ∈ Program.sites program) (hcorresponds : place.Corresponds state) :
    state.lookup run.setting id name = state.store.lookup state.environment name := by
  have hdepth : run.setting.config.useResolver = true →
      run.setting.depths[id]? = place.depthOf? name.lexeme := by
    intro hresolver
    rw [(h.setting_eq hbegin).1] at hresolver
    have hinformed := h.informed_of_begin? hresolver hroom hbegin
    rcases hsite with hsite | hsite
    · exact (hinformed.sites program hprogram _ hsite).2 id rfl
    · exact (hinformed.sites program hprogram _ hsite).2 id rfl
  have hplace : ¬ place.Awaits name.lexeme ∧
      place.depthOf? name.lexeme = place.owner? name.lexeme := by
    rcases hsite with hsite | hsite
    · exact hclear _ hsite
    · exact hclear _ hsite
  exact hcorresponds.lookup_eq hdepth hplace.1 hplace.2

/-- Two sessions have run the same programs, all of them without an access that the ways of finding
variables tell apart, and are in the same state. -/
structure Twins (host : Host) (config config' : Config) (past past' : List Run)
    (session session' : Session) : Prop where
  /-- The one session has its past. -/
  history : History host config past session
  /-- So has the other. -/
  history' : History host config' past' session'
  /-- As many calls can be under way at once. -/
  maxCallDepth : config'.maxCallDepth = config.maxCallDepth
  /-- Commands to the host are obeyed in both or in none. -/
  allowHost : config'.allowHost = config.allowHost
  /-- The programs are the same. -/
  programs : past'.map Run.program = past.map Run.program
  /-- At each access both ways lead to the same variable. -/
  clear : ∀ program ∈ past.map Run.program, ∀ site ∈ Program.sites program, site.Clear
  /-- The same number is the next. -/
  nextId : session'.nextId = session.nextId
  /-- The state is the same. -/
  state : session'.state = session.state

namespace Twins

variable {host : Host} {config config' : Config} {past past' : List Run}
  {session session' : Session} {source : String} {run run' : Run}

theorem symm (h : Twins host config config' past past' session session') :
    Twins host config' config past' past session' session :=
  ⟨h.history', h.history, h.maxCallDepth.symm, h.allowHost.symm, h.programs.symm,
    h.programs ▸ h.clear, h.nextId.symm, h.state.symm⟩

theorem start (host : Host) {config config' : Config}
    (hdepth : config'.maxCallDepth = config.maxCallDepth)
    (hhost : config'.allowHost = config.allowHost) :
    Twins host config config' [] [] (.start config) (.start config') :=
  ⟨.start, .start, hdepth, hhost, rfl, fun _ hprogram => absurd hprogram List.not_mem_nil, rfl, rfl⟩

/-- Runs of the same program in the two sessions agree. -/
theorem agreesWith (h : Twins host config config' past past' session session')
    (hroom : session.HasRoom [source])
    (hbegin : session.begin? host source = some run)
    (hbegin' : session'.begin? host source = some run') (hprogram : run'.program = run.program)
    (hclear : ∀ site ∈ Program.sites run.program, site.Clear) : run.AgreesWith run'.setting := by
  have hbegun := h.history.begun hbegin
  have hroom' : session'.HasRoom [source] := hroom.of_le (Nat.le_of_eq h.nextId)
  have hprograms : (run' :: past').map Run.program = (run :: past).map Run.program :=
    congrArg₂ List.cons hprogram h.programs
  have hclearAll : ∀ program ∈ (run :: past).map Run.program, ∀ site ∈ Program.sites program,
      site.Clear := by
    intro program hmem
    rcases List.mem_cons.1 hmem with rfl | hmem
    · exact hclear
    · exact h.clear program hmem
  have hlookup : ∀ {program : List Stmt} {place : Place} {id : AccessId} {name : Token}
      {state : State}, program ∈ (run :: past).map Run.program →
      (.read place id name ∈ Program.sites program ∨
        .assign place id name ∈ Program.sites program) → place.Corresponds state →
      state.lookup run.setting id name = state.lookup run'.setting id name := by
    intro program place id name state hmem hsite hcorresponds
    have hclear := hclearAll program hmem
    rw [h.history.lookup_eq hroom hbegin hmem hclear hsite hcorresponds,
      h.history'.lookup_eq hroom' hbegin' (hprograms ▸ hmem) hclear hsite hcorresponds]
  obtain ⟨hconfig, hhost⟩ := h.history.setting_eq hbegin
  obtain ⟨hconfig', hhost'⟩ := h.history'.setting_eq hbegin'
  constructor
  · constructor
    · rw [hconfig, hconfig', h.maxCallDepth]
    · rw [hconfig, hconfig', h.allowHost]
    · rw [hhost, hhost']
  · intro id name state hcomes
    obtain ⟨⟨place, hmoment⟩, -⟩ := hbegun.starts hcomes
    obtain ⟨origin, horigin, hlies⟩ := hmoment.lies
    exact hlookup (List.mem_map_of_mem horigin)
      (.inl (hlies.sites_subset (List.mem_singleton.2 rfl))) (hbegun.corresponds_start hmoment)
  · intro id name e state value reached hcomes hvalue
    obtain ⟨⟨place, hmoment⟩, -⟩ := hbegun.starts hcomes
    obtain ⟨origin, horigin, hlies⟩ := hmoment.lies
    have hpart := hmoment.part .call .assigned
    exact hlookup (List.mem_map_of_mem horigin)
      (.inr (hlies.sites_subset (List.mem_append_right _ (List.mem_singleton.2 rfl))))
      (hbegun.corresponds_end hpart hvalue)

/-- When an admissible text has been run in one of the two sessions, it can be run in the other,
with the same report, and they stay alike. -/
theorem step (h : Twins host config config' past past' session session')
    (hsource : Admissible source) (hroom : session.HasRoom [source]) {rounds : Nat}
    {report : Report} {next : Session}
    (hrun : session.run host rounds source = some (report, next)) :
    ∃ rounds' pastNext pastNext' next', session'.run host rounds' source = some (report, next') ∧
      Twins host config config' pastNext pastNext' next next' := by
  obtain ⟨program, nextId, hclear, hbegins⟩ := hsource.begins session.nextId
  obtain ⟨hnextId, run, hbegin, rfl⟩ := hbegins host session rfl
  obtain ⟨hnextId', run', hbegin', hprogram⟩ := hbegins host session' h.nextId
  have hstate : run'.state = run.state := by
    rw [(Session.wellFormed_of_begin? hbegin).1, (Session.wellFormed_of_begin? hbegin').1, h.state]
  rcases Session.exists_run_iff.1 ⟨rounds, hrun⟩ with ⟨failure, hfailure, -, -⟩ |
    ⟨run₁, result, reached, hbegin₁, hends, rfl, rfl⟩
  · cases hbegin.symm.trans (Session.begin?_eq_none hfailure)
  · cases hbegin.symm.trans hbegin₁
    have hends' : run'.Ends result reached := by
      have hends := (h.agreesWith hroom hbegin hbegin' hprogram hclear).ends hends
      rw [← hprogram, ← hstate] at hends
      exact hends
    obtain ⟨rounds', hrun'⟩ := Session.exists_run_iff.2
      (.inr ⟨run', result, reached, hbegin', hends', rfl, rfl⟩)
    have hhistory := h.history.run hrun
    have hhistory' := h.history'.run hrun'
    rw [hbegin] at hhistory
    rw [hbegin'] at hhistory'
    refine ⟨rounds', _, _, _, hrun', hhistory, hhistory', h.maxCallDepth, h.allowHost, ?_, ?_, ?_,
      rfl⟩
    · exact congrArg₂ List.cons hprogram h.programs
    · intro program hmem
      rcases List.mem_cons.1 hmem with rfl | hmem
      · exact hclear
      · exact h.clear program hmem
    · exact hnextId'.trans hnextId.symm

/-- When admissible texts have been run in one of the two sessions, they can be run in the other,
with the same reports. -/
theorem runAll (h : Twins host config config' past past' session session') {sources : List String}
    (hsources : ∀ source ∈ sources, Admissible source) (hroom : session.HasRoom sources)
    {rounds : Nat} {reports : List Report} {last : Session}
    (hrun : session.runAll host rounds sources = some (reports, last)) :
    ∃ rounds' last', session'.runAll host rounds' sources = some (reports, last') := by
  induction sources generalizing past past' session session' reports with
  | nil =>
    cases hrun
    exact ⟨0, session', rfl⟩
  | cons source sources ih =>
    unfold Session.runAll at hrun
    split at hrun
    · cases hrun
    · rename_i report next hfirst
      split at hrun
      · cases hrun
      · rename_i rest last hrest
        cases hrun
        obtain ⟨rounds₁, _, _, next', hfirst', hnext⟩ :=
          h.step (hsources source List.mem_cons_self) hroom.head hfirst
        have hrestRoom := hroom.tail (Session.known_of_run hfirst).1
        obtain ⟨rounds₂, last', hrest'⟩ :=
          ih hnext (fun source hsource => hsources source (List.mem_cons_of_mem _ hsource))
            hrestRoom hrest
        refine ⟨max rounds₁ rounds₂, last', ?_⟩
        unfold Session.runAll
        rw [Session.run_mono (Nat.le_max_left _ _) hfirst']
        dsimp only
        rw [Session.runAll_mono (Nat.le_max_right _ _) hrest']

end Twins

/-! ## Reports -/

/-- A run has come to a report by execution: it has succeeded, or it was stopped by a fault. -/
def Report.Executed (report : Report) : Prop :=
  report.result = .ok () ∨ ∃ fault, report.result = .error (.runtime fault)

/-- An admissible text is executed. -/
theorem Admissible.executed {host : Host} {session next : Session} {source : String} {rounds : Nat}
    {report : Report} (h : Admissible source)
    (hrun : session.run host rounds source = some (report, next)) : report.Executed := by
  obtain ⟨program, nextId, -, hbegins⟩ := h.begins session.nextId
  obtain ⟨-, run, hbegin, -⟩ := hbegins host session rfl
  rcases Session.exists_run_iff.1 ⟨rounds, hrun⟩ with ⟨failure, hfailure, -, -⟩ |
    ⟨run₁, result, reached, -, -, rfl, -⟩
  · cases hbegin.symm.trans (Session.begin?_eq_none hfailure)
  · cases result with
    | ok _ => exact .inl rfl
    | error fault => exact .inr ⟨fault, rfl⟩

theorem Session.executed_of_runAll {host : Host} {session last : Session} {sources : List String}
    {rounds : Nat} {reports : List Report} (h : ∀ source ∈ sources, Admissible source)
    (hrun : session.runAll host rounds sources = some (reports, last)) :
    ∀ report ∈ reports, report.Executed := by
  induction sources generalizing session reports with
  | nil =>
    cases hrun
    exact fun report hreport => absurd hreport List.not_mem_nil
  | cons source sources ih =>
    unfold runAll at hrun
    split at hrun
    · cases hrun
    · rename_i first next hfirst
      split at hrun
      · cases hrun
      · rename_i rest last hrest
        cases hrun
        intro report hreport
        rcases List.mem_cons.1 hreport with rfl | hreport
        · exact (h source List.mem_cons_self).executed hfirst
        · exact ih (fun source hsource => h source (List.mem_cons_of_mem _ hsource)) hrest report
            hreport

/-- Sessions that differ only in whether they use the resolver agree on admissible texts, as long as
low bits are enough for the numbers of all accesses: as far as the texts come to an end in one
session, they do in the other, with the same reports, and each has been executed. -/
theorem Session.runAll_resolver_iff (host : Host) (config : Config) {sources : List String}
    (h : ∀ source ∈ sources, Admissible source) (hroom : (start config).HasRoom sources)
    (reports : List Report) :
    ((∃ rounds last, (start { config with useResolver := true }).runAll host rounds sources =
          some (reports, last)) ↔
        ∃ rounds last, (start { config with useResolver := false }).runAll host rounds sources =
          some (reports, last)) ∧
      ∀ rounds last, (start { config with useResolver := true }).runAll host rounds sources =
        some (reports, last) → ∀ report ∈ reports, report.Executed := by
  have htwins : Twins host { config with useResolver := true } { config with useResolver := false }
      [] [] (start { config with useResolver := true })
      (start { config with useResolver := false }) := .start host rfl rfl
  constructor
  · constructor
    · rintro ⟨rounds, last, hrun⟩
      exact htwins.runAll h hroom hrun
    · rintro ⟨rounds, last, hrun⟩
      exact htwins.symm.runAll h hroom hrun
  · intro rounds last hrun
    exact executed_of_runAll h hrun

/-- A variable that a function has kept since an earlier text is assigned and read alike. -/
theorem Session.runAll_resolver_across_texts :
    Admissible "fun make() { var x; fun set() { x = true; return x; } return set; }" ∧
      Admissible "print make()();" ∧
        ∃ rounds last, (start .default).runAll ⟨fun _ => .unset, fun _ => 0⟩ rounds
          ["fun make() { var x; fun set() { x = true; return x; } return set; }",
            "print make()();"] = some ([⟨.ok (), ""⟩, ⟨.ok (), "true\n"⟩], last) := by
  have hfirst :
      Admissible "fun make() { var x; fun set() { x = true; return x; } return set; }" :=
    ⟨_, _, _, _, rfl, rfl, rfl, by decide⟩
  have hsecond : Admissible "print make()();" := ⟨_, _, _, _, rfl, rfl, rfl, by decide⟩
  have hsources := List.forall_mem_cons.2 ⟨hfirst, List.forall_mem_singleton.2 hsecond⟩
  exact ⟨hfirst, hsecond, (runAll_resolver_iff _ .default hsources (by decide) _).1.2 ⟨100, _, rfl⟩⟩

/-- Where low bits are not enough, they may differ. The number of the access in the block has the
low bits of that in the function, which a later text calls: there the variable is looked for in the
wrong frame from then on. -/
theorem Session.runAll_resolver_differs_without_room :
    let host : Host := ⟨fun _ => .unset, fun _ => 0⟩
    let sources :=
      "fun mk() { var x = 1; fun get() { return x; } return get; } var get = mk();" ::
        (List.replicate (UInt32.size - 3) spending ++ ["{ var y = 5; print y; }", "print get();"])
    (∀ source ∈ sources, Admissible source) ∧
      (∃ last, (start .default).runAll host 100 sources =
        some (⟨.ok (), ""⟩ :: (List.replicate (UInt32.size - 3) ⟨.ok (), ""⟩ ++ [⟨.ok (), "5\n"⟩,
          ⟨.error (.runtime ⟨.identifier "x" 1, .internal (.missingVariable 0 "x")⟩), ""⟩]),
          last)) ∧
      ∃ last, (start { Config.default with useResolver := false }).runAll host 100 sources =
        some (⟨.ok (), ""⟩ :: (List.replicate (UInt32.size - 3) ⟨.ok (), ""⟩ ++
          [⟨.ok (), "5\n"⟩, ⟨.ok (), "1\n"⟩]), last) := by
  intro host sources
  have hdeclares :
      Admissible "fun mk() { var x = 1; fun get() { return x; } return get; } var get = mk();" :=
    ⟨_, _, _, _, rfl, rfl, rfl, by decide⟩
  have hspending : Admissible spending := ⟨_, _, _, _, rfl, rfl, rfl, by decide⟩
  have hblock : Admissible "{ var y = 5; print y; }" := ⟨_, _, _, _, rfl, rfl, rfl, by decide⟩
  have hcall : Admissible "print get();" := ⟨_, _, _, _, rfl, rfl, rfl, by decide⟩
  have hwith : ∃ next last, (start .default).run host 100
        "fun mk() { var x = 1; fun get() { return x; } return get; } var get = mk();" =
          some (⟨.ok (), ""⟩, next) ∧
      next.state.output = "" ∧ next.nextId + (UInt32.size - 3) = UInt32.size ∧
      { next with nextId := UInt32.size }.runAll host 100
          ["{ var y = 5; print y; }", "print get();"] =
        some ([⟨.ok (), "5\n"⟩, ⟨.error (.runtime ⟨.identifier "x" 1,
          .internal (.missingVariable 0 "x")⟩), ""⟩], last) :=
    ⟨_, _, rfl, rfl, rfl, rfl⟩
  have hwithout : ∃ next last, (start { Config.default with useResolver := false }).run host 100
        "fun mk() { var x = 1; fun get() { return x; } return get; } var get = mk();" =
          some (⟨.ok (), ""⟩, next) ∧
      next.state.output = "" ∧ next.nextId + (UInt32.size - 3) = UInt32.size ∧
      { next with nextId := UInt32.size }.runAll host 100
          ["{ var y = 5; print y; }", "print get();"] =
        some ([⟨.ok (), "5\n"⟩, ⟨.ok (), "1\n"⟩], last) :=
    ⟨_, _, rfl, rfl, rfl, rfl⟩
  obtain ⟨_, last, hfirst, houtput, hnextId, hlater⟩ := hwith
  obtain ⟨_, last', hfirst', houtput', hnextId', hlater'⟩ := hwithout
  refine ⟨?_, ⟨last, runAll_cons_spending hfirst houtput hnextId hlater⟩,
    last', runAll_cons_spending hfirst' houtput' hnextId' hlater'⟩
  exact List.forall_mem_cons.2 ⟨hdeclares, List.forall_mem_append.2
    ⟨fun source hsource => List.eq_of_mem_replicate hsource ▸ hspending,
      List.forall_mem_cons.2 ⟨hblock, List.forall_mem_singleton.2 hcall⟩⟩⟩

end Lox
