/-
# Reporting to a sink

Whatever is wrong with a text is told twice: in the report that its run comes to, and before that to
a sink, as each phase goes along. The phases have their own manners. Scanning and resolution go
through everything first and report afterwards. Reading reports a malformed declaration when it
meets it, before it looks for the place to resume at. Execution reports the fault that stops it, and
does not go on. `Session.Reports` is the run of a text together with what the sink receives on the
way, and it does not look at the report to find that out.

The two accounts agree: the sink receives what the report says, in the same order, nothing else and
nothing twice (`Session.diagnostics_agree`).
-/

import Lox.Proofs.Grammar.Recovery
import Lox.Proofs.Session.Run

namespace Lox

/-- To report one thing after another is to report them all. -/
theorem Sink.foldl_report {ε : Type} (sink : Sink) (describe : ε → Diagnostic) (errors : List ε) :
    errors.foldl (fun sink error => sink.report (describe error)) sink =
      sink ++ errors.map describe := by
  induction errors generalizing sink with
  | nil => exact (List.append_nil sink).symm
  | cons error errors ih =>
    rw [List.foldl_cons, ih, report, List.append_assoc]
    rfl

/-! ## Scanning and resolution -/

/-- Scanning goes through the whole text, and then reports what is malformed in it. -/
def Token.scanReporting (source : String) (sink : Sink) :
    Except (List ScanError) (List Token) × Sink :=
  match scan source with
  | .ok tokens => (.ok tokens, sink)
  | .error errors =>
    (.error errors, errors.foldl (fun sink error =>
      sink.report (.atLine .scan error.line error.message)) sink)

/-- Resolution goes through the whole program, and then reports what is wrong with it. -/
def Program.resolveReporting (program : List Stmt) (sink : Sink) :
    Except (List ResolveError) BindingDepths × Sink :=
  match bindingDepths program with
  | .ok depths => (.ok depths, sink)
  | .error errors =>
    (.error errors, errors.foldl (fun sink error =>
      sink.report (.atToken .resolve error.token error.message)) sink)

/-- What is reported of the outcome of a phase. -/
def toldOf {ε α : Type} (describe : ε → Diagnostic) : Except (List ε) α → List Diagnostic
  | .ok _ => []
  | .error errors => errors.map describe

theorem Token.scanReporting_eq_iff {source : String} {sink sink' : Sink}
    {result : Except (List ScanError) (List Token)} :
    scanReporting source sink = (result, sink') ↔
      scan source = result ∧ sink' = sink ++ toldOf ScanError.diagnostic result := by
  have heq : scanReporting source sink =
      (scan source, sink ++ toldOf ScanError.diagnostic (scan source)) := by
    unfold scanReporting
    cases scan source with
    | ok tokens => exact congrArg (Prod.mk _) (List.append_nil sink).symm
    | error errors => exact congrArg (Prod.mk _) (sink.foldl_report ScanError.diagnostic errors)
  rw [heq, Prod.mk.injEq, eq_comm (b := sink')]
  exact and_congr_right fun h => by rw [h]

theorem Program.resolveReporting_eq_iff {program : List Stmt} {sink sink' : Sink}
    {result : Except (List ResolveError) BindingDepths} :
    resolveReporting program sink = (result, sink') ↔
      bindingDepths program = result ∧ sink' = sink ++ toldOf ResolveError.diagnostic result := by
  have heq : resolveReporting program sink =
      (bindingDepths program,
        sink ++ toldOf ResolveError.diagnostic (bindingDepths program)) := by
    unfold resolveReporting
    cases bindingDepths program with
    | ok depths => exact congrArg (Prod.mk _) (List.append_nil sink).symm
    | error errors => exact congrArg (Prod.mk _) (sink.foldl_report ResolveError.diagnostic errors)
  rw [heq, Prod.mk.injEq, eq_comm (b := sink')]
  exact and_congr_right fun h => by rw [h]

/-- There is something malformed in a text that has no tokens. -/
theorem Token.scan_error_ne_nil {source : String} {errors : List ScanError}
    (h : scan source = .error errors) : errors ≠ [] := by
  unfold scan at h
  dsimp only at h
  split at h
  · cases h
  · rename_i found hfound
    cases h
    exact fun hnil => hfound (List.reverse_eq_nil_iff.1 hnil)

/-- There is something wrong with the scoping of a program that has no depths. -/
theorem Program.bindingDepths_error_ne_nil {program : List Stmt} {errors : List ResolveError}
    (h : bindingDepths program = .error errors) : errors ≠ [] := by
  unfold bindingDepths at h
  dsimp only at h
  split at h
  · cases h
  · rename_i found hfound
    cases h
    exact fun hnil => hfound (List.reverse_eq_nil_iff.1 hnil)

/-! ## Reading -/

namespace Recovery

variable {closing : Token} {before after : Recovery}

/-- The sink has received one report for each malformed declaration, in order. -/
def Told (told : Sink) (recovery : Recovery) : Prop :=
  recovery.sink = told ++ recovery.errors.map ParseError.diagnostic

theorem Step.told {told : Sink} (h : Step closing before after) (hbefore : before.Told told) :
    after.Told told := by
  obtain ⟨hrest, hread⟩ := h
  rename_i result reached
  cases result with
  | ok statement => exact hbefore
  | error error =>
    show before.sink ++ [error.diagnostic] =
      told ++ (before.errors ++ [error]).map ParseError.diagnostic
    rw [hbefore, List.append_assoc, List.map_append]
    rfl

theorem Steps.told {told : Sink} (h : Steps closing before after) (hbefore : before.Told told) :
    after.Told told := by
  induction h with
  | refl => exact hbefore
  | tail _ hstep ih => exact hstep.told ih

end Recovery

namespace Program

/-- A program is read to its end, with what that comes to: its statements, or all errors if there
are any. -/
inductive Reads (tokens : List Token) (nextId : AccessId) (sink : Sink) :
    Except (List ParseError) (List Stmt) → AccessId → Sink → Prop where
  | accepted {last : Recovery}
      (hsteps : Recovery.Steps (closing tokens) ⟨start tokens nextId, [], [], sink⟩ last)
      (hrest : last.reader.rest = []) (herrors : last.errors = []) :
      Reads tokens nextId sink (.ok last.statements) last.reader.nextId last.sink
  | rejected {last : Recovery}
      (hsteps : Recovery.Steps (closing tokens) ⟨start tokens nextId, [], [], sink⟩ last)
      (hrest : last.reader.rest = []) (herrors : last.errors ≠ []) :
      Reads tokens nextId sink (.error last.errors) last.reader.nextId last.sink

variable {tokens : List Token} {nextId next : AccessId} {sink sink' : Sink}
  {result : Except (List ParseError) (List Stmt)}

/-- What the steps come to is what the program is read as, and of that the sink is told the
errors. -/
theorem reads_iff :
    Reads tokens nextId sink result next sink' ↔
      ofTokens tokens nextId = (result, next) ∧
        sink' = sink ++ toldOf ParseError.diagnostic result := by
  obtain ⟨last, hsteps, hrest, hresult⟩ := exists_steps tokens nextId sink
  have htold : last.Told sink := Recovery.Steps.told hsteps (List.append_nil sink).symm
  rw [hresult]
  constructor
  · rintro (⟨hsteps', hrest', herrors⟩ | ⟨hsteps', hrest', herrors⟩)
    · obtain rfl := Recovery.Steps.unique hsteps hrest hsteps' hrest'
      rw [if_pos herrors]
      refine ⟨rfl, htold.trans ?_⟩
      rw [herrors]
      rfl
    · obtain rfl := Recovery.Steps.unique hsteps hrest hsteps' hrest'
      rw [if_neg herrors]
      exact ⟨rfl, htold⟩
  · rintro ⟨heq, rfl⟩
    by_cases herrors : last.errors = []
    · rw [if_pos herrors] at heq
      cases heq
      have hsink : last.sink = sink ++ [] := by
        rw [htold, herrors]
        rfl
      exact hsink ▸ .accepted hsteps hrest herrors
    · rw [if_neg herrors] at heq
      cases heq
      exact htold ▸ .rejected hsteps hrest herrors

/-! ## Execution -/

/-- What a program does to a state and reports to a sink. The first fault is reported, and what
comes behind it is not executed. -/
def executeReporting (setting : Setting) (rounds : Nat) :
    (program : List Stmt) → State → Sink → Option (Except Fault Unit × State × Sink)
  | [], state, sink => some (.ok (), state, sink)
  | s :: ss, state, sink =>
    match Routine.run (Code.execute setting) rounds (.statement s) state with
    | none => none
    | some (.ok _, state) => executeReporting setting rounds ss state sink
    | some (.error fault, state) =>
      some (.error fault, state.settle,
        sink.report (.atToken .runtime fault.token fault.message))

theorem executeReporting_eq_some_iff {setting : Setting} {rounds : Nat} {program : List Stmt}
    {state state' : State} {result : Except Fault Unit} :
    executeReporting setting rounds program state sink = some (result, state', sink') ↔
      execute setting rounds program state = some (result, state') ∧
        sink' = sink ++ (Report.mk (result.mapError .runtime) state'.output).diagnostics := by
  induction program generalizing state with
  | nil =>
    unfold executeReporting execute
    constructor
    · intro h
      cases h
      exact ⟨rfl, (List.append_nil sink).symm⟩
    · rintro ⟨h, rfl⟩
      cases h
      exact congrArg (fun sink => some (_, _, sink)) (List.append_nil sink).symm
  | cons s ss ih =>
    unfold executeReporting execute
    cases Routine.run (Code.execute setting) rounds (.statement s) state with
    | none =>
      constructor
      · intro h
        cases h
      · rintro ⟨h, -⟩
        cases h
    | some outcome =>
      obtain ⟨fault | completion, reached⟩ := outcome
      · constructor
        · intro h
          cases h
          exact ⟨rfl, rfl⟩
        · rintro ⟨h, rfl⟩
          cases h
          rfl
      · exact ih

end Program

/-! ## The run of a text -/

namespace Session

/-- The preparation of a text, and what a sink receives from it: each phase reports to the sink
before the next begins, and a phase in which something is wrong is the last. -/
inductive Prepares (session : Session) (source : String) (sink : Sink) :
    Except Failure (List Stmt × BindingDepths) × AccessId → Sink → Prop where
  | malformed {errors : List ScanError} {scanned : Sink}
      (hscan : Token.scanReporting source sink = (.error errors, scanned)) :
      Prepares session source sink (.error (.scan errors), session.nextId) scanned
  | ungrammatical {tokens : List Token} {errors : List ParseError} {nextId : AccessId}
      {scanned read : Sink} (hscan : Token.scanReporting source sink = (.ok tokens, scanned))
      (hread : Program.Reads tokens session.nextId scanned (.error errors) nextId read) :
      Prepares session source sink (.error (.parse errors), nextId) read
  | misscoped {tokens : List Token} {program : List Stmt} {errors : List ResolveError}
      {nextId : AccessId} {scanned read resolved : Sink}
      (hscan : Token.scanReporting source sink = (.ok tokens, scanned))
      (hread : Program.Reads tokens session.nextId scanned (.ok program) nextId read)
      (hresolver : session.config.useResolver = true)
      (hresolve : Program.resolveReporting program read = (.error errors, resolved)) :
      Prepares session source sink (.error (.resolve errors), nextId) resolved
  | resolved {tokens : List Token} {program : List Stmt} {depths : BindingDepths}
      {nextId : AccessId} {scanned read resolved : Sink}
      (hscan : Token.scanReporting source sink = (.ok tokens, scanned))
      (hread : Program.Reads tokens session.nextId scanned (.ok program) nextId read)
      (hresolver : session.config.useResolver = true)
      (hresolve : Program.resolveReporting program read = (.ok depths, resolved)) :
      Prepares session source sink (.ok (program, depths), nextId) resolved
  | unresolved {tokens : List Token} {program : List Stmt} {nextId : AccessId}
      {scanned read : Sink} (hscan : Token.scanReporting source sink = (.ok tokens, scanned))
      (hread : Program.Reads tokens session.nextId scanned (.ok program) nextId read)
      (hresolver : session.config.useResolver = false) :
      Prepares session source sink (.ok (program, ∅), nextId) read

/-- The run of a text in a session, and what a sink receives from it. -/
inductive Reports (host : Host) (rounds : Nat) (session : Session) (source : String) (sink : Sink) :
    Report → Session → Sink → Prop where
  | rejected {failure : Failure} {nextId : AccessId} {prepared : Sink}
      (hprepare : session.Prepares source sink (.error failure, nextId) prepared) :
      Reports host rounds session source sink ⟨.error failure, ""⟩ { session with nextId } prepared
  | executed {program : List Stmt} {depths : BindingDepths} {nextId : AccessId}
      {prepared executed : Sink} {result : Except Fault Unit} {state : State}
      (hprepare : session.Prepares source sink (.ok (program, depths), nextId) prepared)
      (hexecute : Program.executeReporting ⟨session.config, (session.learn depths).depths, host⟩
        rounds program session.state prepared = some (result, state, executed)) :
      Reports host rounds session source sink ⟨result.mapError .runtime, state.output⟩
        ⟨session.config, nextId, (session.learn depths).depths, { state with output := "" }⟩
          executed

variable {host : Host} {rounds : Nat} {session session' : Session} {source : String}
  {sink sink' : Sink} {report : Report}

/-- A text is prepared with a sink as it is prepared without one, and the sink receives everything
that is wrong with it. -/
theorem prepares_iff {prepared : Except Failure (List Stmt × BindingDepths) × AccessId} :
    session.Prepares source sink prepared sink' ↔
      session.prepare source = prepared ∧
        sink' = sink ++ (Report.mk (prepared.1.map fun _ => ()) "").diagnostics := by
  have hnil : ∀ sink : Sink, sink ++ [] = sink := List.append_nil
  unfold prepare
  constructor
  · intro h
    cases h with
    | malformed hscan =>
      rw [Token.scanReporting_eq_iff] at hscan
      obtain ⟨hscan, rfl⟩ := hscan
      rw [hscan]
      exact ⟨rfl, rfl⟩
    | ungrammatical hscan hread =>
      rw [Token.scanReporting_eq_iff] at hscan
      rw [Program.reads_iff] at hread
      obtain ⟨hscan, rfl⟩ := hscan
      obtain ⟨hread, rfl⟩ := hread
      rw [hscan]
      dsimp only
      rw [hread]
      exact ⟨rfl, congrArg (· ++ _) (hnil sink)⟩
    | misscoped hscan hread hresolver hresolve =>
      rw [Token.scanReporting_eq_iff] at hscan
      rw [Program.reads_iff] at hread
      rw [Program.resolveReporting_eq_iff] at hresolve
      obtain ⟨hscan, rfl⟩ := hscan
      obtain ⟨hread, rfl⟩ := hread
      obtain ⟨hresolve, rfl⟩ := hresolve
      rw [hscan]
      dsimp only
      rw [hread]
      dsimp only
      rw [if_pos hresolver, hresolve]
      exact ⟨rfl, congrArg (· ++ _) ((hnil _).trans (hnil sink))⟩
    | resolved hscan hread hresolver hresolve =>
      rw [Token.scanReporting_eq_iff] at hscan
      rw [Program.reads_iff] at hread
      rw [Program.resolveReporting_eq_iff] at hresolve
      obtain ⟨hscan, rfl⟩ := hscan
      obtain ⟨hread, rfl⟩ := hread
      obtain ⟨hresolve, rfl⟩ := hresolve
      rw [hscan]
      dsimp only
      rw [hread]
      dsimp only
      rw [if_pos hresolver, hresolve]
      exact ⟨rfl, congrArg (· ++ _) ((hnil _).trans (hnil sink))⟩
    | unresolved hscan hread hresolver =>
      rw [Token.scanReporting_eq_iff] at hscan
      rw [Program.reads_iff] at hread
      obtain ⟨hscan, rfl⟩ := hscan
      obtain ⟨hread, rfl⟩ := hread
      rw [hscan]
      dsimp only
      rw [hread]
      dsimp only
      rw [if_neg (Bool.eq_false_iff.1 hresolver)]
      exact ⟨rfl, congrArg (· ++ _) (hnil sink)⟩
  · rintro ⟨h, rfl⟩
    split at h
    · rename_i errors hscan
      cases h
      exact .malformed (Token.scanReporting_eq_iff.2 ⟨hscan, rfl⟩)
    · rename_i tokens htokens
      have hscan : Token.scanReporting source sink = (.ok tokens, sink) :=
        Token.scanReporting_eq_iff.2 ⟨htokens, (hnil sink).symm⟩
      split at h
      · rename_i errors nextId herrors
        cases h
        exact .ungrammatical hscan (Program.reads_iff.2 ⟨herrors, rfl⟩)
      · rename_i program nextId hprogram
        have hread : Program.Reads tokens session.nextId sink (.ok program) nextId sink :=
          Program.reads_iff.2 ⟨hprogram, (hnil sink).symm⟩
        split at h
        · rename_i hresolver
          split at h
          · rename_i errors herrors
            cases h
            exact .misscoped hscan hread hresolver
              (Program.resolveReporting_eq_iff.2 ⟨herrors, rfl⟩)
          · rename_i depths hdepths
            cases h
            exact .resolved hscan hread hresolver
              (Program.resolveReporting_eq_iff.2 ⟨hdepths, rfl⟩)
        · rename_i hresolver
          cases h
          rw [show (Report.mk _ _).diagnostics = [] from rfl, hnil]
          exact .unresolved hscan hread (Bool.eq_false_iff.2 hresolver)

/-- A text is run with a sink as it is run without one, and the sink receives what the report
says. -/
theorem reports_iff :
    session.Reports host rounds source sink report session' sink' ↔
      session.run host rounds source = some (report, session') ∧
        sink' = sink ++ report.diagnostics := by
  have hnil : ∀ sink : Sink, sink ++ [] = sink := List.append_nil
  have hstate : ∀ depths, (session.learn depths).state = session.state := fun _ => rfl
  have hconfig : ∀ depths, (session.learn depths).config = session.config := fun _ => rfl
  unfold run execute
  constructor
  · intro h
    cases h with
    | rejected hprepare =>
      rw [prepares_iff] at hprepare
      obtain ⟨hprepare, rfl⟩ := hprepare
      rw [hprepare]
      exact ⟨rfl, rfl⟩
    | executed hprepare hexecute =>
      rw [prepares_iff] at hprepare
      rw [Program.executeReporting_eq_some_iff] at hexecute
      obtain ⟨hprepare, rfl⟩ := hprepare
      obtain ⟨hexecute, rfl⟩ := hexecute
      rw [hprepare]
      dsimp only
      rw [hstate, hconfig, hexecute]
      exact ⟨rfl, congrArg (· ++ _) (hnil sink)⟩
  · rintro ⟨h, rfl⟩
    split at h
    · rename_i failure nextId hprepare
      cases h
      exact .rejected (prepares_iff.2 ⟨hprepare, rfl⟩)
    · rename_i program depths nextId hprepare
      dsimp only at h
      rw [hstate, hconfig] at h
      split at h
      · cases h
      · rename_i hexecute
        split at hexecute
        · cases hexecute
        · rename_i result state hprogram
          cases hexecute
          cases h
          exact .executed (prepares_iff.2 ⟨hprepare, (hnil sink).symm⟩)
            (Program.executeReporting_eq_some_iff.2 ⟨hprogram, rfl⟩)

/-- A text is never rejected without a reason. -/
theorem diagnostics_ne_nil_of_rejected {failure : Failure}
    (h : (session.prepare source).1 = .error failure) : failure.diagnostics ≠ [] := by
  unfold prepare at h
  split at h
  · rename_i errors hscan
    cases h
    exact fun hnil => Token.scan_error_ne_nil hscan (List.map_eq_nil_iff.1 hnil)
  · split at h
    · rename_i errors nextId hprogram
      cases h
      exact fun hnil => Program.ofTokens_error_ne_nil hprogram (List.map_eq_nil_iff.1 hnil)
    · split at h
      · split at h
        · rename_i errors hdepths
          cases h
          exact fun hnil => Program.bindingDepths_error_ne_nil hdepths (List.map_eq_nil_iff.1 hnil)
        · cases h
      · cases h

/-- A run that fails before execution has printed nothing, and has something to report. -/
theorem quiet_of_result {failure : Failure}
    (hrun : session.run host rounds source = some (report, session'))
    (hresult : report.result = .error failure) (hphase : failure.phase ≠ .runtime) :
    failure.diagnostics ≠ [] ∧ report.output = "" := by
  rcases exists_run_iff.1 ⟨rounds, hrun⟩ with ⟨failure', hfailure, rfl, -⟩ |
    ⟨_, result, _, -, -, rfl, -⟩
  · cases hresult
    exact ⟨diagnostics_ne_nil_of_rejected hfailure, rfl⟩
  · cases result with
    | ok completed => cases hresult
    | error fault =>
      cases hresult
      exact absurd rfl hphase

/-- A run has nothing to report exactly if it succeeds. -/
theorem diagnostics_eq_nil_iff
    (hrun : session.run host rounds source = some (report, session')) :
    report.diagnostics = [] ↔ report.result = .ok () := by
  unfold Report.diagnostics
  cases hresult : report.result with
  | ok completed => exact ⟨fun _ => rfl, fun _ => rfl⟩
  | error failure =>
    refine ⟨fun hnil => absurd hnil ?_, nofun⟩
    cases failure with
    | runtime fault => exact List.cons_ne_nil _ _
    | _ => exact (quiet_of_result hrun hresult nofun).1

/-- What the sink receives from a run agrees with what the run comes to. It receives nothing exactly
if the run succeeds. If the text is rejected, it receives one diagnostic for each error, in the same
order, and there are some; nothing is printed. If the program is stopped, it receives one
diagnostic, at the token of the fault. -/
theorem diagnostics_agree (hrun : session.run host rounds source = some (report, session'))
    (sink : Sink) :
    ∃ told : List Diagnostic,
      (∀ sink', session.Reports host rounds source sink report session' sink' ↔
        sink' = sink ++ told) ∧
      (report.result = .ok () ↔ told = []) ∧
      (∀ errors, report.result = .error (.scan errors) →
        errors ≠ [] ∧ told = errors.map (fun error => ⟨.scan, error.line, none, error.message⟩) ∧
          report.output = "" ∧ (Failure.scan errors).exitCode = 65) ∧
      (∀ errors, report.result = .error (.parse errors) →
        errors ≠ [] ∧
          told = errors.map (fun error =>
            ⟨.parse, error.token.line,
              some (if error.token.kind = .endOfInput then "end"
                else "'" ++ error.token.lexeme ++ "'"),
              error.message⟩) ∧
          report.output = "" ∧ (Failure.parse errors).exitCode = 65) ∧
      (∀ errors, report.result = .error (.resolve errors) →
        errors ≠ [] ∧
          told = errors.map (fun error =>
            ⟨.resolve, error.token.line,
              some (if error.token.kind = .endOfInput then "end"
                else "'" ++ error.token.lexeme ++ "'"),
              error.message⟩) ∧
          report.output = "" ∧ (Failure.resolve errors).exitCode = 65) ∧
      ∀ fault, report.result = .error (.runtime fault) →
        told = [⟨.runtime, fault.token.line,
          some (if fault.token.kind = .endOfInput then "end" else "'" ++ fault.token.lexeme ++ "'"),
          fault.message⟩] ∧
          (Failure.runtime fault).exitCode = 70 := by
  have htold : ∀ failure, report.result = .error failure →
      report.diagnostics = failure.diagnostics := by
    intro failure hresult
    unfold Report.diagnostics
    rw [hresult]
  refine ⟨report.diagnostics, fun sink' => ?_, (diagnostics_eq_nil_iff hrun).symm, ?_, ?_, ?_, ?_⟩
  · rw [reports_iff]
    exact and_iff_right hrun
  · intro errors hresult
    obtain ⟨hne, houtput⟩ := quiet_of_result hrun hresult nofun
    exact ⟨fun hnil => hne (List.map_eq_nil_iff.2 hnil), htold _ hresult, houtput, rfl⟩
  · intro errors hresult
    obtain ⟨hne, houtput⟩ := quiet_of_result hrun hresult nofun
    exact ⟨fun hnil => hne (List.map_eq_nil_iff.2 hnil), htold _ hresult, houtput, rfl⟩
  · intro errors hresult
    obtain ⟨hne, houtput⟩ := quiet_of_result hrun hresult nofun
    exact ⟨fun hnil => hne (List.map_eq_nil_iff.2 hnil), htold _ hresult, houtput, rfl⟩
  · intro fault hresult
    exact ⟨htold _ hresult, rfl⟩

/-- Two malformed declarations, the second of them at the end. -/
theorem diagnostics_agree_while_recovering :
    ∃ report after told,
      (Session.start .default).run ⟨fun _ => .unset, fun _ => 0⟩ 50 "1 = 2; print" =
        some (report, after) ∧
      (∀ sink', (Session.start .default).Reports ⟨fun _ => .unset, fun _ => 0⟩ 50 "1 = 2; print" []
        report after sink' ↔ sink' = told) ∧
      told = [⟨.parse, 1, some "'='", "Invalid assignment target."⟩,
        ⟨.parse, 1, some "end", "Expect expression."⟩] := by
  have hrun : ∃ report after,
      (Session.start .default).run ⟨fun _ => .unset, fun _ => 0⟩ 50 "1 = 2; print" =
        some (report, after) ∧
      report.result = .error (.parse [⟨⟨.equal, "=", none, 1⟩, .invalidTarget⟩,
        ⟨.endOfInput 1, .missingExpression⟩]) := ⟨_, _, rfl, rfl⟩
  obtain ⟨report, after, hrun, hresult⟩ := hrun
  obtain ⟨told, htold, -, -, hparse, -⟩ := diagnostics_agree hrun []
  exact ⟨report, after, told, hrun, htold, (hparse _ hresult).2.1⟩

end Session

end Lox
