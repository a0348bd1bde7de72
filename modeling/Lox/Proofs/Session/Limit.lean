/-
# A higher limit on calls

How many calls can be under way at once is asked at one point only: when a call begins. If fewer are
under way than the lower of two limits allows, then the answer is the same under both. Otherwise the
call is stopped, and since no fault is ever caught, so is the program. So under a higher limit texts
do just the same, round by round, as long as no program is stopped by the lower one
(`Session.higher_limit_changes_nothing`).
-/

import Lox.Proofs.Session.Faults

namespace Lox

/-- A setting with another limit on calls. -/
def Setting.limited (setting : Setting) (limit : Nat) : Setting :=
  { setting with config := { setting.config with maxCallDepth := limit } }

/-- A session with another limit on calls. -/
def Session.limited (session : Session) (limit : Nat) : Session :=
  { session with config := { session.config with maxCallDepth := limit } }

/-- A run was stopped at a call because of the limit. -/
def Report.Overflowed (report : Report) : Prop :=
  ∃ token limit, report.result = .error (.runtime ⟨token, .stackOverflow limit⟩)

namespace Code

variable {setting : Setting} {limit : Nat}

/-- Apart from calls, code does the same under any limit. -/
theorem execute_limited {code : Code}
    (hcode : ∀ callee paren es, code ≠ .expression (.call callee paren es)) :
    execute (setting.limited limit) code = execute setting code := by
  cases code with
  | expression e =>
    cases e with
    | call callee paren es => exact absurd rfl (hcode callee paren es)
    | _ => rfl
  | arguments es => cases es <;> rfl
  | statement s => rfl
  | body ss => cases ss <;> rfl

theorem perform_limited (caller : Token) (called : Callable) (passed : List Value) :
    perform (setting.limited limit) caller called passed =
      perform setting caller called passed := by
  cases called <;> rfl

/-- What a call comes to once the callee has turned out to be a function and the arguments have been
passed. -/
def performIfRoom (setting : Setting) (callee : Expr) (paren : Token) (called : Callable)
    (passed : List Value) (depth : Nat) : Step Value :=
  if passed.length ≠ called.arity then
    Routine.fail ⟨paren, .wrongArity called.name called.arity passed.length⟩
  else if setting.config.maxCallDepth ≤ depth then
    Routine.fail ⟨paren, .stackOverflow setting.config.maxCallDepth⟩
  else
    perform setting (.identifier (calledName callee called) paren.line) called passed

/-- Where one limit leaves room for a call, a higher one does. -/
theorem performIfRoom_limited {callee : Expr} {paren : Token} {called : Callable}
    {passed : List Value} {depth : Nat} (hlimit : setting.config.maxCallDepth ≤ limit)
    (hroom : passed.length = called.arity → depth < setting.config.maxCallDepth) :
    performIfRoom (setting.limited limit) callee paren called passed depth =
      performIfRoom setting callee paren called passed depth := by
  unfold performIfRoom
  by_cases harity : passed.length = called.arity
  · have hdepth := hroom harity
    have hdepth' : depth < (setting.limited limit).config.maxCallDepth :=
      Nat.lt_of_lt_of_le hdepth hlimit
    rw [if_neg (Nat.not_le.2 hdepth), if_neg (Nat.not_le.2 hdepth'), perform_limited]
  · rw [if_pos harity, if_pos harity]

end Code

namespace Run

variable {run : Run} {limit : Nat}

/-- A call for which the limit leaves no room is stopped. -/
theorem answers_overflow {callee : Expr} {paren : Token} {es : List Expr}
    {state middle reached : State} {identity : Nat} {called : Callable} {passed : List Value}
    (hcallee : run.Answers (.expression callee) state (.ok (.callable identity called), middle))
    (hpassed : run.Answers (.arguments es) middle (.ok passed, reached))
    (harity : passed.length = called.arity)
    (hdepth : run.setting.config.maxCallDepth ≤ reached.callDepth) :
    run.Answers (.expression (.call callee paren es)) state
      (.error ⟨paren, .stackOverflow run.setting.config.maxCallDepth⟩, reached) := by
  have hstopped : Code.performIfRoom run.setting callee paren called passed reached.callDepth =
      Routine.fail ⟨paren, .stackOverflow run.setting.config.maxCallDepth⟩ := by
    unfold Code.performIfRoom
    rw [if_neg (Decidable.not_not.2 harity), if_pos hdepth]
  have hinvoke : Routine.Ends (Code.execute run.setting)
      (Code.performIfRoom run.setting callee paren called passed reached.callDepth) reached
      (.error ⟨paren, .stackOverflow run.setting.config.maxCallDepth⟩, reached) := by
    rw [hstopped]
    exact CallTree.ends_done.2 rfl
  exact (Routine.ends_call.2 hcallee).bind
    ((Routine.ends_call.2 hpassed).bind ((Routine.ends_gets.2 rfl).bind hinvoke))

/-- A run that is not stopped by the limit does the same under a higher one. -/
theorem followedIn_limited (hlimit : run.setting.config.maxCallDepth ≤ limit)
    (hfits : ∀ token last, ¬ run.Ends
      (.error ⟨token, .stackOverflow run.setting.config.maxCallDepth⟩) last) :
    run.FollowedIn (run.setting.limited limit) := by
  rintro ⟨code, state⟩ hcomes
  by_cases hcall : ∃ callee paren es, code = .expression (.call callee paren es)
  · obtain ⟨callee, paren, es, rfl⟩ := hcall
    refine Routine.follows_bind (fun made hmade => hcomes.tail (Routine.makes_bind.2 (.inl hmade)))
      fun function middle hcallee => ?_
    cases function with
    | callable identity called =>
      refine Routine.follows_bind (fun made hmade => hcomes.tail (Routine.makes_bind.2
        (.inr ⟨_, _, hcallee, Routine.makes_bind.2 (.inl hmade)⟩))) fun passed last hpassed => ?_
      have hroom : passed.length = called.arity →
          last.callDepth < run.setting.config.maxCallDepth := by
        intro harity
        by_contra hnot
        have hstopped : run.Answers (.expression (.call callee paren es)) state
            (.error ⟨paren, .stackOverflow run.setting.config.maxCallDepth⟩, last) :=
          answers_overflow (Routine.ends_call.1 hcallee) (Routine.ends_call.1 hpassed) harity
            (Nat.not_lt.1 hnot)
        obtain ⟨last', hends⟩ := Comes.ends_error hcomes hstopped
        exact hfits paren last' hends
      show CallTree.Follows _ _
        (Code.performIfRoom run.setting callee paren called passed last.callDepth last)
        (Code.performIfRoom (run.setting.limited limit) callee paren called passed
          last.callDepth last)
      rw [Code.performIfRoom_limited hlimit hroom]
      refine CallTree.follows_self fun made hmade => hcomes.tail (Routine.makes_bind.2
        (.inr ⟨_, _, hcallee, Routine.makes_bind.2 (.inr ⟨_, _, hpassed, ?_⟩)⟩))
      exact Routine.makes_bind.2 (.inr ⟨_, _, Routine.ends_gets.2 rfl, hmade⟩)
    | _ => exact CallTree.follows_self fun made hmade => absurd hmade CallTree.not_makes_done
  · have heq : Code.execute (run.setting.limited limit) code = Code.execute run.setting code :=
      Code.execute_limited fun callee paren es hcode => hcall ⟨callee, paren, es, hcode⟩
    show CallTree.Follows _ _ _ (Code.execute (run.setting.limited limit) code state)
    rw [heq]
    exact CallTree.follows_self fun made hmade => hcomes.tail hmade

end Run

namespace Session

variable {host : Host} {session after : Session} {source : String} {sources : List String}
  {rounds limit : Nat} {report : Report} {reports : List Report}

/-- The run of a text that is not stopped by the limit does the same under a higher one. -/
theorem followedIn_of_run (hlimit : session.config.maxCallDepth ≤ limit)
    (hrun : session.run host rounds source = some (report, after)) (hfits : ¬ report.Overflowed)
    {run : Run} (hbegin : session.begin? host source = some run) :
    run.FollowedIn (run.setting.limited limit) := by
  apply Run.followedIn_limited
  · rw [(setting_of_begin? hbegin).1]
    exact hlimit
  · intro token last hends
    rcases exists_run_iff.1 ⟨rounds, hrun⟩ with ⟨failure, hfailure, -, -⟩ |
      ⟨run', result, reached, hbegin', hends', rfl, -⟩
    · rw [begin?_eq_none hfailure] at hbegin
      cases hbegin
    · rw [hbegin] at hbegin'
      cases hbegin'
      cases Routine.Ends.unique hends hends'
      exact hfits ⟨token, _, rfl⟩

/-- A text that is not stopped by the limit comes to the same under a higher one. -/
theorem run_limited (hlimit : session.config.maxCallDepth ≤ limit)
    (hrun : session.run host rounds source = some (report, after)) (hfits : ¬ report.Overflowed) :
    (session.limited limit).run host rounds source = some (report, after.limited limit) := by
  have hfollowed : ∀ run, session.begin? host source = some run →
      run.FollowedIn (run.setting.limited limit) :=
    fun run => followedIn_of_run hlimit hrun hfits
  have hprepare : (session.limited limit).prepare source = session.prepare source := rfl
  unfold begin? at hfollowed
  unfold Session.run at hrun ⊢
  rw [hprepare]
  generalize session.prepare source = prepared at hfollowed hrun ⊢
  obtain ⟨failure | ⟨program, depths⟩, nextId⟩ := prepared
  · cases hrun
    rfl
  · have hexecute : Program.execute ⟨((session.limited limit).learn depths).config,
        ((session.limited limit).learn depths).depths, host⟩ rounds program
          ((session.limited limit).learn depths).state =
        Program.execute ⟨(session.learn depths).config, (session.learn depths).depths, host⟩ rounds
          program (session.learn depths).state := (hfollowed _ rfl).execute_eq rounds
    unfold execute at hrun ⊢
    dsimp only at hrun ⊢
    rw [hexecute]
    split at hrun
    · cases hrun
    · rename_i result output reached hreached
      cases hrun
      split at hreached
      · cases hreached
      · cases hreached
        rfl

/-- So do texts one after another, if none of them is stopped by the limit. -/
theorem runAll_limited (hlimit : session.config.maxCallDepth ≤ limit)
    (hruns : session.runAll host rounds sources = some (reports, after))
    (hfits : ∀ report ∈ reports, ¬ report.Overflowed) :
    (session.limited limit).runAll host rounds sources = some (reports, after.limited limit) := by
  induction sources generalizing session reports with
  | nil =>
    cases hruns
    rfl
  | cons source sources ih =>
    unfold runAll at hruns ⊢
    split at hruns
    · cases hruns
    · rename_i report middle hrun
      split at hruns
      · cases hruns
      · rename_i others last hothers
        cases hruns
        obtain ⟨hfirst, hrest⟩ := List.forall_mem_cons.1 hfits
        rw [run_limited hlimit hrun hfirst]
        have hlimit' : middle.config.maxCallDepth ≤ limit := by
          rw [config_of_run hrun]
          exact hlimit
        dsimp only
        rw [ih hlimit' hothers hrest]

end Session

/-- A higher limit on calls changes nothing for programs that do not overflow. If texts that are run
one after another all come to an end under one limit, and none of them is stopped because of it,
then under any higher limit they come to the same reports, within the same number of rounds: they
print the same, have the same results, and the same diagnostics. -/
theorem Session.higher_limit_changes_nothing {host : Host} {config : Config} {limit rounds : Nat}
    {sources : List String} {reports : List Report} {session : Session}
    (hlimit : config.maxCallDepth ≤ limit)
    (hruns : (start config).runAll host rounds sources = some (reports, session))
    (hfits : ∀ report ∈ reports, ¬ report.Overflowed) :
    (start { config with maxCallDepth := limit }).runAll host rounds sources =
      some (reports, session.limited limit) :=
  runAll_limited hlimit hruns hfits

/-- A function that calls itself until exactly four calls are under way, and a text that is stopped
by another fault, come to the same with four calls and with ten. With three calls the first text is
stopped. -/
theorem Session.higher_limit_changes_nothing_at_limit :
    (∃ report last, (start ⟨true, 3, false⟩).run ⟨fun _ => .unset, fun _ => 0⟩ 200
      "fun f(n) { if (n > 0) f(n - 1); else print n; } f(3);" = some (report, last) ∧
        report.Overflowed) ∧
    ∃ reports session,
      (start ⟨true, 4, false⟩).runAll ⟨fun _ => .unset, fun _ => 0⟩ 200
        ["fun f(n) { if (n > 0) f(n - 1); else print n; } f(3);", "f(2); print f(1) + 1;"] =
          some (reports, session) ∧
      (∀ report ∈ reports, ¬ report.Overflowed) ∧
      (start ⟨true, 10, false⟩).runAll ⟨fun _ => .unset, fun _ => 0⟩ 200
        ["fun f(n) { if (n > 0) f(n - 1); else print n; } f(3);", "f(2); print f(1) + 1;"] =
          some (reports, session.limited 10) ∧
      reports.map Report.output = ["0\n", "0\n0\n"] := by
  refine ⟨⟨_, _, rfl, ⟨.rightParen, ")", none, 1⟩, 3, rfl⟩, ?_⟩
  have hcomputed : ((start ⟨true, 4, false⟩).runAll ⟨fun _ => .unset, fun _ => 0⟩ 200
      ["fun f(n) { if (n > 0) f(n - 1); else print n; } f(3);", "f(2); print f(1) + 1;"]).map
        Prod.fst = some [⟨.ok (), "0\n"⟩, ⟨.error (.runtime ⟨⟨.plus, "+", none, 1⟩,
          .operandsNotAddable⟩), "0\n0\n"⟩] := by rfl
  obtain ⟨⟨reports, session⟩, hruns, rfl⟩ := Option.map_eq_some_iff.1 hcomputed
  have hfits : ∀ report ∈ [Report.mk (.ok ()) "0\n", ⟨.error (.runtime ⟨⟨.plus, "+", none, 1⟩,
      .operandsNotAddable⟩), "0\n0\n"⟩], ¬ report.Overflowed := by
    simp only [List.forall_mem_cons]
    refine ⟨?_, ?_, List.forall_mem_nil _⟩
    · rintro ⟨token, limit, h⟩
      cases h
    · rintro ⟨token, limit, h⟩
      cases h
  have hlimit : Config.maxCallDepth ⟨true, 4, false⟩ ≤ 10 := by decide
  exact ⟨_, session, hruns, hfits, higher_limit_changes_nothing hlimit hruns hfits, rfl⟩

end Lox
