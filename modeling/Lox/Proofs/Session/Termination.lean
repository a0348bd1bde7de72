/-
# Programs without loops end

What is executed within a piece of code is smaller than it, unless it is a loop that goes on or the
body of a function that is called; and a call begins only while fewer calls are under way than the
limit allows. So where there are no loops, something grows less with everything that is executed:
first the number of calls that can still begin, and then the size of the code. Functions may call
themselves or each other, be passed on and stored anywhere, and come from earlier texts: their
bodies have no loops either, as every function has been declared somewhere in one of the programs
(`Begun.starts`).
-/

import Lox.Proofs.Grammar.Loops
import Lox.Proofs.Session.Correspondence
import Lox.Proofs.Session.Equivalence

namespace Lox

namespace Code

variable {setting : Setting}

/-- Execution comes to parts of the code, with as many calls under way, but where a function is
called. -/
theorem Built.makes_part {code : Code} {known : List Value} {α : Type} {values : α → List Value}
    {step : Step α} (h : Built setting code known values step) {state : State}
    {made : Code × State} (hmakes : Routine.Makes (execute setting) step state made) :
    (∃ place, Part .top code place made.1 ∧ made.2.callDepth = state.callDepth) ∨
      ∃ callee paren es ss, code = .expression (.call callee paren es) ∧ made.1 = .body ss := by
  induction h generalizing state with
  | pure | fail | ofExcept | callDepth | get | assign | now | print | define | declare =>
    exact absurd hmakes CallTree.not_makes_done
  | bind hfirst _ ihFirst ihNext =>
    rcases Routine.makes_bind.1 hmakes with hmakes | ⟨answer, reached, hends, hmakes⟩
    · exact ihFirst hmakes
    · have hscope : state.SameScope reached :=
        sameScope_of_ends (inherited_keeps.of_built hfirst) hends
      rw [← hscope.2]
      exact ihNext answer hmakes
  | call hpart =>
    obtain rfl := Routine.makes_call.1 hmakes
    exact .inl ⟨_, hpart, rfl⟩
  | jump hpart =>
    obtain rfl := Routine.makes_jump.1 hmakes
    exact .inl ⟨_, hpart, rfl⟩
  | block hcode =>
    obtain rfl := Routine.makes_call.1 (Routine.makes_within.1 hmakes)
    subst hcode
    exact .inl ⟨_, .block, rfl⟩
  | invocation hcode =>
    obtain rfl := Routine.makes_call.1 (Routine.makes_within.1 hmakes)
    exact .inr ⟨_, _, _, _, hcode, rfl⟩

end Code

namespace Run

variable {run : Run}

/-- Execution comes to parts of the code with as many calls under way, or to the body of a function
with more of them, though not more than the limit allows. -/
theorem makes_part_or_body {code : Code} {state : State} {made : Code × State}
    (h : run.Makes code state made) :
    (∃ place, Part .top code place made.1 ∧ made.2.callDepth = state.callDepth) ∨
      state.callDepth < made.2.callDepth ∧
        made.2.callDepth ≤ run.setting.config.maxCallDepth := by
  have hbuilt : Code.Built run.setting code [] code.values (Code.execute run.setting code) :=
    Code.built_execute code
  rcases hbuilt.makes_part h with hpart | ⟨callee, paren, es, ss, rfl, hbody⟩
  · exact .inl hpart
  · rcases makes_call h with rfl | ⟨identity, called, reached, hcallee, rfl | hinvoked⟩
    · cases hbody
    · cases hbody
    · obtain ⟨passed, reached', declaration, closure, hpassed, -, -, hdepth, rfl⟩ := hinvoked
      have hsame : reached'.callDepth = state.callDepth :=
        hpassed.sameScope.2.trans hcallee.sameScope.2
      refine .inr ⟨?_, ?_⟩
      · exact hsame ▸ Nat.lt_of_lt_of_eq (Nat.lt_succ_self _) (State.callDepth_beginCall _ _ _).symm
      · exact (State.callDepth_beginCall _ _ _).symm ▸ hdepth

/-- What is left to do: calls that can still begin, and code that is to be executed in the present
one. -/
def Smaller (limit : Nat) : Code × State → Code × State → Prop :=
  InvImage (Prod.Lex (· < ·) (· < ·)) fun call => (limit - call.2.callDepth, sizeOf call.1)

theorem wellFounded_smaller (limit : Nat) : WellFounded (Smaller limit) :=
  InvImage.wf _ (Prod.lex Nat.lt_wfRel Nat.lt_wfRel).wf

/-- What is executed within code without loops leaves less to do. -/
theorem Makes.smaller {code : Code} {state : State} {made : Code × State}
    (h : run.Makes code state made) (hfree : code.LoopFree) :
    Smaller run.setting.config.maxCallDepth made (code, state) := by
  rcases makes_part_or_body h with ⟨place, hpart, hdepth⟩ | ⟨hlt, hle⟩
  · show Prod.Lex _ _ (_ - made.2.callDepth, sizeOf made.1) (_ - state.callDepth, sizeOf code)
    rw [hdepth]
    exact .right _ (hpart.sizeOf_lt hfree)
  · exact .left _ _ (by dsimp only; omega)

end Run

/-- A run ends if neither its program nor those before it have loops. -/
theorem Begun.exists_ends {run : Run} {past : List Run} (h : Begun run past)
    (hfree : ∀ first ∈ run :: past, Stmt.AllLoopFree first.program) :
    ∃ result reached, run.Ends result reached := by
  have hcode : ∀ call : Code × State, run.Comes call → call.1.LoopFree := by
    intro call hcomes
    obtain ⟨⟨place, hmoment⟩, -⟩ := h.starts hcomes
    obtain ⟨first, hfirst, hlies⟩ := hmoment.lies
    exact hlies.loopFree (hfree first hfirst)
  have hanswers : ∀ made, CallTree.Makes (fun call : Code × State =>
      Code.execute run.setting call.1 call.2) (Program.steps run.program run.state) made →
      ∃ given, CallTree.Answers (fun call : Code × State =>
        Code.execute run.setting call.1 call.2) made given := by
    intro made hmakes
    have hsmaller : ∀ call made, run.Comes call → run.Makes call.1 call.2 made →
        run.Comes made ∧ Run.Smaller run.setting.config.maxCallDepth made call :=
      fun call made hcomes hmade => ⟨hcomes.tail hmade, hmade.smaller (hcode call hcomes)⟩
    have hwf := Run.wellFounded_smaller run.setting.config.maxCallDepth
    exact CallTree.exists_answers_of_makes hwf hsmaller hmakes.comes
  obtain ⟨⟨result, reached⟩, hends⟩ := CallTree.exists_ends_of_makes hanswers
  exact ⟨result, reached, hends⟩

namespace Session

variable {host : Host} {session : Session} {source : String}

theorem loopFree_of_begin? {run : Run} (h : session.begin? host source = some run)
    (hfree : Program.LoopFree source) : Stmt.AllLoopFree run.program := by
  unfold begin? at h
  split at h
  · rename_i program depths nextId hprepare
    cases h
    obtain ⟨tokens, hscan, hprogram, -⟩ := prepare_eq_ok_iff.1 hprepare
    exact hfree tokens _ program nextId hscan hprogram
  · cases h

/-- A text that begins no run is rejected. -/
theorem exists_failure_of_begin? (h : session.begin? host source = none) :
    ∃ failure, (session.prepare source).1 = .error failure := by
  unfold begin? at h
  split at h
  · cases h
  · rename_i failure _ hprepare
    exact ⟨failure, congrArg Prod.fst hprepare⟩

end Session

namespace History

variable {host : Host} {config : Config} {past : List Run} {session : Session} {source : String}
  {sources : List String}

/-- A text without loops comes to an end after others without loops. -/
theorem exists_run (h : History host config past session)
    (hpast : ∀ run ∈ past, Stmt.AllLoopFree run.program) (hfree : Program.LoopFree source) :
    ∃ report after rounds, session.run host rounds source = some (report, after) := by
  cases hbegin : session.begin? host source with
  | none =>
    obtain ⟨failure, hfailure⟩ := Session.exists_failure_of_begin? hbegin
    exact ⟨_, _, Session.exists_run_iff.2 (.inl ⟨failure, hfailure, rfl, rfl⟩)⟩
  | some run =>
    have hall : ∀ first ∈ run :: past, Stmt.AllLoopFree first.program :=
      List.forall_mem_cons.2 ⟨Session.loopFree_of_begin? hbegin hfree, hpast⟩
    obtain ⟨result, reached, hends⟩ := (h.begun hbegin).exists_ends hall
    exact ⟨_, _, Session.exists_run_iff.2 (.inr ⟨run, result, reached, hbegin, hends, rfl, rfl⟩)⟩

/-- So do texts without loops one after another. -/
theorem exists_runAll (h : History host config past session)
    (hpast : ∀ run ∈ past, Stmt.AllLoopFree run.program)
    (hfree : ∀ source ∈ sources, Program.LoopFree source) :
    ∃ rounds reports after, session.runAll host rounds sources = some (reports, after) := by
  induction sources generalizing past session with
  | nil => exact ⟨0, [], session, rfl⟩
  | cons source sources ih =>
    obtain ⟨hfirst, hothers⟩ := List.forall_mem_cons.1 hfree
    obtain ⟨report, after, rounds, hrun⟩ := h.exists_run hpast hfirst
    have hpast' : ∀ run ∈ (session.begin? host source).toList ++ past,
        Stmt.AllLoopFree run.program := by
      refine List.forall_mem_append.2 ⟨fun run hbegin => ?_, hpast⟩
      exact Session.loopFree_of_begin? (Option.mem_toList.1 hbegin) hfirst
    obtain ⟨rounds', reports, last, hrunAll⟩ := ih (h.run hrun) hpast' hothers
    refine ⟨max rounds rounds', report :: reports, last, ?_⟩
    unfold Session.runAll
    rw [Session.run_mono (Nat.le_max_left _ _) hrun]
    dsimp only
    rw [Session.runAll_mono (Nat.le_max_right _ _) hrunAll]

end History

theorem Session.length_of_runAll {host : Host} {session after : Session} {sources : List String}
    {rounds : Nat} {reports : List Report}
    (h : session.runAll host rounds sources = some (reports, after)) :
    reports.length = sources.length := by
  induction sources generalizing session reports with
  | nil =>
    cases h
    rfl
  | cons source sources ih =>
    unfold runAll at h
    split at h
    · cases h
    · split at h
      · cases h
      · rename_i hrunAll
        cases h
        exact congrArg Nat.succ (ih hrunAll)

/-- Programs without loops end. Whatever the configuration, texts without loops that are run one
after another in a session all come to an end, each with a report of success or of a failure,
whatever functions they call and however often these call themselves; and any larger number of
rounds leads to the same. -/
theorem Session.ends_without_loops (host : Host) (config : Config) (sources : List String)
    (hfree : ∀ source ∈ sources, Program.LoopFree source) :
    ∃ rounds reports session, reports.length = sources.length ∧
      ∀ rounds', rounds ≤ rounds' →
        (start config).runAll host rounds' sources = some (reports, session) := by
  have hstart : History host config [] (start config) := .start
  obtain ⟨rounds, reports, session, hrunAll⟩ := hstart.exists_runAll (List.forall_mem_nil _) hfree
  refine ⟨rounds, reports, session, ?_, fun rounds' hle => runAll_mono hle hrunAll⟩
  exact length_of_runAll hrunAll

/-- Two texts with a function that calls itself often enough, which is called by the name of a
variable in the second text, and one that calls itself for ever. -/
def recursiveTexts : List String :=
  ["fun f(n) { if (n > 0) f(n - 1); print n; } var g = f;",
    "fun forever() { forever(); } g(1); forever();"]

theorem loopFree_of_mem_recursiveTexts (source : String) (h : source ∈ recursiveTexts) :
    Program.LoopFree source := by
  have hnone : ∀ source ∈ recursiveTexts,
      (Token.scan source).map (·.all fun token => token.kind ≠ .while ∧ token.kind ≠ .for) =
        .ok true := by
    simp only [recursiveTexts, List.forall_mem_cons]
    exact ⟨rfl, rfl, List.forall_mem_nil _⟩
  apply Program.loopFree_of_tokens
  rintro tokens hscan token htoken hstarts
  have hall := hnone source h
  rw [hscan] at hall
  have hkind := List.all_eq_true.1 (Except.ok.inj hall) token htoken
  obtain ⟨hwhile, hfor⟩ := of_decide_eq_true hkind
  exact hstarts.elim hwhile hfor

/-- They come to an end with three calls at most: the first function has done its work, and the
second one has been stopped. -/
theorem Session.ends_without_loops_in_recursion :
    (∀ source ∈ recursiveTexts, Program.LoopFree source) ∧
      ∃ rounds reports session, reports.map Report.output = ["", "0\n1\n"] ∧
        ∀ rounds', rounds ≤ rounds' →
          (start ⟨true, 3, false⟩).runAll ⟨fun _ => .unset, fun _ => 0⟩ rounds' recursiveTexts =
            some (reports, session) := by
  refine ⟨loopFree_of_mem_recursiveTexts, ?_⟩
  obtain ⟨rounds, reports, session, -, hruns⟩ := ends_without_loops ⟨fun _ => .unset, fun _ => 0⟩
    ⟨true, 3, false⟩ recursiveTexts loopFree_of_mem_recursiveTexts
  have hcomputed : ((start ⟨true, 3, false⟩).runAll ⟨fun _ => .unset, fun _ => 0⟩ 60
      recursiveTexts).map (·.1.map Report.output) = some ["", "0\n1\n"] := by rfl
  obtain ⟨⟨reports', session'⟩, hruns', houtputs⟩ := Option.map_eq_some_iff.1 hcomputed
  have hsame := runAll_mono (Nat.le_max_right rounds 60) hruns'
  rw [hruns _ (Nat.le_max_left rounds 60)] at hsame
  cases hsame
  exact ⟨rounds, reports, session, houtputs, hruns⟩

end Lox
