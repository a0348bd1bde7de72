/-
# The run of a text

A text that is accepted begins a run: its program is executed from the state that the session is in.
`Run` is such an execution, in a setting and from a state that do not depend on how it goes, and
`Run.Comes` relates it to all code that comes to be executed in it, whether it ends or not. Of any
two pieces of code executed in a run one is executed within the other, or one is over before the
other begins.

The machine gets a bound on its rounds, and a bound that lets a text end does not change what it
comes to. So the bound can be forgotten: a text is run to a report exactly if it is rejected with
that report, or the run that it begins ends with that result (`Session.exists_run_iff`).
-/

import Lox.Session
import Lox.Proofs.CallTree.Following
import Lox.Proofs.Execution.Growth
import Lox.Proofs.Grammar.WellFormed

namespace Lox

theorem Routine.run_mono {P σ ε : Type} {R : P → Type} {body : (p : P) → Routine σ ε R (R p)}
    {p : P} {state : σ} {rounds rounds' : Nat} {outcome : Outcome σ ε (R p)}
    (hle : rounds ≤ rounds') (h : run body rounds p state = some outcome) :
    run body rounds' p state = some outcome := by
  induction hle with
  | refl => exact h
  | step _ ih => exact CallTree.run_succ ih

namespace Program

/-- The statements of a program, one after another. -/
def steps : (program : List Stmt) → Code.Step Unit
  | [] => pure ()
  | s :: ss => do
    let _ ← (Routine.call (Code.statement s) : Code.Step Completion)
    steps ss

/-- What is left of a state once a program has ended. -/
def left (result : Except Fault Unit) (reached : State) : State :=
  match result with
  | .ok _ => reached
  | .error _ => reached.settle

variable {setting : Setting} {program : List Stmt} {state state' : State} {rounds rounds' : Nat}
  {result : Except Fault Unit}

theorem ends_of_execute (h : execute setting rounds program state = some (result, state')) :
    ∃ reached, Routine.Ends (Code.execute setting) (steps program) state (result, reached) ∧
      state' = left result reached := by
  induction program generalizing state with
  | nil =>
    cases h
    exact ⟨_, Routine.ends_pure.2 rfl, rfl⟩
  | cons s ss ih =>
    unfold execute at h
    split at h
    · cases h
    · rename_i completion reached hrun
      obtain ⟨last, hlast, hleft⟩ := ih h
      have hends := Routine.ends_call.2 (Routine.exists_run_iff_ends.1 ⟨rounds, hrun⟩)
      exact ⟨last, hends.bind hlast, hleft⟩
    · rename_i fault reached hrun
      cases h
      have hends := Routine.ends_call.2 (Routine.exists_run_iff_ends.1 ⟨rounds, hrun⟩)
      exact ⟨reached, hends.bind_error, rfl⟩

theorem execute_mono (hle : rounds ≤ rounds')
    (h : execute setting rounds program state = some (result, state')) :
    execute setting rounds' program state = some (result, state') := by
  induction program generalizing state with
  | nil => exact h
  | cons s ss ih =>
    unfold execute at h ⊢
    split at h
    · cases h
    · rename_i completion reached hrun
      rw [Routine.run_mono hle hrun]
      exact ih h
    · rename_i fault reached hrun
      rw [Routine.run_mono hle hrun]
      exact h

/-- Whatever a program ends with, some number of rounds is enough for it. -/
theorem exists_execute_of_ends {reached : State}
    (h : Routine.Ends (Code.execute setting) (steps program) state (result, reached)) :
    ∃ rounds, execute setting rounds program state = some (result, left result reached) := by
  induction program generalizing state with
  | nil =>
    cases Routine.ends_pure.1 h
    exact ⟨0, rfl⟩
  | cons s ss ih =>
    rcases Routine.ends_bind.1 h with ⟨completion, middle, hfirst, hrest⟩ | ⟨fault, last, hfirst, h⟩
    · obtain ⟨rounds, hrun⟩ := Routine.exists_run_iff_ends.2 (Routine.ends_call.1 hfirst)
      obtain ⟨rounds', hexecute⟩ := ih hrest
      refine ⟨max rounds rounds', ?_⟩
      unfold execute
      rw [Routine.run_mono (Nat.le_max_left _ _) hrun]
      exact execute_mono (Nat.le_max_right _ _) hexecute
    · cases h
      obtain ⟨rounds, hrun⟩ := Routine.exists_run_iff_ends.2 (Routine.ends_call.1 hfirst)
      refine ⟨rounds, ?_⟩
      unfold execute
      rw [hrun]
      rfl

end Program

/-- The execution of a program. -/
structure Run where
  /-- What it is executed in. -/
  setting : Setting
  /-- The program. -/
  program : List Stmt
  /-- The state at the start. -/
  state : State

namespace Run

/-- A run ends with a result in a state. -/
def Ends (run : Run) (result : Except Fault Unit) (reached : State) : Prop :=
  Routine.Ends (Code.execute run.setting) (Program.steps run.program) run.state (result, reached)

/-- Code that is executed in a run ends in an outcome. -/
def Answers (run : Run) (code : Code) (state : State) (outcome : Outcome State Fault code.Result) :
    Prop :=
  Routine.Ends (Code.execute run.setting) (Code.execute run.setting code) state outcome

/-- Executing code in a run comes directly to other code. -/
def Makes (run : Run) (code : Code) (state : State) (made : Code × State) : Prop :=
  Routine.Makes (Code.execute run.setting) (Code.execute run.setting code) state made

/-- A run comes to execute code. -/
def Comes (run : Run) (made : Code × State) : Prop :=
  CallTree.Comes (fun call : Code × State => Code.execute run.setting call.1 call.2)
    (Program.steps run.program run.state) made

/-- Executing code in a run comes to executing other code, directly or through code in between. -/
def Reaches (run : Run) (call made : Code × State) : Prop :=
  CallTree.Reaches (fun call : Code × State => Code.execute run.setting call.1 call.2) call made

variable {run : Run} {call made made' : Code × State} {result : Except Fault Unit} {reached : State}

theorem Comes.tail (h : run.Comes call) (hmakes : run.Makes call.1 call.2 made) : run.Comes made :=
  CallTree.Comes.tail h hmakes

/-! ## The store grows throughout a run -/

theorem rises_steps (program : List Stmt) : Routine.Rises State.Grows (Program.steps program) := by
  induction program with
  | nil => exact Routine.rises_pure
  | cons s ss ih => exact .bind Routine.rises_call fun _ => ih

theorem keeps_steps (program : List Stmt) :
    Routine.Keeps State.SameScope (Program.steps program) := by
  induction program with
  | nil => exact Routine.keeps_pure
  | cons s ss ih => exact .bind Routine.keeps_call fun _ => ih

section Order

private theorem climbs_steps (run : Run) :
    Routine.Climbs State.Grows (fun outcome : Outcome State Fault Unit => outcome.2) run.state
      (Program.steps run.program run.state) :=
  rises_steps run.program run.state run.state (refl_of State.Grows run.state)

theorem Ends.grows (h : run.Ends result reached) : run.state.Grows reached :=
  Code.grows_of_ends (rises_steps run.program) h

theorem Answers.grows {code : Code} {state : State} {outcome : Outcome State Fault code.Result}
    (h : run.Answers code state outcome) : state.Grows outcome.2 :=
  Code.grows_of_ends (Code.rises_execute code) h

theorem Makes.grows {code : Code} {state : State} (h : run.Makes code state made) :
    state.Grows made.2 :=
  Routine.le_of_makes Code.climbs_execute (Code.climbs_execute (code, state)) h

theorem Reaches.grows (h : run.Reaches call made) : call.2.Grows made.2 :=
  Routine.le_of_reaches Code.climbs_execute h

theorem Comes.grows (h : run.Comes made) : run.state.Grows made.2 :=
  Routine.le_of_comes Code.climbs_execute run.climbs_steps h

/-- What has been executed in a run that has ended was over before the end. -/
theorem Comes.answers (h : run.Comes made) (hends : run.Ends result reached) :
    ∃ outcome, run.Answers made.1 made.2 outcome ∧ outcome.2.Grows reached :=
  Routine.answers_of_comes Code.climbs_execute run.climbs_steps hends h

theorem Reaches.answers {outcome : Outcome State Fault call.1.Result} (h : run.Reaches call made)
    (hanswers : run.Answers call.1 call.2 outcome) :
    ∃ outcome', run.Answers made.1 made.2 outcome' ∧ outcome'.2.Grows outcome.2 :=
  Routine.answers_of_reaches Code.climbs_execute hanswers h

/-- Of two pieces of code executed in a run one is executed within the other, or one is over before
the other begins. -/
theorem Comes.ordered (h : run.Comes made) (h' : run.Comes made') :
    run.Reaches made made' ∨ run.Reaches made' made ∨
      (∃ outcome, run.Answers made.1 made.2 outcome ∧ outcome.2.Grows made'.2) ∨
        ∃ outcome, run.Answers made'.1 made'.2 outcome ∧ outcome.2.Grows made.2 :=
  Routine.comes_ordered Code.climbs_execute run.climbs_steps h h'

end Order

/-- Code ends with the same in sight as it begins with. -/
theorem Answers.sameScope {code : Code} {state : State}
    {outcome : Outcome State Fault code.Result} (h : run.Answers code state outcome) :
    state.SameScope outcome.2 :=
  Code.sameScope_of_ends (Code.keeps_execute code) h

theorem Ends.sameScope (h : run.Ends result reached) : run.state.SameScope reached :=
  Code.sameScope_of_ends (keeps_steps run.program) h

/-- A run comes directly to the statements of its program, and nothing else is in sight then than at
the start. -/
theorem makes_steps {setting : Setting} {program : List Stmt} {state : State}
    (h : Routine.Makes (Code.execute setting) (Program.steps program) state made) :
    ∃ s ∈ program, made.1 = .statement s ∧ state.SameScope made.2 := by
  induction program generalizing state with
  | nil => exact absurd h Routine.not_makes_pure
  | cons s ss ih =>
    rcases Routine.makes_bind.1 h with h | ⟨completion, reached, hends, h⟩
    · obtain rfl := Routine.makes_call.1 h
      exact ⟨s, List.mem_cons_self, rfl, refl_of State.SameScope state⟩
    · obtain ⟨s', hs', hcode, hscope⟩ := ih h
      have hscope' : state.SameScope reached := Code.sameScope_of_ends Routine.keeps_call hends
      exact ⟨s', List.mem_cons_of_mem s hs', hcode, trans_of State.SameScope hscope' hscope⟩

/-! ## Runs in another setting -/

/-- Whatever a run comes to does the same in another setting, as far as it gets. -/
def FollowedIn (run : Run) (setting' : Setting) : Prop :=
  ∀ call, run.Comes call →
    CallTree.Follows (fun call : Code × State => Code.execute run.setting call.1 call.2) run.Comes
      (Code.execute run.setting call.1 call.2) (Code.execute setting' call.1 call.2)

namespace FollowedIn

variable {setting' : Setting} (h : run.FollowedIn setting')
include h

/-- Then the run comes to the same code there, in the same states, whether it ends or not. -/
theorem comes_iff : ({ run with setting := setting' } : Run).Comes made ↔ run.Comes made :=
  (CallTree.Follows.comes_iff h (CallTree.follows_self fun _ hmade => hmade.comes)).symm

/-- And it ends there in the same way, within the same number of rounds. -/
theorem execute_eq (rounds : Nat) :
    Program.execute setting' rounds run.program run.state =
      Program.execute run.setting rounds run.program run.state := by
  have hsteps : ∀ (program : List Stmt) (state : State),
      (∀ made, Routine.Makes (Code.execute run.setting) (Program.steps program) state made →
        run.Comes made) →
      Program.execute setting' rounds program state =
        Program.execute run.setting rounds program state := by
    intro program
    induction program with
    | nil => exact fun _ _ => rfl
    | cons s ss ih =>
      intro state hcomes
      have hfirst : run.Comes (.statement s, state) := hcomes _ .call
      have hrun : Routine.run (Code.execute run.setting) rounds (.statement s) state =
          Routine.run (Code.execute setting') rounds (.statement s) state :=
        CallTree.Follows.run_eq h (h _ hfirst) rounds
      unfold Program.execute
      rw [← hrun]
      split
      · rfl
      · rename_i completion reached hreached
        refine ih reached fun made hmade => hcomes made (Routine.makes_bind.2 (.inr ?_))
        exact ⟨completion, reached,
          Routine.ends_call.2 (Routine.exists_run_iff_ends.1 ⟨rounds, hreached⟩), hmade⟩
      · rfl
  exact hsteps run.program run.state fun made hmade => CallTree.Makes.comes hmade

end FollowedIn

end Run

/-! ## Sessions -/

/-- The run that a text begins in a session, if it is not rejected. -/
def Session.begin? (host : Host) (session : Session) (source : String) : Option Run :=
  match session.prepare source with
  | (.ok (program, depths), _) =>
    some ⟨⟨session.config, (session.learn depths).depths, host⟩, program, session.state⟩
  | (.error _, _) => none

namespace Session

variable {host : Host} {session session' : Session} {source : String} {rounds : Nat}
  {report : Report}

/-- What is prepared is the program that the text is read as, with its depths if they are wanted. -/
theorem prepare_eq_ok_iff {program : List Stmt} {depths : BindingDepths} {nextId : AccessId} :
    session.prepare source = (.ok (program, depths), nextId) ↔
      ∃ tokens, Token.scan source = .ok tokens ∧
        Program.ofTokens tokens session.nextId = (.ok program, nextId) ∧
        if session.config.useResolver then Program.bindingDepths program = .ok depths
        else depths = ∅ := by
  unfold prepare
  cases Token.scan source with
  | error errors =>
    constructor
    · rintro ⟨⟩
    · rintro ⟨tokens, ⟨⟩, -⟩
  | ok tokens =>
    simp only [Except.ok.injEq, exists_eq_left']
    obtain ⟨errors | program', nextId'⟩ := Program.ofTokens tokens session.nextId
    · constructor
      · rintro ⟨⟩
      · rintro ⟨⟨⟩, -⟩
    · dsimp only
      split
      · cases hdepths : Program.bindingDepths program' with
        | error errors =>
          constructor
          · rintro ⟨⟩
          · rintro ⟨⟨⟩, hsome⟩
            cases hdepths.symm.trans hsome
        | ok found =>
          constructor
          · rintro ⟨⟩
            exact ⟨rfl, hdepths⟩
          · rintro ⟨⟨⟩, hsome⟩
            cases hdepths.symm.trans hsome
            rfl
      · constructor
        · rintro ⟨⟩
          exact ⟨rfl, rfl⟩
        · rintro ⟨⟨⟩, rfl⟩
          rfl

/-- A text begins the run of the program that it is read as, if nothing is wrong with it. -/
theorem begin?_eq_some (host : Host) {tokens : List Token} {program : List Stmt}
    {depths : BindingDepths} {nextId : AccessId} (hscan : Token.scan source = .ok tokens)
    (hprogram : Program.ofTokens tokens session.nextId = (.ok program, nextId))
    (hdepths : if session.config.useResolver then Program.bindingDepths program = .ok depths
      else depths = ∅) :
    session.begin? host source =
      some ⟨⟨session.config, (session.learn depths).depths, host⟩, program, session.state⟩ := by
  unfold begin?
  rw [prepare_eq_ok_iff.2 ⟨tokens, hscan, hprogram, hdepths⟩]

/-- The program of a run is one that was accepted. -/
theorem wellFormed_of_begin? {run : Run} (h : session.begin? host source = some run) :
    run.state = session.state ∧ Stmt.AllWellFormed run.program := by
  unfold begin? at h
  split at h
  · rename_i program depths nextId hprepare
    cases h
    obtain ⟨tokens, -, hprogram, -⟩ := prepare_eq_ok_iff.1 hprepare
    exact ⟨rfl, Program.wellFormed_of_ofTokens hprogram⟩
  · cases h

/-- A run is executed as its session says, on the host. -/
theorem setting_of_begin? {run : Run} (h : session.begin? host source = some run) :
    run.setting.config = session.config ∧ run.setting.host = host := by
  unfold begin? at h
  split at h
  · cases h
    exact ⟨rfl, rfl⟩
  · cases h

theorem begin?_eq_none {failure : Failure} (h : (session.prepare source).1 = .error failure) :
    session.begin? host source = none := by
  unfold begin?
  split
  · rename_i hprepare
    rw [hprepare] at h
    cases h
  · rfl

/-- What a session comes to when a run in it has ended. -/
def after (session : Session) (source : String) (depths : DepthTable)
    (result : Except Fault Unit) (reached : State) : Session :=
  ⟨session.config, (session.prepare source).2, depths,
    { Program.left result reached with output := "" }⟩

/-- A text is rejected, or the run that it begins ends. -/
theorem exists_run_iff :
    (∃ rounds, session.run host rounds source = some (report, session')) ↔
      (∃ failure, (session.prepare source).1 = .error failure ∧ report = ⟨.error failure, ""⟩ ∧
        session' = { session with nextId := (session.prepare source).2 }) ∨
      ∃ run result reached, session.begin? host source = some run ∧ run.Ends result reached ∧
        report = ⟨result.mapError .runtime, reached.output⟩ ∧
        session' = session.after source run.setting.depths result reached := by
  have houtput : ∀ (result : Except Fault Unit) (reached : State),
      (Program.left result reached).output = reached.output := by
    intro result reached
    cases result <;> rfl
  unfold run begin? after
  generalize session.prepare source = prepared
  obtain ⟨failure | ⟨program, depths⟩, nextId⟩ := prepared
  · constructor
    · rintro ⟨rounds, h⟩
      cases h
      exact .inl ⟨failure, rfl, rfl, rfl⟩
    · rintro (⟨_, hfailure, rfl, rfl⟩ | ⟨_, _, _, hnone, -⟩)
      · cases hfailure
        exact ⟨0, rfl⟩
      · cases hnone
  · constructor
    · rintro ⟨rounds, h⟩
      unfold execute at h
      dsimp only at h
      split at h
      · cases h
      · rename_i result output session'' hexecute
        split at hexecute
        · cases hexecute
        · rename_i result' state hprogram
          cases hexecute
          cases h
          obtain ⟨reached, hends, rfl⟩ := Program.ends_of_execute hprogram
          rw [houtput]
          exact .inr ⟨_, _, reached, rfl, hends, rfl, rfl⟩
    · rintro (⟨_, hfailure, -⟩ | ⟨run, result, reached, hsome, hends, rfl, rfl⟩)
      · cases hfailure
      · cases hsome
        obtain ⟨rounds, hexecute⟩ := Program.exists_execute_of_ends hends
        refine ⟨rounds, ?_⟩
        unfold execute
        have hstate : (session.learn depths).state = session.state := rfl
        have hconfig : (session.learn depths).config = session.config := rfl
        dsimp only at hexecute ⊢
        rw [hstate, hconfig, hexecute]
        dsimp only
        rw [houtput]

theorem run_mono {rounds' : Nat} (hle : rounds ≤ rounds')
    (h : session.run host rounds source = some (report, session')) :
    session.run host rounds' source = some (report, session') := by
  unfold run at h ⊢
  split at h
  · exact h
  · rename_i program depths nextId hprepare
    unfold execute at h ⊢
    dsimp only at h ⊢
    split at h
    · cases h
    · rename_i result output last hexecute
      split at hexecute
      · cases hexecute
      · rename_i result' state hprogram
        rw [Program.execute_mono hle hprogram]
        cases hexecute
        exact h

/-- What a text is run to does not depend on the bound. -/
theorem run_unique {rounds' : Nat} {outcome outcome' : Report × Session}
    (h : session.run host rounds source = some outcome)
    (h' : session.run host rounds' source = some outcome') : outcome = outcome' := by
  have hmax := run_mono (Nat.le_max_left rounds rounds') h
  have hmax' := run_mono (Nat.le_max_right rounds rounds') h'
  exact Option.some.inj (hmax.symm.trans hmax')

theorem runAll_mono {sources : List String} {rounds' : Nat} {reports : List Report}
    (hle : rounds ≤ rounds') (h : session.runAll host rounds sources = some (reports, session')) :
    session.runAll host rounds' sources = some (reports, session') := by
  induction sources generalizing session reports with
  | nil => exact h
  | cons source sources ih =>
    unfold runAll at h ⊢
    split at h
    · cases h
    · rename_i report next hrun
      rw [run_mono hle hrun]
      dsimp only
      split at h
      · cases h
      · rename_i rest last hrest
        cases h
        rw [ih hrest]

theorem config_of_run (h : session.run host rounds source = some (report, session')) :
    session'.config = session.config := by
  rcases exists_run_iff.1 ⟨rounds, h⟩ with ⟨_, -, -, rfl⟩ | ⟨_, _, _, -, -, -, rfl⟩ <;> rfl

end Session

end Lox
