/-
# What happens in a session

A session runs one text after another. `History` says which runs it has behind it. They stand in an
order: whatever has been executed in one run was over before the next began, and the store has only
grown since (`Chronicle`).
-/

import Lox.Proofs.Session.Run

namespace Lox

/-! ## One run after another -/

/-- Runs that have ended, the latest first, and the state they have led to. -/
inductive Chronicle : List Run → State → Prop where
  | start : Chronicle [] .initial
  | run {past : List Run} {run : Run} {result : Except Fault Unit} {reached : State}
      (h : Chronicle past run.state) (hwf : Stmt.AllWellFormed run.program)
      (hends : run.Ends result reached) :
      Chronicle (run :: past) { Program.left result reached with output := "" }

/-- A run has begun after others have ended. -/
structure Begun (run : Run) (past : List Run) : Prop where
  /-- It begins where the others have led. -/
  chronicle : Chronicle past run.state
  /-- Its program is well-formed. -/
  wellFormed : Stmt.AllWellFormed run.program

namespace Chronicle

variable {past : List Run} {state : State} {run : Run}

/-- Each run of a chronicle has begun at some time. -/
theorem begun (h : Chronicle past state) {before after : List Run}
    (hpast : past = after ++ run :: before) : Begun run before := by
  induction h generalizing after with
  | start => cases after <;> cases hpast
  | run h hwf hends ih =>
    cases after with
    | nil =>
      cases hpast
      exact ⟨h, hwf⟩
    | cons later after =>
      cases hpast
      exact ih rfl

/-- Nothing is seen outside a run but the global variables, and no calls are under way. -/
theorem outside (h : Chronicle past state) :
    state.environment = Store.globals ∧ state.callDepth = 0 := by
  induction h with
  | start => exact ⟨rfl, rfl⟩
  | @run _ _ result _ h hwf hends ih =>
    cases result with
    | error fault => exact ⟨rfl, rfl⟩
    | ok _ => exact ⟨hends.sameScope.1.trans ih.1, hends.sameScope.2.trans ih.2⟩

/-- Nothing is kept of what earlier texts have printed. -/
theorem output_eq (h : Chronicle past state) : state.output = "" := by
  cases h <;> rfl

theorem grows_left (result : Except Fault Unit) (reached : State) :
    reached.Grows { Program.left result reached with output := "" } := by
  cases result <;> exact Store.Grows.refl reached.store

/-- Each run of a chronicle has ended, and the store has only grown since. -/
theorem ended (h : Chronicle past state) (hrun : run ∈ past) :
    ∃ result reached, run.Ends result reached ∧ reached.Grows state := by
  induction h with
  | start => cases hrun
  | @run _ _ result reached h hwf hends ih =>
    rcases List.mem_cons.1 hrun with rfl | hrun
    · exact ⟨_, _, hends, grows_left _ _⟩
    · obtain ⟨result', reached', hends', hgrows⟩ := ih hrun
      have hlater := trans_of State.Grows hends.grows (grows_left result reached)
      exact ⟨result', reached', hends', trans_of State.Grows hgrows hlater⟩

/-- The store has only grown since the start. -/
theorem grows_initial (h : Chronicle past state) : State.initial.Grows state := by
  induction h with
  | start => exact refl_of State.Grows _
  | run h hwf hends ih =>
    exact trans_of State.Grows ih (trans_of State.Grows hends.grows (grows_left _ _))

end Chronicle

namespace Begun

variable {past : List Run} {run first second : Run}

/-- Every run before has begun behind the runs before it. -/
theorem of_suffix {before : List Run} (h : Begun run past)
    (hsuffix : first :: before <:+ run :: past) : Begun first before := by
  obtain ⟨_ | ⟨later, after⟩, hpast⟩ := hsuffix
  · cases hpast
    exact h
  · cases hpast
    exact h.chronicle.begun rfl

theorem grows_initial (h : Begun run past) (hfirst : first ∈ run :: past) :
    State.initial.Grows first.state := by
  obtain ⟨after, before, hpast⟩ := List.append_of_mem hfirst
  have hbegun : Begun first before := h.of_suffix ⟨after, hpast.symm⟩
  exact hbegun.chronicle.grows_initial

/-- Of two runs one has ended before the other begins. -/
theorem ordered (h : Begun run past) (hfirst : first ∈ run :: past)
    (hsecond : second ∈ run :: past) :
    first = second ∨
      (∃ result reached, first.Ends result reached ∧ reached.Grows second.state) ∨
        ∃ result reached, second.Ends result reached ∧ reached.Grows first.state := by
  induction past generalizing run with
  | nil =>
    rw [List.mem_singleton] at hfirst hsecond
    exact .inl (hfirst.trans hsecond.symm)
  | cons earlier past ih =>
    rcases List.mem_cons.1 hfirst with rfl | hfirst'
    · rcases List.mem_cons.1 hsecond with rfl | hsecond'
      · exact .inl rfl
      · exact .inr (.inr (h.chronicle.ended hsecond'))
    · rcases List.mem_cons.1 hsecond with rfl | hsecond'
      · exact .inr (.inl (h.chronicle.ended hfirst'))
      · exact ih (h.chronicle.begun (List.nil_append _).symm) hfirst' hsecond'

variable {made made' : Code × State}

/-- Of two pieces of code executed in a session one is executed within the other, or one is over
before the other begins. -/
theorem ordered_comes (h : Begun run past) (hfirst : first ∈ run :: past)
    (hsecond : second ∈ run :: past) (hcomes : first.Comes made) (hcomes' : second.Comes made') :
    (first = second ∧ (first.Reaches made made' ∨ second.Reaches made' made)) ∨
      (∃ outcome, first.Answers made.1 made.2 outcome ∧ outcome.2.Grows made'.2) ∨
        ∃ outcome, second.Answers made'.1 made'.2 outcome ∧ outcome.2.Grows made.2 := by
  rcases h.ordered hfirst hsecond with rfl | ⟨result, reached, hends, hgrows⟩ |
    ⟨result, reached, hends, hgrows⟩
  · rcases hcomes.ordered hcomes' with h | h | h | h
    · exact .inl ⟨rfl, .inl h⟩
    · exact .inl ⟨rfl, .inr h⟩
    · exact .inr (.inl h)
    · exact .inr (.inr h)
  · obtain ⟨outcome, houtcome, hle⟩ := hcomes.answers hends
    exact .inr (.inl ⟨outcome, houtcome,
      trans_of State.Grows hle (trans_of State.Grows hgrows hcomes'.grows)⟩)
  · obtain ⟨outcome, houtcome, hle⟩ := hcomes'.answers hends
    exact .inr (.inr ⟨outcome, houtcome,
      trans_of State.Grows hle (trans_of State.Grows hgrows hcomes.grows)⟩)

end Begun

/-! ## Sessions -/

/-- The runs that a session has behind it, the latest first, since it was started with a
configuration on a host. -/
inductive History (host : Host) (config : Config) : List Run → Session → Prop where
  | start : History host config [] (.start config)
  | run {past : List Run} {session session' : Session} {source : String} {rounds : Nat}
      {report : Report} (h : History host config past session)
      (hrun : session.run host rounds source = some (report, session')) :
      History host config ((session.begin? host source).toList ++ past) session'

namespace History

variable {host : Host} {config : Config} {past : List Run} {session : Session} {source : String}
  {run : Run}

theorem config_eq (h : History host config past session) : session.config = config := by
  induction h with
  | start => rfl
  | run h hrun ih => exact (Session.config_of_run hrun).trans ih

theorem setting_eq (h : History host config past session)
    (hbegin : session.begin? host source = some run) :
    run.setting.config = config ∧ run.setting.host = host := by
  obtain ⟨hconfig, hhost⟩ := Session.setting_of_begin? hbegin
  exact ⟨hconfig.trans h.config_eq, hhost⟩

theorem chronicle (h : History host config past session) : Chronicle past session.state := by
  induction h with
  | start => exact .start
  | run h hrun ih =>
    rcases Session.exists_run_iff.1 ⟨_, hrun⟩ with ⟨_, hfailure, -, rfl⟩ |
      ⟨run, result, reached, hsome, hends, -, rfl⟩
    · rw [Session.begin?_eq_none hfailure]
      exact ih
    · obtain ⟨hstart, hwf⟩ := Session.wellFormed_of_begin? hsome
      rw [hsome]
      rw [← hstart] at ih
      exact .run ih hwf hends

/-- The run of a text begins where the runs before have led. -/
theorem begun (h : History host config past session)
    (hbegin : session.begin? host source = some run) : Begun run past := by
  obtain ⟨hstart, hwf⟩ := Session.wellFormed_of_begin? hbegin
  exact ⟨hstart ▸ h.chronicle, hwf⟩

end History

end Lox
