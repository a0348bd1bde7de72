/-
# Only declarations make variables

Values change all the time, through assignments and through functions that can see a variable. Which
variables there are changes only where a declaration is executed, and there only in the innermost
frame. Expressions therefore leave all frames with the variables they had, whatever functions they
call, and so do blocks; a statement adds to the innermost frame what is declared in it outside of
blocks and functions. Nothing takes a variable away or moves a frame into another one.

Outside all blocks and functions the innermost frame is that of the global variables. So a text
makes just such global variables as its outermost statements declare
(`Code.only_declarations_add_variables`).
-/

import Lox.Proofs.Execution.Additions
import Lox.Proofs.Execution.Links
import Lox.Proofs.Session.History

namespace Lox

namespace Run

variable {run : Run} {result : Except Fault Unit} {reached : State} {made : Code × State}

/-- A run executes the declaration of a name outside of blocks and functions. -/
def Introduces (run : Run) (name : String) : Prop :=
  ∃ s ∈ run.program, ∃ state, run.Comes (.statement s, state) ∧
    Code.Introduces run.setting (.statement s) state name

/-- What some of the statements of a program add is declared by them. -/
theorem adds_steps {program : List Stmt} {state : State} (hprogram : program ⊆ run.program)
    (hcomes : ∀ made, Routine.Makes (Code.execute run.setting) (Program.steps program) state made →
      run.Comes made) :
    (∀ outcome, Routine.Ends (Code.execute run.setting) (Program.steps program) state outcome →
      state.Adds run.Introduces outcome.2) ∧
    ∀ made, Routine.Makes (Code.execute run.setting) (Program.steps program) state made →
      state.Adds run.Introduces made.2 := by
  induction program generalizing state with
  | nil =>
    refine ⟨fun outcome hends => ?_, fun made hmakes => absurd hmakes Routine.not_makes_pure⟩
    obtain rfl := Routine.ends_pure.1 hends
    exact .refl state
  | cons s ss ih =>
    have hfirst : run.Comes (.statement s, state) := hcomes _ .call
    have hadds : ∀ outcome, Routine.Ends (Code.execute run.setting)
        (Routine.call (.statement s)) state outcome → state.Adds run.Introduces outcome.2 := by
      intro outcome hends
      refine (Code.adds_introduced (Routine.ends_call.1 hends)).mono fun name hname => ?_
      exact ⟨s, hprogram List.mem_cons_self, state, hfirst, hname⟩
    have hrest : ∀ completion reached, Routine.Ends (Code.execute run.setting)
        (Routine.call (.statement s)) state (.ok completion, reached) →
        (∀ outcome, Routine.Ends (Code.execute run.setting) (Program.steps ss) reached outcome →
          reached.Adds run.Introduces outcome.2) ∧
        ∀ made, Routine.Makes (Code.execute run.setting) (Program.steps ss) reached made →
          reached.Adds run.Introduces made.2 := by
      intro completion reached hends
      exact ih (fun _ hmem => hprogram (List.mem_cons_of_mem s hmem)) fun made hmakes =>
        hcomes made (Routine.makes_bind.2 (.inr ⟨completion, reached, hends, hmakes⟩))
    constructor
    · intro outcome hends
      rcases Routine.ends_bind.1 hends with ⟨completion, reached, hs, hss⟩ | ⟨fault, last, hs, rfl⟩
      · exact (hadds _ hs).trans ((hrest completion reached hs).1 outcome hss)
      · exact hadds _ hs
    · intro made hmakes
      rcases Routine.makes_bind.1 hmakes with hmakes | ⟨completion, reached, hs, hmakes⟩
      · obtain rfl := Routine.makes_call.1 hmakes
        exact .refl state
      · exact (hadds _ hs).trans ((hrest completion reached hs).2 made hmakes)

theorem Ends.adds (h : run.Ends result reached) : run.state.Adds run.Introduces reached :=
  (adds_steps (List.Subset.refl _) fun _ hmakes => hmakes.comes).1 _ h

/-- However far a run has got, it has added no other variables to the frames that were there when it
began. -/
theorem Comes.binds {frame : FrameId} {name : String} (h : run.Comes made)
    (hbinds : made.2.store.Binds frame name) (hsize : frame < run.state.store.frames.size) :
    run.state.store.Binds frame name ∨
      some frame = run.state.environment.head? ∧ run.Introduces name := by
  obtain ⟨first, hfirst, hreaches⟩ := h
  have hcomes : run.Comes first := hfirst.comes
  obtain ⟨s, hs, hcode, -⟩ := makes_steps hfirst
  have hadds := (adds_steps (List.Subset.refl _) fun _ hmakes => hmakes.comes).2 first hfirst
  have hsize' := Nat.lt_of_lt_of_le hsize hadds.grows.frames
  rcases Code.binds_of_reaches hreaches hbinds hsize' with hold | ⟨hframe, hname⟩
  · exact hadds.binds frame name hold hsize
  · obtain ⟨code, state⟩ := first
    cases hcode
    rw [hadds.environment] at hframe
    exact .inr ⟨hframe, s, hs, state, hcomes, hname⟩

/-- The statement of a well-formed program that introduces a name is a declaration. -/
theorem Introduces.declared {name : String} (hwf : Stmt.AllWellFormed run.program)
    (h : run.Introduces name) :
    ∃ s ∈ run.program, name ∈ s.declared ∧ ∃ state, run.Comes (.statement s, state) := by
  obtain ⟨s, hs, state, hcomes, hname⟩ := h
  exact ⟨s, hs, hname.declares ((lies_of_mem hs).wellFormed hwf).1, state, hcomes⟩

/-- However a run ends, every frame that was there before is inside the same frame as before. -/
theorem Ends.linked {links : Links} (h : run.Ends result reached)
    (hlinked : run.state.Linked links) :
    State.LinkedAfter links run.state.store.frames.size (fun _ => []) (result, reached) := by
  suffices hsteps : ∀ (program : List Stmt) (state : State) (links : Links),
      state.Linked links →
      ∀ outcome, Routine.Ends (Code.execute run.setting) (Program.steps program) state outcome →
        State.LinkedAfter links state.store.frames.size (fun _ => []) outcome from
    hsteps run.program run.state links hlinked _ h
  intro program
  induction program with
  | nil =>
    intro state links hlinked outcome hends
    obtain rfl := Routine.ends_pure.1 hends
    exact ⟨links, .refl links _, hlinked, fun _ _ value hvalue => absurd hvalue List.not_mem_nil⟩
  | cons s ss ih =>
    intro state links hlinked outcome hends
    rcases Routine.ends_bind.1 hends with ⟨completion, middle, hs, hss⟩ | ⟨fault, last, hs, rfl⟩
    · obtain ⟨links', hextends, hmiddle, -⟩ := Code.linked_of_ends (Routine.ends_call.1 hs) hlinked
      obtain ⟨links'', hextends', hlast, hvalues⟩ := ih middle links' hmiddle outcome hss
      exact ⟨links'', hextends.trans hextends', hlast, hvalues⟩
    · obtain ⟨links', hextends, hlast, -⟩ := Code.linked_of_ends (Routine.ends_call.1 hs) hlinked
      exact ⟨links', hextends, hlast, fun _ _ value hvalue => absurd hvalue List.not_mem_nil⟩

end Run

/-- Between the runs of a session the frames are inside each other, and that of the global variables
is inside none. -/
theorem Chronicle.exists_linked {past : List Run} {state : State} (h : Chronicle past state) :
    ∃ links, state.Linked links := by
  induction h with
  | start => exact ⟨_, .initial⟩
  | @run past run result reached h _ hends ih =>
    obtain ⟨links, hlinked⟩ := ih
    obtain ⟨links', hextends, hreached, -⟩ := hends.linked hlinked
    have hglobals : Environment.Follows links run.state.store.frames.size Store.globals :=
      h.outside.1 ▸ hlinked.environment
    cases result with
    | ok _ => exact ⟨links', hreached.environment, hreached.store⟩
    | error fault => exact ⟨links', hglobals.mono hextends, hreached.store⟩

theorem Begun.globalFrame_lt_size {run : Run} {past : List Run} (h : Begun run past) :
    Store.globalFrame < run.state.store.frames.size :=
  Nat.lt_of_lt_of_le (Nat.zero_lt_one) h.chronicle.grows_initial.frames

/-- A text adds such global variables as the outermost statements of its program declare, and takes
none away, however far it has got. -/
theorem Begun.globals {run : Run} {past : List Run} (h : Begun run past) {state : State}
    (hreached : (∃ code, run.Comes (code, state)) ∨ ∃ result, run.Ends result state)
    (name : String) :
    (run.state.store.Binds Store.globalFrame name → state.store.Binds Store.globalFrame name) ∧
    (state.store.Binds Store.globalFrame name →
      run.state.store.Binds Store.globalFrame name ∨
        ∃ s ∈ run.program, name ∈ s.declared ∧ ∃ before, run.Comes (.statement s, before)) := by
  have hgrows : run.state.Grows state := by
    rcases hreached with ⟨code, hcomes⟩ | ⟨result, hends⟩
    · exact hcomes.grows
    · exact hends.grows
  refine ⟨hgrows.binds _ name, fun hbinds => ?_⟩
  have hadds : run.state.store.Binds Store.globalFrame name ∨
      some Store.globalFrame = run.state.environment.head? ∧ run.Introduces name := by
    rcases hreached with ⟨code, hcomes⟩ | ⟨result, hends⟩
    · exact hcomes.binds hbinds h.globalFrame_lt_size
    · exact hends.adds.binds _ name hbinds h.globalFrame_lt_size
  exact hadds.imp_right fun hnew => hnew.2.declared h.wellFormed

open Code in
/-- Only declarations add variables, and only to the innermost frame. Whatever is executed in
whatever state and setting, of the frames that were there before:
expressions, with all the functions they call, and blocks leave each with the variables it had,
whether they end in a fault or not; a statement takes none away, and adds to the innermost one only
names whose declaration it comes to without going into a block or a function; the same holds at any
time on the way, whether the execution ends or not; and each frame stays inside the frame that it is
inside of. So wherever the run of a text in a session has got, and when it has ended, there are the
global variables from before and only such others as are declared by its outermost statements that
have been come to. -/
theorem Code.only_declarations_add_variables (setting : Setting) (state : State) :
    (∀ e outcome, Routine.Ends (execute setting) (execute setting (.expression e)) state outcome →
      ∀ frame < state.store.frames.size, ∀ name,
        outcome.2.store.Binds frame name ↔ state.store.Binds frame name) ∧
    (∀ ss outcome,
      Routine.Ends (execute setting) (execute setting (.statement (.block ss))) state outcome →
      ∀ frame < state.store.frames.size, ∀ name,
        outcome.2.store.Binds frame name ↔ state.store.Binds frame name) ∧
    (∀ s outcome, Routine.Ends (execute setting) (execute setting (.statement s)) state outcome →
      ∀ frame < state.store.frames.size, ∀ name,
        (state.store.Binds frame name → outcome.2.store.Binds frame name) ∧
        (outcome.2.store.Binds frame name → state.store.Binds frame name ∨
          some frame = state.environment.head? ∧ Introduces setting (.statement s) state name)) ∧
    (∀ code made, CallTree.Reaches (fun call : Code × State => execute setting call.1 call.2)
      (code, state) made → ∀ frame < state.store.frames.size, ∀ name,
        (state.store.Binds frame name → made.2.store.Binds frame name) ∧
        (made.2.store.Binds frame name → state.store.Binds frame name ∨
          some frame = state.environment.head? ∧ Introduces setting code state name)) ∧
    (∀ links, state.Linked links → ∀ code outcome,
      Routine.Ends (execute setting) (execute setting code) state outcome →
      ∃ links', outcome.2.Linked links' ∧
        ∀ frame < state.store.frames.size, links' frame = links frame) ∧
    (∀ host config past session source run, History host config past session →
      session.begin? host source = some run → (∃ links, run.state.Linked links) ∧
      ∀ reached, (∃ code, run.Comes (code, reached)) ∨ (∃ result, run.Ends result reached) →
        ∀ name,
          (run.state.store.Binds Store.globalFrame name →
            reached.store.Binds Store.globalFrame name) ∧
          (reached.store.Binds Store.globalFrame name →
            run.state.store.Binds Store.globalFrame name ∨
              ∃ s ∈ run.program, name ∈ s.declared ∧
                ∃ before, run.Comes (.statement s, before))) := by
  refine ⟨fun e outcome h frame hsize name => ?_, fun ss outcome h frame hsize name => ?_,
    fun s outcome h frame hsize name => ?_, fun code made h frame hsize name => ?_,
    fun links hlinked code outcome h => ?_,
    fun host config past session source run h hbegin => ?_⟩
  · have hadds := adds_introduced h
    refine ⟨fun hbinds => ?_, hadds.grows.binds frame name⟩
    exact (hadds.binds frame name hbinds hsize).resolve_right fun hnew =>
      not_introduces_expression hnew.2
  · have hadds := adds_introduced h
    refine ⟨fun hbinds => ?_, hadds.grows.binds frame name⟩
    exact (hadds.binds frame name hbinds hsize).resolve_right fun hnew =>
      not_introduces_block hnew.2
  · have hadds := adds_introduced h
    exact ⟨hadds.grows.binds frame name, fun hbinds => hadds.binds frame name hbinds hsize⟩
  · have hgrows : state.Grows made.2 := Routine.le_of_reaches climbs_execute h
    exact ⟨hgrows.binds frame name, fun hbinds => binds_of_reaches h hbinds hsize⟩
  · obtain ⟨links', hextends, hlast, -⟩ := linked_of_ends h hlinked
    exact ⟨links', hlast, hextends.same⟩
  · have hbegun := h.begun hbegin
    exact ⟨hbegun.chronicle.exists_linked, fun reached hreached name =>
      hbegun.globals hreached name⟩

/-- A text with a function that has variables of its own, and a call of it. -/
def ownVariables : String := "fun f(p) { var x = p; { var y = x; fun g() {} } } f(1);"

/-- The same function without most of them. -/
def ownVariable : FunctionDecl := ⟨.identifier "f" 1, [], [.var (.identifier "x" 1) none]⟩

/-- The state at the start with this function declared does not have its variable, nor does it after
a call. And after the text has declared its function and called it, the function is the one new
global variable. -/
theorem Code.only_declarations_add_variables_in_call :
    (∃ last, Routine.Ends (execute ⟨.default, ∅, ⟨fun _ => .unset, fun _ => 0⟩⟩)
      (execute ⟨.default, ∅, ⟨fun _ => .unset, fun _ => 0⟩⟩ (.expression
        (.call (.read 0 ownVariable.name) ⟨.rightParen, ")", none, 1⟩ [])))
      (State.initial.declare ownVariable) (.ok .nil, last) ∧
      ¬ last.store.Binds Store.globalFrame "x") ∧
    ∃ run reached,
      (Session.start .default).begin? ⟨fun _ => .unset, fun _ => 0⟩ ownVariables = some run ∧
      run.Ends (.ok ()) reached ∧ reached.store.Binds Store.globalFrame "f" ∧
      ∀ name, reached.store.Binds Store.globalFrame name →
        run.state.store.Binds Store.globalFrame name ∨ name = "f" := by
  obtain ⟨hexpressions, -, -, -, -, hsessions⟩ := only_declarations_add_variables
    ⟨.default, ∅, ⟨fun _ => .unset, fun _ => 0⟩⟩ (State.initial.declare ownVariable)
  constructor
  · have hrun : ∃ last, Routine.run (execute ⟨.default, ∅, ⟨fun _ => .unset, fun _ => 0⟩⟩) 20
        (.expression (.call (.read 0 ownVariable.name) ⟨.rightParen, ")", none, 1⟩ []))
        (State.initial.declare ownVariable) = some (.ok .nil, last) := ⟨_, rfl⟩
    obtain ⟨last, hrun⟩ := hrun
    have hends := Routine.exists_run_iff_ends.1 ⟨20, hrun⟩
    refine ⟨last, hends, fun hbinds => ?_⟩
    have hbefore := (hexpressions _ _ hends Store.globalFrame (by decide) "x").1 hbinds
    have hnone : (State.initial.declare ownVariable).store.find? Store.globalFrame "x" = none := rfl
    exact Bool.false_ne_true ((congrArg Option.isSome hnone).symm.trans hbefore)
  · have hcomputed : ((Session.start .default).run ⟨fun _ => .unset, fun _ => 0⟩ 60
        ownVariables).map (fun done => (done.1.result.isOk,
          (done.2.state.store.find? Store.globalFrame "f").isSome)) = some (true, true) := rfl
    have hprogram : ((Session.start .default).begin? ⟨fun _ => .unset, fun _ => 0⟩
        ownVariables).map (fun run => Stmt.allDeclared run.program) = some ["f"] := rfl
    obtain ⟨⟨report, session⟩, hrun, hdone⟩ := Option.map_eq_some_iff.1 hcomputed
    obtain ⟨hok, hbinds⟩ := Prod.mk.inj hdone
    obtain ⟨run, hbegin, hnames⟩ := Option.map_eq_some_iff.1 hprogram
    rcases Session.exists_run_iff.1 ⟨60, hrun⟩ with ⟨failure, -, rfl, -⟩ |
      ⟨run', result, reached, hbegin', hends, rfl, rfl⟩
    · cases hok
    · obtain rfl := Option.some.inj (hbegin.symm.trans hbegin')
      cases result with
      | error fault => cases hok
      | ok _ =>
        refine ⟨run, reached, hbegin, hends, hbinds, fun name hname => ?_⟩
        obtain ⟨-, hglobals⟩ := hsessions _ _ _ _ _ _ .start hbegin
        refine ((hglobals reached (.inr ⟨_, hends⟩) name).2 hname).imp_right ?_
        rintro ⟨s, hs, hdeclared, -⟩
        have hmem : name ∈ Stmt.allDeclared run.program := List.mem_flatMap.2 ⟨s, hs, hdeclared⟩
        rw [hnames] at hmem
        exact List.mem_singleton.1 hmem

end Lox
