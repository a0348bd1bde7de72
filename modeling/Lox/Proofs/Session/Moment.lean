/-
# Moments of a session

A moment of a session is when a piece of a program, at its place, comes to be executed in a state.
Execution comes from a piece of code to the pieces within it, at their places. From a call it comes
to the body of the function called; and this stands where the function was declared, in whichever
run that was. So the place of a body is that of the statement which made the function: the function
carries the number that was the next one then, and what could be seen then.

What can be seen at a moment are frames opened for the scopes around the place, from the innermost
outwards, and in them the names declared before the code (`Moment.sees`).
-/

import Lox.Proofs.Session.Layout
import Mathlib.Data.List.Forall2

namespace Lox

/-- Where the body of a function stands that is declared at a place. -/
def Place.within (place : Place) (declaration : FunctionDecl) : Place :=
  place.enterFunction declaration.name declaration.parameters declaration.body

/-- In the latest of some runs, code at a place comes to be executed in a state. -/
inductive Moment : List Run → Place → Code → State → Prop where
  | program {run : Run} {past : List Run} {made : Code × State}
      (hmakes : Routine.Makes (Code.execute run.setting) (Program.steps run.program) run.state
        made) :
      Moment (run :: past) .top made.1 made.2
  | part {run : Run} {past : List Run} {p p' : Place} {code : Code} {state : State}
      {made : Code × State} (h : Moment (run :: past) p code state)
      (hmakes : run.Makes code state made) (hpart : Part p code p' made.1) :
      Moment (run :: past) p' made.1 made.2
  | call {run : Run} {past runs : List Run} {p q : Place} {callee : Expr} {paren : Token}
      {es : List Expr} {state state₀ state' reached : State} {declaration : FunctionDecl}
      (h : Moment (run :: past) p (.expression (.call callee paren es)) state)
      (hdeclared : Moment runs q (.statement declaration.statement) state₀)
      (hruns : runs <:+ run :: past)
      (hcallee : run.Answers (.expression callee) state (.ok (.callable state₀.store.functions
        (.function declaration state₀.environment)), reached))
      (hmakes : run.Makes (.expression (.call callee paren es)) state
        (.body declaration.body, state'))
      (hbefore : state₀.store.functions < state'.store.functions) :
      Moment (run :: past) (q.within declaration) (.body declaration.body) state'

namespace Moment

variable {runs : List Run} {p : Place} {code : Code} {state : State}

theorem comes (h : Moment runs p code state) : ∃ run ∈ runs.head?, run.Comes (code, state) := by
  induction h with
  | program hmakes => exact ⟨_, rfl, CallTree.Makes.comes hmakes⟩
  | part h hmakes hpart ih | call h hdeclared hruns hcallee hmakes hbefore ih =>
    obtain ⟨run, hrun, hcomes⟩ := ih
    cases hrun
    exact ⟨_, rfl, hcomes.tail hmakes⟩

/-- It is the latest run that comes to a moment. -/
theorem comes_latest {run : Run} {past : List Run} (h : Moment (run :: past) p code state) :
    run.Comes (code, state) := by
  obtain ⟨_, hrun, hcomes⟩ := h.comes
  cases hrun
  exact hcomes

/-- The code of a moment stands in a program of one of the runs. -/
theorem lies (h : Moment runs p code state) : ∃ run ∈ runs, Lies run.program p code := by
  induction h with
  | @program run past made hmakes =>
    obtain ⟨s, hs, hcode, -⟩ := Run.makes_steps hmakes
    refine ⟨run, List.mem_cons_self, ?_⟩
    rw [hcode]
    exact lies_of_mem hs
  | part h hmakes hpart ih =>
    obtain ⟨run, hrun, hlies⟩ := ih
    exact ⟨run, hrun, hlies.tail hpart⟩
  | call h hdeclared hruns hcallee hmakes hbefore ih ihDeclared =>
    obtain ⟨run, hrun, hlies⟩ := ihDeclared
    exact ⟨run, hruns.subset hrun, hlies.tail .functionBody⟩

end Moment

/-! ## What can be seen -/

/-- A frame was opened for a scope, and the names that the scope declares before some code are there
already. -/
structure Fits (runs : List Run) (store : Store) (frame : FrameId) (scope : LocalScope) : Prop where
  /-- The frame is in the store. -/
  lt_size : frame < store.frames.size
  /-- It was opened for the scope. -/
  opened : Opened runs frame scope.names
  /-- It has the variables declared before the code. -/
  binds : ∀ name ∈ scope.before, store.Binds frame name

/-- An environment consists of frames for local scopes, and of the frame of the global variables
behind them. -/
def Sees (runs : List Run) (store : Store) (environment : Environment)
    (scopes : List LocalScope) : Prop :=
  ∃ frames, environment = frames ++ Store.globals ∧ List.Forall₂ (Fits runs store) frames scopes

namespace Sees

variable {runs runs' : List Run} {store store' : Store} {environment : Environment}
  {scopes : List LocalScope}

theorem mono (h : Sees runs store environment scopes) (hruns : runs ⊆ runs')
    (hstore : store.Grows store') : Sees runs' store' environment scopes := by
  obtain ⟨frames, henvironment, hfits⟩ := h
  refine ⟨frames, henvironment, hfits.imp fun frame scope hfits => ?_⟩
  exact ⟨Nat.lt_of_lt_of_le hfits.lt_size hstore.frames, hfits.opened.mono hruns,
    fun name hname => hstore.binds frame name (hfits.binds name hname)⟩

theorem enter {frame : FrameId} {scope : LocalScope} (h : Sees runs store environment scopes)
    (hfits : Fits runs store frame scope) :
    Sees runs store (frame :: environment) (scope :: scopes) := by
  obtain ⟨frames, rfl, hall⟩ := h
  exact ⟨frame :: frames, rfl, .cons hfits hall⟩

/-- Behind declarations in the innermost scope, its frame has what they declare. -/
theorem declaring {p : Place} {declared : List String} (h : Sees runs store environment p.scopes)
    (hstore : store.Grows store')
    (hbinds : ∀ frame, some frame = environment.head? → frame < store.frames.size →
      ∀ name ∈ declared, store'.Binds frame name) :
    Sees runs store' environment (p.declaring declared).scopes := by
  obtain ⟨frames, rfl, hall⟩ := h.mono (List.Subset.refl runs) hstore
  obtain ⟨frames', hframes, hall'⟩ := h
  obtain rfl := List.append_cancel_right hframes
  obtain ⟨scopes, inFunction, initializes⟩ := p
  cases hall with
  | nil => exact ⟨[], rfl, .nil⟩
  | @cons frame scope frames scopes hfits hall =>
    refine ⟨frame :: frames, rfl, .cons ⟨hfits.lt_size, hfits.opened, ?_⟩ hall⟩
    intro name hname
    rcases List.mem_append.1 hname with hname | hname
    · have hsize : frame < store.frames.size := (List.forall₂_cons.1 hall').1.lt_size
      exact hbinds frame rfl hsize name hname
    · exact hfits.binds name hname

end Sees

/-- A function that there is was declared before, and so what it declares is there as well. -/
theorem Begun.grows_declare {run first second : Run} {past : List Run}
    {declaration : FunctionDecl} {state₀ state' : State} {code : Code} (h : Begun run past)
    (hfirst : first ∈ run :: past) (hsecond : second ∈ run :: past)
    (hcomes : first.Comes (.statement declaration.statement, state₀))
    (hcomes' : second.Comes (code, state'))
    (hbefore : state₀.store.functions < state'.store.functions) :
    (state₀.declare declaration).Grows state' := by
  rcases h.ordered_comes hfirst hsecond hcomes hcomes' with ⟨rfl, hreaches | hreaches⟩ |
    ⟨outcome, hanswers, hgrows⟩ | ⟨outcome, hanswers, hgrows⟩
  · rcases hreaches.cases_head with h | ⟨made, hmakes, -⟩
    · cases h
      exact absurd hbefore (Nat.lt_irrefl _)
    · exact absurd hmakes Run.not_makes_function
  · have hgrows : state'.Grows state₀ := Run.Reaches.grows hreaches
    exact absurd hbefore (Nat.not_lt.2 hgrows.functions)
  · cases Run.answers_function hanswers
    exact hgrows
  · have hgrows' := trans_of State.Grows hanswers.grows hgrows
    exact absurd hbefore (Nat.not_lt.2 hgrows'.functions)

namespace Moment

variable {runs : List Run} {p : Place} {code : Code} {state : State}

/-- What can be seen at a moment are frames for the scopes around. -/
theorem sees (h : Moment runs p code state)
    (hbegun : ∀ run past, runs = run :: past → Begun run past) :
    Sees runs state.store state.environment p.scopes := by
  induction h with
  | @program run past made hmakes =>
    obtain ⟨s, -, -, hscope⟩ := Run.makes_steps hmakes
    have houtside := (hbegun run past rfl).chronicle.outside.1
    exact ⟨[], hscope.1.trans houtside, .nil⟩
  | @part run past p p' code state made h hmakes hpart ih =>
    have ih := ih hbegun
    have hstay := ih.mono (List.Subset.refl _) hmakes.grows
    have hsame : (∀ ss, made.1 ≠ .body ss) →
        Sees (run :: past) made.2.store made.2.environment p.scopes := by
      intro hnot
      rcases Code.sameScope_of_makes hmakes with ⟨ss, hbody⟩ | hscope
      · exact absurd hbody (hnot ss)
      · rwa [hscope.1]
    obtain ⟨code', state'⟩ := made
    cases hpart with
    | @block ss =>
      cases Run.makes_block.1 hmakes
      refine hstay.enter ⟨?_, ⟨run, List.mem_cons_self, _, h.comes_latest, .block⟩,
        fun name hname => ?_⟩
      · exact Nat.lt_of_lt_of_eq (Nat.lt_succ_self _) (State.size_enter state _).symm
      · cases hname
    | functionBody => exact absurd hmakes Run.not_makes_function
    | otherStatements =>
      rcases Run.makes_body hmakes with hmade | ⟨reached, hanswers, hmade⟩
      · cases hmade
      · cases hmade
        rw [hanswers.sameScope.1]
        exact ih.declaring hanswers.grows fun frame hframe hsize name hname =>
          Run.binds_declared hanswers hframe hsize hname
    | _ => exact hsame fun ss hbody => by cases hbody
  | @call run past runs p q callee paren es state state₀ state' reached declaration h hdeclared
      hruns hcallee hmakes hbefore ih ihDeclared =>
    have hbegun := hbegun run past rfl
    have hcomes := h.comes_latest
    obtain ⟨first, hfirst, hcomesDeclared⟩ := hdeclared.comes
    have hfirst' : first ∈ run :: past := hruns.subset (List.mem_of_mem_head? hfirst)
    have hclosure : Sees (run :: past) state'.store state₀.environment
        (q.declaring [declaration.name.lexeme]).scopes := by
      have hdeclare := hbegun.grows_declare hfirst' List.mem_cons_self hcomesDeclared
        (hcomes.tail hmakes) hbefore
      have hsees := ihDeclared fun earlier before hearlier =>
        hbegun.of_suffix (hearlier ▸ hruns)
      have hdeclaring := hsees.declaring (State.grows_declare state₀ declaration)
        fun frame hframe hsize name hname =>
          State.binds_declare.2 (.inr ⟨hframe, List.mem_singleton.1 hname, hsize⟩)
      exact hdeclaring.mono hruns.subset hdeclare
    obtain ⟨passed, last, hpassed, harity, rfl⟩ := Run.makes_invocation hcallee hmakes
    rw [State.environment_beginCall]
    refine hclosure.enter ⟨?_, ⟨run, List.mem_cons_self, _, hcomes,
      .call hcallee hpassed hmakes⟩, fun name hname => ?_⟩
    · exact Nat.lt_of_lt_of_eq (Nat.lt_succ_self _) (State.size_beginCall _ _ _).symm
    · refine State.binds_beginCall.2 (.inr ⟨rfl, ?_⟩)
      have hzip : (declaration.parameters.zip passed).map Prod.fst = declaration.parameters :=
        List.map_fst_zip (Nat.le_of_eq harity.symm)
      rw [← Function.comp_def Token.lexeme, ← List.map_map, hzip]
      exact hname

end Moment

end Lox
