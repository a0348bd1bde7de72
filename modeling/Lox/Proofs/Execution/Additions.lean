/-
# Which variables execution adds

A variable comes into being by a declaration, and in the innermost frame. So of the frames that are
there when code begins, only the innermost one has new variables when it ends, and only such as are
declared where the execution of the code comes to without going into a block or a function: what
these declare is in a frame of its own (`Code.adds_introduced`). The same holds while the code is
executed, whether it ends or not (`Code.binds_of_reaches`). In well-formed code they are among the
names that the code declares (`Code.adds_of_ends`).
-/

import Lox.Proofs.Execution.Growth
import Lox.Proofs.Scope.Place

namespace Lox

namespace State

variable {names names' : String → Prop} {state before after : State}

/-- Of the frames that were there before, none but the innermost has got new variables, and this one
only such as are allowed. -/
structure Adds (names : String → Prop) (before after : State) : Prop where
  /-- The store has grown. -/
  grows : before.Grows after
  /-- The same can be seen. -/
  environment : after.environment = before.environment
  /-- A variable in a frame that was there before is old or allowed. -/
  binds : ∀ frame name, after.store.Binds frame name → frame < before.store.frames.size →
    before.store.Binds frame name ∨ some frame = before.environment.head? ∧ names name

/-- A new frame is the innermost one, and those that were there before have no new variables. -/
structure Opens (before after : State) : Prop where
  /-- The store has grown. -/
  grows : before.Grows after
  /-- The new frame is in front of what can be seen. -/
  head : after.environment.head? = some before.store.frames.size
  /-- A variable in a frame that was there before is old. -/
  binds : ∀ frame name, after.store.Binds frame name → frame < before.store.frames.size →
    before.store.Binds frame name

theorem opens_enter (state : State) (outer : Environment) : state.Opens (state.enter outer) :=
  ⟨grows_enter state outer, rfl, fun _ _ hbinds _ => (binds_enter outer).1 hbinds⟩

theorem opens_beginCall (state : State) (outer : Environment) (arguments : List (Token × Value)) :
    state.Opens (state.beginCall outer arguments) := by
  refine ⟨grows_beginCall state outer arguments, ?_, fun frame name hbinds hsize => ?_⟩
  · rw [environment_beginCall]
    rfl
  · rcases binds_beginCall.1 hbinds with hbinds | ⟨rfl, -⟩
    · exact hbinds
    · exact absurd hsize (Nat.lt_irrefl _)

/-- What is added to the innermost frame then is not added to those that were there before. -/
theorem Opens.binds_of_head {opened : State} {frame : FrameId} {name : String}
    (h : before.Opens opened) (hsize : frame < before.store.frames.size)
    (hbinds : opened.store.Binds frame name ∨
      some frame = opened.environment.head? ∧ names name) : before.store.Binds frame name := by
  rcases hbinds with hbinds | ⟨hframe, -⟩
  · exact h.binds frame name hbinds hsize
  · rw [h.head] at hframe
    cases hframe
    exact absurd hsize (Nat.lt_irrefl _)

namespace Adds

theorem refl (state : State) : state.Adds names state :=
  ⟨refl_of Grows state, rfl, fun _ _ hbinds _ => .inl hbinds⟩

theorem trans {middle : State} (h : before.Adds names middle) (h' : middle.Adds names after) :
    before.Adds names after := by
  refine ⟨trans_of Grows h.grows h'.grows, h'.environment.trans h.environment, ?_⟩
  intro frame name hbinds hsize
  rcases h'.binds frame name hbinds (Nat.lt_of_lt_of_le hsize h.grows.frames) with hold | hnew
  · exact h.binds frame name hold hsize
  · rw [h.environment] at hnew
    exact .inr hnew

theorem mono (h : before.Adds names after) (hnames : ∀ name, names name → names' name) :
    before.Adds names' after :=
  ⟨h.grows, h.environment, fun frame name hbinds hsize =>
    (h.binds frame name hbinds hsize).imp_right (And.imp_right (hnames name))⟩

theorem define {name : String} {value : Value} (h : names name) :
    state.Adds names (state.define name value) := by
  refine ⟨grows_define state name value, rfl, fun frame name' hbinds _ => ?_⟩
  rcases binds_define.1 hbinds with hold | ⟨hframe, rfl, -⟩
  · exact .inl hold
  · exact .inr ⟨hframe, h⟩

theorem declare {declaration : FunctionDecl} (h : names declaration.name.lexeme) :
    state.Adds names (state.declare declaration) := by
  refine ⟨grows_declare state declaration, rfl, fun frame name' hbinds _ => ?_⟩
  rcases binds_declare.1 hbinds with hold | ⟨hframe, rfl, -⟩
  · exact .inl hold
  · exact .inr ⟨hframe, h⟩

/-- An assignment is to a variable that is there. -/
theorem assign (setting : Setting) (id : AccessId) (name : Token) (value : Value) (state : State) :
    state.Adds names (State.assign setting id name value state).2 := by
  refine ⟨grows_assign setting id name value state,
    (sameScope_assign setting id name value state).1, fun frame name' hbinds _ => .inl ?_⟩
  unfold State.assign at hbinds
  split at hbinds
  · rename_i frame' old hlookup
    rcases Store.binds_insert.1 hbinds with hold | ⟨rfl, rfl, -⟩
    · exact hold
    · exact Option.isSome_iff_exists.2 ⟨old, find?_of_lookup hlookup⟩
  · exact hbinds

/-- What is declared in a frame of its own is not added to the frames around. -/
theorem enclosed {opened last : State} {environment : Environment} {callDepth : Nat}
    (hopens : state.Opens opened) (h : opened.Adds names' last)
    (henvironment : environment = state.environment) :
    state.Adds names { last with environment, callDepth } := by
  refine ⟨trans_of Grows hopens.grows h.grows, henvironment, fun frame name hbinds hsize => .inl ?_⟩
  have hsize' := Nat.lt_of_lt_of_le hsize hopens.grows.frames
  exact hopens.binds_of_head hsize (h.binds frame name hbinds hsize')

end Adds

end State

namespace Code

/-- Executing code comes to the declaration of a name, without going into a block or a function. -/
inductive Introduces (setting : Setting) : Code → State → String → Prop where
  | var {name : Token} {initializer : Option Expr} {state : State} :
      Introduces setting (.statement (.var name initializer)) state name.lexeme
  | function {declaration : FunctionDecl} {state : State} :
      Introduces setting (.statement declaration.statement) state declaration.name.lexeme
  | part {code : Code} {state : State} {place : Place} {made : Code × State} {name : String}
      (hmakes : Routine.Makes (execute setting) (execute setting code) state made)
      (hpart : Part .top code place made.1) (hscopes : place.scopes = [])
      (h : Introduces setting made.1 made.2 name) : Introduces setting code state name

variable {setting : Setting}

/-- Well-formed code declares the names that its execution comes to declare. -/
theorem Introduces.declares {code : Code} {state : State} {name : String}
    (h : Introduces setting code state name) : code.Declares name := by
  induction h with
  | var => exact fun _ => List.mem_cons_self
  | function => exact fun _ => List.mem_cons_self
  | part hmakes hpart hscopes h ih => exact hpart.declares hscopes ih

theorem Introduces.statement {code : Code} {state : State} {name : String}
    (h : Introduces setting code state name) :
    (∃ s, code = .statement s) ∨ ∃ ss, code = .body ss := by
  induction h with
  | var | function => exact .inl ⟨_, rfl⟩
  | @part code state place made name hmakes hpart hscopes h ih =>
    obtain ⟨part, reached⟩ := made
    cases code with
    | expression e | arguments es =>
      rcases ih with ⟨s, rfl⟩ | ⟨ss, rfl⟩ <;> cases hpart
    | statement s => exact .inl ⟨s, rfl⟩
    | body ss => exact .inr ⟨ss, rfl⟩

/-- No expression comes to a declaration but in the body of a function. -/
theorem not_introduces_expression {e : Expr} {state : State} {name : String} :
    ¬ Introduces setting (.expression e) state name := by
  intro h
  rcases h.statement with ⟨s, h⟩ | ⟨ss, h⟩ <;> cases h

/-- What is declared in a block is declared in a scope of its own. -/
theorem not_introduces_block {ss : List Stmt} {state : State} {name : String} :
    ¬ Introduces setting (.statement (.block ss)) state name := by
  intro h
  cases h with
  | @part _ _ place made _ hmakes hpart hscopes h =>
    generalize hcode : made.1 = code at hpart
    cases hpart
    cases hscopes

namespace Built

variable {code : Code} {first : State}
  (hmade : ∀ made given, Routine.Makes (execute setting) (execute setting code) first made →
    Routine.Ends (execute setting) (execute setting made.1) made.2 given →
    made.2.Adds (Introduces setting made.1 made.2) given.2)
include hmade

/-- A step in the execution of some code adds what this comes to declare, if the same holds of
whatever the code comes to. -/
theorem adds {known : List Value} {α : Type} {values : α → List Value} {step : Step α}
    (h : Built setting code known values step) :
    ∀ {state : State} {outcome : Outcome State Fault α},
      (∀ made, Routine.Makes (execute setting) step state made →
        Routine.Makes (execute setting) (execute setting code) first made) →
      Routine.Ends (execute setting) step state outcome →
      state.Adds (Introduces setting code first) outcome.2 := by
  induction h with
  | pure | fail | ofExcept | callDepth | get =>
    intro state outcome _ hends
    obtain rfl := CallTree.ends_done.1 hends
    exact .refl state
  | now | print =>
    intro state outcome _ hends
    obtain rfl := CallTree.ends_done.1 hends
    exact ⟨refl_of State.Grows state, rfl, fun _ _ hbinds _ => .inl hbinds⟩
  | assign =>
    intro state outcome _ hends
    obtain rfl := CallTree.ends_done.1 hends
    exact .assign setting _ _ _ state
  | define hcode =>
    intro state outcome _ hends
    obtain rfl := CallTree.ends_done.1 hends
    subst hcode
    exact .define .var
  | declare hcode =>
    intro state outcome _ hends
    obtain rfl := CallTree.ends_done.1 hends
    subst hcode
    exact .declare .function
  | bind _ _ ihFirst ihNext =>
    intro state outcome hmakes hends
    rcases Routine.ends_bind.1 hends with ⟨answer, reached, hfirst, hnext⟩ |
      ⟨fault, reached, hfirst, rfl⟩
    · have hadds := ihFirst (fun made h => hmakes made (Routine.makes_bind.2 (.inl h))) hfirst
      exact hadds.trans (ihNext answer (fun made h =>
        hmakes made (Routine.makes_bind.2 (.inr ⟨answer, reached, hfirst, h⟩))) hnext)
    · exact ihFirst (fun made h => hmakes made (Routine.makes_bind.2 (.inl h))) hfirst
  | call hpart hscopes =>
    intro state outcome hmakes hends
    have hmakes := hmakes _ (Routine.makes_call.2 rfl)
    exact (hmade _ _ hmakes (Routine.ends_call.1 hends)).mono fun _ => .part hmakes hpart hscopes
  | jump hpart hscopes =>
    intro state outcome hmakes hends
    have hmakes := hmakes _ (Routine.makes_jump.2 rfl)
    exact (hmade _ _ hmakes (Routine.ends_jump.1 hends)).mono fun _ => .part hmakes hpart hscopes
  | block =>
    intro state outcome hmakes hends
    have hmakes := hmakes _ (Routine.makes_within.2 (Routine.makes_call.2 rfl))
    obtain ⟨result, last, hlast, rfl⟩ := Routine.ends_within.1 hends
    have hadds := hmade _ _ hmakes (Routine.ends_call.1 hlast)
    exact .enclosed (State.opens_enter state _) hadds rfl
  | @invocation _ _ _ _ _ declaration closure passed =>
    intro state outcome hmakes hends
    have hmakes := hmakes _ (Routine.makes_within.2 (Routine.makes_call.2 rfl))
    obtain ⟨result, last, hlast, rfl⟩ := Routine.ends_within.1 hends
    have hadds := hmade _ _ hmakes (Routine.ends_call.1 hlast)
    have henclosed : state.Adds (Introduces setting code first)
        { last with environment := state.environment, callDepth := last.callDepth - 1 } :=
      .enclosed (State.opens_beginCall state closure passed) hadds rfl
    exact henclosed

/-- What is executed on the way is executed in the same scope or in a new frame, and the same holds
up to there. -/
theorem adds_until {known : List Value} {α : Type} {values : α → List Value} {step : Step α}
    (h : Built setting code known values step) :
    ∀ {state : State} {made : Code × State},
      (∀ made, Routine.Makes (execute setting) step state made →
        Routine.Makes (execute setting) (execute setting code) first made) →
      Routine.Makes (execute setting) step state made →
      ∃ reached, state.Adds (Introduces setting code first) reached ∧
        ((∃ place, Part .top code place made.1 ∧ place.scopes = [] ∧ made.2 = reached) ∨
          (∃ ss, made.1 = .body ss) ∧ reached.Opens made.2) := by
  induction h with
  | pure | fail | ofExcept | callDepth | get | assign | now | print | define | declare =>
    exact fun _ hmakes => absurd hmakes CallTree.not_makes_done
  | bind hfirst _ ihFirst ihNext =>
    intro state made hall hmakes
    have hall' := fun made h => hall made (Routine.makes_bind.2 (.inl h))
    rcases Routine.makes_bind.1 hmakes with hmakes | ⟨answer, middle, hends, hmakes⟩
    · exact ihFirst hall' hmakes
    · have hadds := hfirst.adds hmade hall' hends
      obtain ⟨reached, hadds', hnext⟩ := ihNext answer (fun made h =>
        hall made (Routine.makes_bind.2 (.inr ⟨answer, middle, hends, h⟩))) hmakes
      exact ⟨reached, hadds.trans hadds', hnext⟩
  | call hpart hscopes =>
    intro state made _ hmakes
    obtain rfl := Routine.makes_call.1 hmakes
    exact ⟨state, .refl state, .inl ⟨_, hpart, hscopes, rfl⟩⟩
  | jump hpart hscopes =>
    intro state made _ hmakes
    obtain rfl := Routine.makes_jump.1 hmakes
    exact ⟨state, .refl state, .inl ⟨_, hpart, hscopes, rfl⟩⟩
  | block =>
    intro state made _ hmakes
    obtain rfl := Routine.makes_call.1 (Routine.makes_within.1 hmakes)
    exact ⟨state, .refl state, .inr ⟨⟨_, rfl⟩, State.opens_enter state _⟩⟩
  | invocation =>
    intro state made _ hmakes
    obtain rfl := Routine.makes_call.1 (Routine.makes_within.1 hmakes)
    exact ⟨state, .refl state, .inr ⟨⟨_, rfl⟩, State.opens_beginCall state _ _⟩⟩

end Built

section Execution

variable {code : Code} {state : State}

/-- Of the frames that are there, code adds variables to none but the innermost, and to this one
only those whose declaration it comes to without going into a block or a function. -/
theorem adds_introduced {outcome : Outcome State Fault code.Result}
    (h : Routine.Ends (execute setting) (execute setting code) state outcome) :
    state.Adds (Introduces setting code state) outcome.2 := by
  refine ends_induction (fun code state outcome hmade hends => ?_) h
  have hbuilt : Built setting code [] code.values (execute setting code) := built_execute code
  exact hbuilt.adds hmade (fun _ h => h) hends

/-- Code adds no variables to the frames that are there but those it declares, and these to the
innermost frame. -/
theorem adds_of_ends {outcome : Outcome State Fault code.Result}
    (h : Routine.Ends (execute setting) (execute setting code) state outcome) :
    state.Adds code.Declares outcome.2 :=
  (adds_introduced h).mono fun _ => Introduces.declares

/-- Whatever code comes to directly is executed in the same scope or in a new frame. -/
theorem adds_introduced_of_makes {made : Code × State}
    (h : Routine.Makes (execute setting) (execute setting code) state made) :
    ∃ reached, state.Adds (Introduces setting code state) reached ∧
      ((∃ place, Part .top code place made.1 ∧ place.scopes = [] ∧ made.2 = reached) ∨
        (∃ ss, made.1 = .body ss) ∧ reached.Opens made.2) := by
  have hbuilt : Built setting code [] code.values (execute setting code) := built_execute code
  exact hbuilt.adds_until (fun _ _ _ => adds_introduced) (fun _ h => h) h

/-- Code adds no variables to the frames that are there but those it declares up to whatever is
executed in the same scope. -/
theorem adds_of_makes {made : Code × State}
    (h : Routine.Makes (execute setting) (execute setting code) state made) :
    (∃ ss, made.1 = .body ss) ∨ state.Adds code.Declares made.2 := by
  obtain ⟨reached, hadds, ⟨-, -, -, rfl⟩ | ⟨hbody, -⟩⟩ := adds_introduced_of_makes h
  · exact .inr (hadds.mono fun _ => Introduces.declares)
  · exact .inl hbody

/-- However far an execution has got, it has added no other variables to the frames that were there
when it began. -/
theorem binds_of_reaches {made : Code × State}
    (h : CallTree.Reaches (fun call : Code × State => execute setting call.1 call.2) (code, state)
      made) {frame : FrameId} {name : String} (hbinds : made.2.store.Binds frame name)
    (hsize : frame < state.store.frames.size) :
    state.store.Binds frame name ∨
      some frame = state.environment.head? ∧ Introduces setting code state name := by
  suffices hreached : ∀ call : Code × State,
      CallTree.Reaches (fun call : Code × State => execute setting call.1 call.2) call made →
      frame < call.2.store.frames.size →
        call.2.store.Binds frame name ∨
          some frame = call.2.environment.head? ∧ Introduces setting call.1 call.2 name from
    hreached (code, state) h hsize
  intro call hreaches
  induction hreaches using Relation.ReflTransGen.head_induction_on with
  | refl => exact fun _ => .inl hbinds
  | @head call next hmakes _ ih =>
    intro hsize
    obtain ⟨reached, hadds, hnext⟩ := adds_introduced_of_makes hmakes
    have hsize' : frame < reached.store.frames.size := Nat.lt_of_lt_of_le hsize hadds.grows.frames
    rcases hnext with ⟨place, hpart, hscopes, hreached⟩ | ⟨-, hopens⟩
    · rw [← hreached] at hadds hsize'
      rcases ih hsize' with hbinds | ⟨hframe, hname⟩
      · exact hadds.binds frame name hbinds hsize
      · rw [hadds.environment] at hframe
        exact .inr ⟨hframe, .part hmakes hpart hscopes hname⟩
    · have hbinds := hopens.binds_of_head hsize'
        (ih (Nat.lt_of_lt_of_le hsize' hopens.grows.frames))
      exact hadds.binds frame name hbinds hsize

end Execution

end Code

end Lox
