/-
# What executing code leaves as it was

Whatever code does, no frame ever goes away, no frame loses a variable, and no number for a function
is given out twice: the store only grows. And whichever way code ends, in a fault or not, what could
be seen before can be seen again, and as many calls are under way as before.
-/

import Lox.Execution.Run
import Lox.Proofs.CallTree.Order
import Lox.Proofs.Execution.Built
import Mathlib.Tactic.Tauto

namespace Lox

namespace Store

/-- A frame has a variable of some name. -/
def Binds (store : Store) (frame : FrameId) (name : String) : Prop :=
  (store.find? frame name).isSome = true

theorem find?_insert (store : Store) (frame other : FrameId) (name name' : String) (value : Value) :
    (store.insert frame name value).find? other name' =
      if other = frame ∧ name' = name ∧ frame < store.frames.size then some value
      else store.find? other name' := by
  unfold insert find?
  rw [Array.getElem?_modify]
  by_cases hframe : frame = other
  · subst hframe
    rw [if_pos rfl]
    cases hget : store.frames[frame]? with
    | none =>
      have hsize : ¬ frame < store.frames.size := Nat.not_lt.2 (Array.getElem?_eq_none_iff.1 hget)
      simp [hsize]
    | some found =>
      have hsize : frame < store.frames.size := (Array.getElem?_eq_some_iff.1 hget).1
      simp [hsize, Frame.find?_insert]
  · rw [if_neg hframe, if_neg fun h => hframe h.1.symm]

theorem binds_insert {store : Store} {frame other : FrameId} {name name' : String} {value : Value} :
    (store.insert frame name value).Binds other name' ↔
      store.Binds other name' ∨ other = frame ∧ name' = name ∧ frame < store.frames.size := by
  unfold Binds
  rw [find?_insert]
  split
  · rename_i h
    exact ⟨fun _ => .inr h, fun _ => rfl⟩
  · rename_i h
    exact ⟨.inl, fun hor => hor.resolve_right h⟩

@[simp]
theorem size_insert {store : Store} {frame : FrameId} {name : String} {value : Value} :
    (store.insert frame name value).frames.size = store.frames.size :=
  Array.size_modify

theorem Binds.lt_size {store : Store} {frame : FrameId} {name : String}
    (h : store.Binds frame name) : frame < store.frames.size := by
  unfold Binds find? at h
  rcases Nat.lt_or_ge frame store.frames.size with hsize | hsize
  · exact hsize
  · rw [Array.getElem?_eq_none hsize] at h
    cases h

/-- A new frame has no variables, and the others have those they had. -/
theorem find?_child (store : Store) (environment : Environment) (frame : FrameId) (name : String) :
    (store.child environment).2.find? frame name = store.find? frame name := by
  unfold child find?
  dsimp only
  rw [Array.getElem?_push]
  split
  · rename_i hframe
    rw [hframe, Array.getElem?_eq_none (Nat.le_refl _)]
    rfl
  · rfl

/-- A store has grown: it has the frames, the variables and the functions that it had. -/
structure Grows (before after : Store) : Prop where
  /-- No frame has gone away. -/
  frames : before.frames.size ≤ after.frames.size
  /-- No number for a function has come back. -/
  functions : before.functions ≤ after.functions
  /-- No variable has gone away. -/
  binds : ∀ frame name, before.Binds frame name → after.Binds frame name

theorem Grows.refl (store : Store) : store.Grows store :=
  ⟨Nat.le_refl _, Nat.le_refl _, fun _ _ h => h⟩

theorem Grows.trans {first second third : Store} (h : first.Grows second)
    (h' : second.Grows third) : first.Grows third :=
  ⟨Nat.le_trans h.frames h'.frames, Nat.le_trans h.functions h'.functions,
    fun frame name hbinds => h'.binds frame name (h.binds frame name hbinds)⟩

theorem grows_insert (store : Store) (frame : FrameId) (name : String) (value : Value) :
    store.Grows (store.insert frame name value) :=
  ⟨Nat.le_of_eq size_insert.symm, Nat.le_refl _, fun _ _ h => binds_insert.2 (.inl h)⟩

theorem grows_define (store : Store) (environment : Environment) (name : String) (value : Value) :
    store.Grows (store.define environment name value) := by
  cases environment with
  | nil => exact .refl store
  | cons frame _ => exact grows_insert store frame name value

theorem grows_child (store : Store) (environment : Environment) :
    store.Grows (store.child environment).2 := by
  refine ⟨?_, Nat.le_refl _, fun frame name h => ?_⟩
  · unfold child
    rw [Array.size_push]
    exact Nat.le_succ _
  · unfold Binds at h ⊢
    rwa [find?_child]

theorem grows_newFunction (store : Store) (called : Callable) :
    store.Grows (store.newFunction called).2 :=
  ⟨Nat.le_refl _, Nat.le_succ _, fun _ _ h => h⟩

end Store

/-! ## What is found -/

theorem Store.find?_of_lookup {store : Store} {environment : Environment} {name : Token}
    {frame : FrameId} {value : Value} (h : store.lookup environment name = .ok (frame, value)) :
    store.find? frame name.lexeme = some value := by
  unfold lookup at h
  split at h
  · rename_i found hfound
    cases h
    obtain ⟨frame', -, hfind⟩ := List.exists_of_findSome?_eq_some hfound
    obtain ⟨value', hvalue, heq⟩ := Option.map_eq_some_iff.1 hfind
    cases heq
    exact hvalue
  · cases h

theorem Store.find?_of_lookupAt {store : Store} {environment : Environment} {depth : Nat}
    {name : Token} {frame : FrameId} {value : Value}
    (h : store.lookupAt environment depth name = .ok (frame, value)) :
    store.find? frame name.lexeme = some value := by
  unfold lookupAt at h
  split at h
  · cases h
  · split at h
    · rename_i hfind
      cases h
      exact hfind
    · cases h

/-- Whichever way a variable is looked up, it is there. -/
theorem State.find?_of_lookup {setting : Setting} {state : State} {id : AccessId} {name : Token}
    {frame : FrameId} {value : Value} (h : state.lookup setting id name = .ok (frame, value)) :
    state.store.find? frame name.lexeme = some value := by
  unfold lookup at h
  split at h
  · split at h
    · exact Store.find?_of_lookupAt h
    · exact Store.find?_of_lookup h
  · exact Store.find?_of_lookup h

/-! ## States that grow -/

namespace State

/-- The store of a state has grown into that of another. -/
def Grows (before after : State) : Prop := before.store.Grows after.store

instance : IsPreorder State Grows where
  refl state := .refl state.store
  trans _ _ _ h h' := Store.Grows.trans h h'

theorem grows_define (state : State) (name : String) (value : Value) :
    state.Grows (state.define name value) :=
  Store.grows_define state.store state.environment name value

theorem grows_declare (state : State) (declaration : FunctionDecl) :
    state.Grows (state.declare declaration) :=
  .trans (Store.grows_newFunction state.store (.function declaration state.environment))
    (Store.grows_define _ _ _ _)

theorem grows_enter (state : State) (outer : Environment) : state.Grows (state.enter outer) :=
  Store.grows_child state.store outer

/-- The state at the start of a call before the arguments are declared. -/
def openCall (state : State) (outer : Environment) : State :=
  { state.enter outer with callDepth := (state.enter outer).callDepth + 1 }

theorem beginCall_eq (state : State) (outer : Environment) (arguments : List (Token × Value)) :
    state.beginCall outer arguments =
      arguments.foldl (fun state argument => state.define argument.1.lexeme argument.2)
        (state.openCall outer) :=
  rfl

theorem grows_foldl_define (arguments : List (Token × Value)) (state : State) :
    state.Grows (arguments.foldl
      (fun state argument => state.define argument.1.lexeme argument.2) state) := by
  induction arguments generalizing state with
  | nil => exact refl_of Grows state
  | cons argument rest ih => exact trans_of Grows (grows_define state _ _) (ih _)

theorem size_enter (state : State) (outer : Environment) :
    (state.enter outer).store.frames.size = state.store.frames.size + 1 :=
  Array.size_push _

theorem size_define (state : State) (name : String) (value : Value) :
    (state.define name value).store.frames.size = state.store.frames.size := by
  unfold define Store.define
  dsimp only
  split
  · rfl
  · exact Store.size_insert

theorem size_declare (state : State) (declaration : FunctionDecl) :
    (state.declare declaration).store.frames.size = state.store.frames.size :=
  size_define { state with store := { state.store with
    functions := state.store.functions + 1 } } _ _

theorem size_assign (setting : Setting) (id : AccessId) (name : Token) (value : Value)
    (state : State) : (assign setting id name value state).2.store.frames.size =
      state.store.frames.size := by
  unfold assign
  split
  · exact Store.size_insert
  · rfl

theorem size_foldl_define (arguments : List (Token × Value)) (state : State) :
    (arguments.foldl (fun state argument => state.define argument.1.lexeme argument.2)
      state).store.frames.size = state.store.frames.size := by
  induction arguments generalizing state with
  | nil => rfl
  | cons argument rest ih => exact (ih _).trans (size_define state _ _)

theorem size_beginCall (state : State) (outer : Environment) (arguments : List (Token × Value)) :
    (state.beginCall outer arguments).store.frames.size = state.store.frames.size + 1 :=
  (size_foldl_define arguments (state.openCall outer)).trans (size_enter state outer)

theorem environment_foldl_define (arguments : List (Token × Value)) (state : State) :
    (arguments.foldl (fun state argument => state.define argument.1.lexeme argument.2)
      state).environment = state.environment := by
  induction arguments generalizing state with
  | nil => rfl
  | cons argument rest ih => exact ih _

theorem environment_beginCall (state : State) (outer : Environment)
    (arguments : List (Token × Value)) :
    (state.beginCall outer arguments).environment = state.store.frames.size :: outer :=
  environment_foldl_define arguments (state.openCall outer)

theorem callDepth_beginCall (state : State) (outer : Environment)
    (arguments : List (Token × Value)) :
    (state.beginCall outer arguments).callDepth = state.callDepth + 1 := by
  have hdefine : ∀ state : State, (arguments.foldl
      (fun state argument => state.define argument.1.lexeme argument.2) state).callDepth =
        state.callDepth := by
    induction arguments with
    | nil => exact fun _ => rfl
    | cons argument rest ih => exact fun state => ih (state.define argument.1.lexeme argument.2)
  exact hdefine (state.openCall outer)

theorem binds_define {state : State} {name name' : String} {value : Value} {frame : FrameId} :
    (state.define name value).store.Binds frame name' ↔
      state.store.Binds frame name' ∨
        some frame = state.environment.head? ∧ name' = name ∧ frame < state.store.frames.size := by
  unfold define Store.define
  cases state.environment with
  | nil => simp
  | cons head rest =>
    refine Store.binds_insert.trans (or_congr_right ?_)
    rw [List.head?_cons, Option.some_inj]
    constructor
    · rintro ⟨rfl, hname, hsize⟩
      exact ⟨rfl, hname, hsize⟩
    · rintro ⟨rfl, hname, hsize⟩
      exact ⟨rfl, hname, hsize⟩

theorem binds_declare {state : State} {declaration : FunctionDecl} {name : String}
    {frame : FrameId} :
    (state.declare declaration).store.Binds frame name ↔
      state.store.Binds frame name ∨
        some frame = state.environment.head? ∧ name = declaration.name.lexeme ∧
          frame < state.store.frames.size := by
  have hdefine := @binds_define { state with store := { state.store with
    functions := state.store.functions + 1 } } declaration.name.lexeme name
    (.callable state.store.functions (.function declaration state.environment)) frame
  exact hdefine

/-- Only the innermost frame changes when arguments are declared, and it gets all of them. -/
theorem binds_foldl_define {arguments : List (Token × Value)} {state : State} {name : String}
    {frame : FrameId} :
    (arguments.foldl (fun state argument => state.define argument.1.lexeme argument.2)
      state).store.Binds frame name ↔
      state.store.Binds frame name ∨
        some frame = state.environment.head? ∧
          name ∈ arguments.map (fun argument => argument.1.lexeme) ∧
            frame < state.store.frames.size := by
  induction arguments generalizing state with
  | nil => simp
  | cons argument rest ih =>
    rw [List.foldl_cons, ih, binds_define, size_define, List.map_cons, List.mem_cons]
    have henvironment : (state.define argument.1.lexeme argument.2).environment =
      state.environment := rfl
    rw [henvironment]
    tauto

theorem binds_enter {state : State} (outer : Environment) {name : String} {frame : FrameId} :
    (state.enter outer).store.Binds frame name ↔ state.store.Binds frame name := by
  unfold Store.Binds
  exact iff_of_eq (congrArg (fun value => value.isSome = true)
    (Store.find?_child state.store outer frame name))

/-- A call begins with a new frame that has the parameters. -/
theorem binds_beginCall {state : State} {outer : Environment} {arguments : List (Token × Value)}
    {name : String} {frame : FrameId} :
    (state.beginCall outer arguments).store.Binds frame name ↔
      state.store.Binds frame name ∨
        frame = state.store.frames.size ∧
          name ∈ arguments.map fun argument => argument.1.lexeme := by
  rw [beginCall_eq, binds_foldl_define]
  refine or_congr (binds_enter outer) ?_
  have hsize : (state.openCall outer).store.frames.size = state.store.frames.size + 1 :=
    size_enter state outer
  have henvironment : (state.openCall outer).environment.head? = some state.store.frames.size := rfl
  rw [hsize, henvironment, Option.some_inj]
  constructor
  · rintro ⟨rfl, hname, -⟩
    exact ⟨rfl, hname⟩
  · rintro ⟨rfl, hname⟩
    exact ⟨rfl, hname, Nat.lt_succ_self _⟩

theorem grows_beginCall (state : State) (outer : Environment) (arguments : List (Token × Value)) :
    state.Grows (state.beginCall outer arguments) :=
  trans_of Grows (grows_enter state outer) (grows_foldl_define arguments (state.openCall outer))

theorem grows_assign (setting : Setting) (id : AccessId) (name : Token) (value : Value)
    (state : State) : state.Grows (State.assign setting id name value state).2 := by
  unfold assign
  split
  · exact Store.grows_insert _ _ _ _
  · exact refl_of Grows state

/-- The same can be seen in two states, and as many calls are under way. -/
def SameScope (before after : State) : Prop :=
  after.environment = before.environment ∧ after.callDepth = before.callDepth

instance : IsPreorder State SameScope where
  refl _ := ⟨rfl, rfl⟩
  trans _ _ _ h h' := ⟨h'.1.trans h.1, h'.2.trans h.2⟩

theorem sameScope_assign (setting : Setting) (id : AccessId) (name : Token) (value : Value)
    (state : State) : state.SameScope (State.assign setting id name value state).2 := by
  unfold assign
  split
  · exact ⟨rfl, rfl⟩
  · exact refl_of SameScope state

end State

namespace Code

open Routine State

variable {setting : Setting}

/-! ## Properties of all steps -/

/-- A property that steps built from others inherit, and that the steps have which change the
state, short of calls. -/
structure Composed (setting : Setting) (T : {α : Type} → Step α → Prop) : Prop where
  pure {α : Type} (answer : α) : T (Pure.pure answer)
  fail {α : Type} (fault : Fault) : T (Routine.fail fault : Step α)
  ofExcept {α : Type} (result : Except Fault α) : T (Routine.ofExcept result)
  gets {α : Type} (read : State → α) : T (Routine.gets read)
  bind {α β : Type} {first : Step α} {next : α → Step β} (hfirst : T first)
    (hnext : ∀ answer, T (next answer)) : T (first >>= next)
  call (code : Code) : T (Routine.call code)
  jump (code : Code) : T (Routine.jump code)
  get (id : AccessId) (name : Token) : T (Routine.step (State.get setting id name))
  assign (id : AccessId) (name : Token) (value : Value) :
    T (Routine.step (State.assign setting id name value))
  now : T (now setting)
  print (line : String) : T (Routine.modify (·.print line))
  define (name : String) (value : Value) : T (Routine.modify (·.define name value))
  declare (declaration : FunctionDecl) : T (Routine.modify (·.declare declaration))
  block (ss : List Stmt) :
    T (enclosed (fun state => state.enter state.environment) id (Routine.call (body ss)))

namespace Composed

variable {T : {α : Type} → Step α → Prop} (h : Composed setting T)
include h

theorem of_built {code : Code}
    (hcode : ∀ callee paren es, code ≠ .expression (.call callee paren es))
    {known : List Value} {α : Type} {values : α → List Value} {step : Step α}
    (hbuilt : Built setting code known values step) : T step := by
  induction hbuilt with
  | pure => exact h.pure _
  | fail => exact h.fail _
  | ofExcept => exact h.ofExcept _
  | callDepth => exact h.gets _
  | bind _ _ ihFirst ihNext => exact h.bind ihFirst ihNext
  | call => exact h.call _
  | jump => exact h.jump _
  | get => exact h.get _ _
  | assign => exact h.assign _ _ _
  | now => exact h.now
  | print => exact h.print _
  | define => exact h.define _ _
  | declare => exact h.declare _
  | block => exact h.block _
  | invocation hcall => exact absurd hcall (hcode _ _ _)

/-- All code has the property, if calls have it. -/
theorem execute (hcall : ∀ callee paren es, T (evaluateCall setting callee paren es))
    (code : Code) : T (Code.execute setting code) := by
  by_cases hcode : ∃ callee paren es, code = .expression (.call callee paren es)
  · obtain ⟨callee, paren, es, rfl⟩ := hcode
    exact hcall callee paren es
  · have hnot : ∀ callee paren es, code ≠ .expression (.call callee paren es) :=
      fun callee paren es heq => hcode ⟨callee, paren, es, heq⟩
    have hbuilt : Built setting code [] code.values (Code.execute setting code) :=
      built_execute code
    exact h.of_built hnot hbuilt

end Composed

/-- Such a property that the bodies of functions have as well, whenever they are called. -/
structure Inherited (setting : Setting) (T : {α : Type} → Step α → Prop) : Prop
    extends Composed setting T where
  invocation (closure : Environment) (passed : List (Token × Value)) (ss : List Stmt) :
    T (enclosed (·.beginCall closure passed) State.endCall (Routine.call (body ss)))

namespace Inherited

variable {T : {α : Type} → Step α → Prop} (h : Inherited setting T)
include h

theorem of_built {code : Code} {known : List Value} {α : Type} {values : α → List Value}
    {step : Step α} (hbuilt : Built setting code known values step) : T step := by
  induction hbuilt with
  | pure => exact h.pure _
  | fail => exact h.fail _
  | ofExcept => exact h.ofExcept _
  | callDepth => exact h.gets _
  | bind _ _ ihFirst ihNext => exact h.bind ihFirst ihNext
  | call => exact h.call _
  | jump => exact h.jump _
  | get => exact h.get _ _
  | assign => exact h.assign _ _ _
  | now => exact h.now
  | print => exact h.print _
  | define => exact h.define _ _
  | declare => exact h.declare _
  | block => exact h.block _
  | invocation => exact h.invocation _ _ _

theorem execute (code : Code) : T (Code.execute setting code) := by
  have hbuilt : Built setting code [] code.values (Code.execute setting code) := built_execute code
  exact h.of_built hbuilt

theorem evaluateCall (callee : Expr) (paren : Token) (es : List Expr) :
    T (Code.evaluateCall setting callee paren es) :=
  h.execute (.expression (.call callee paren es))

end Inherited

/-- Executing code makes the store grow, step by step. -/
theorem rises_execute (code : Code) : Rises Grows (execute setting code) := by
  have h : Inherited setting (fun step => Rises Grows step) := {
    pure := fun _ => rises_pure
    fail := fun _ => rises_fail
    ofExcept := fun _ => rises_ofExcept
    gets := fun _ => rises_gets
    bind := .bind
    call := fun _ => rises_call
    jump := fun _ => rises_jump
    get := fun _ _ => rises_step fun state => refl_of Grows state
    assign := fun id name value => rises_step (grows_assign setting id name value)
    now := rises_step fun state => refl_of Grows state
    print := fun _ => rises_modify fun state => refl_of Grows state
    define := fun name value => rises_modify fun state => grows_define state name value
    declare := fun declaration => rises_modify fun state => grows_declare state declaration
    block := fun _ => rises_within rises_call (fun state => grows_enter state state.environment)
      fun _ state => refl_of Grows state
    invocation := fun closure passed _ => rises_within rises_call
      (fun state => grows_beginCall state closure passed) fun _ state => refl_of Grows state }
  exact h.execute code

/-- Steps end with the same in sight as they begin with, and with as many calls under way. -/
theorem inherited_keeps : Inherited setting (fun step => Keeps SameScope step) where
  pure _ := keeps_pure
  fail _ := keeps_fail
  ofExcept _ := keeps_ofExcept
  gets _ := keeps_gets
  bind := .bind
  call _ := keeps_call
  jump _ := keeps_jump
  get _ _ := keeps_step fun state => refl_of SameScope state
  assign id name value := keeps_step (sameScope_assign setting id name value)
  now := keeps_step fun _ => ⟨rfl, rfl⟩
  print _ := keeps_modify fun _ => ⟨rfl, rfl⟩
  define _ _ := keeps_modify fun _ => ⟨rfl, rfl⟩
  declare _ := keeps_modify fun _ => ⟨rfl, rfl⟩
  block _ := keeps_within keeps_call fun _ _ h => ⟨rfl, h.2⟩
  invocation closure passed _ := keeps_within keeps_call fun state _ h =>
    ⟨rfl, Nat.sub_eq_of_eq_add (h.2.trans (callDepth_beginCall state closure passed))⟩

/-- Whichever way code ends, the same can be seen as before, and as many calls are under way. -/
theorem keeps_execute (code : Code) : Keeps SameScope (execute setting code) :=
  inherited_keeps.execute code

/-- What a step comes to stands in some relation to the state that the step begins in, if this holds
of all that is executed with the same in sight and of the statements of a block. -/
theorem composed_makes {late : State → Code × State → Prop}
    (hsame : ∀ state made, state.SameScope made.2 → late state made)
    (hlater : ∀ state reached made, state.SameScope reached → late reached made → late state made)
    (hblock : ∀ state ss, late state (.body ss, state.enter state.environment)) :
    Composed setting (fun step => Keeps SameScope step ∧ ∀ state made,
      Makes (execute setting) step state made → late state made) where
  pure _ := ⟨keeps_pure, fun _ _ h => absurd h not_makes_pure⟩
  fail _ := ⟨keeps_fail, fun _ _ h => absurd h not_makes_fail⟩
  ofExcept _ := ⟨keeps_ofExcept, fun _ _ h => absurd h not_makes_ofExcept⟩
  gets _ := ⟨keeps_gets, fun _ _ h => absurd h not_makes_gets⟩
  bind := by
    intro α β first next hfirst hnext
    refine ⟨hfirst.1.bind fun answer => (hnext answer).1, fun state made h => ?_⟩
    rcases makes_bind.1 h with h | ⟨answer, reached, hends, h⟩
    · exact hfirst.2 state made h
    · have hscope : state.SameScope reached := rel_of_ends keeps_execute hfirst.1 hends
      exact hlater state reached made hscope ((hnext answer).2 reached made h)
  call code := by
    refine ⟨keeps_call, fun state made h => hsame state made ?_⟩
    rw [makes_call.1 h]
    exact refl_of SameScope state
  jump code := by
    refine ⟨keeps_jump, fun state made h => hsame state made ?_⟩
    rw [makes_jump.1 h]
    exact refl_of SameScope state
  get _ _ := ⟨(@inherited_keeps setting).get _ _, fun _ _ h => absurd h not_makes_step⟩
  assign _ _ _ := ⟨(@inherited_keeps setting).assign _ _ _, fun _ _ h => absurd h not_makes_step⟩
  now := ⟨(@inherited_keeps setting).now, fun _ _ h => absurd h not_makes_step⟩
  print _ := ⟨(@inherited_keeps setting).print _, fun _ _ h => absurd h not_makes_modify⟩
  define _ _ := ⟨(@inherited_keeps setting).define _ _, fun _ _ h => absurd h not_makes_modify⟩
  declare _ := ⟨(@inherited_keeps setting).declare _, fun _ _ h => absurd h not_makes_modify⟩
  block ss := by
    refine ⟨(@inherited_keeps setting).block ss, fun state made h => ?_⟩
    rw [makes_call.1 (makes_within.1 h)]
    exact hblock state ss

/-- Whatever is executed on the way can see the same as the code that comes to it, apart from the
statements of a block or a function. -/
theorem sameScope_of_makes {code : Code} {state : State} {made : Code × State}
    (h : Makes (execute setting) (execute setting code) state made) :
    (∃ ss, made.1 = .body ss) ∨ state.SameScope made.2 := by
  let late : State → Code × State → Prop :=
    fun state made => (∃ ss, made.1 = .body ss) ∨ state.SameScope made.2
  have hcomposed : Composed setting (fun step => Keeps SameScope step ∧ ∀ state made,
      Makes (execute setting) step state made → late state made) := by
    apply composed_makes
    · exact fun state made hscope => .inr hscope
    · exact fun state reached made hscope hlate => hlate.imp_right (trans_of SameScope hscope)
    · exact fun state ss => .inl ⟨ss, rfl⟩
  have hall : Inherited setting (fun step => Keeps SameScope step ∧ ∀ state made,
      Makes (execute setting) step state made → late state made) := { hcomposed with
    invocation := fun closure passed ss => ⟨(@inherited_keeps setting).invocation closure passed ss,
      fun _ _ h => .inl ⟨ss, congrArg Prod.fst (makes_call.1 (makes_within.1 h))⟩⟩ }
  exact (hall.execute code).2 state made h

variable {α : Type} {step : Step α} {state : State} {outcome : Outcome State Fault α}

theorem climbs_execute (call : Code × State) :
    Climbs Grows (fun outcome : Outcome State Fault call.1.Result => outcome.2) call.2
      (execute setting call.1 call.2) :=
  rises_execute call.1 call.2 call.2 (refl_of Grows call.2)

theorem grows_of_ends (hstep : Rises Grows step) (h : Ends (execute setting) step state outcome) :
    state.Grows outcome.2 :=
  le_of_ends climbs_execute (hstep state state (refl_of Grows state)) h

theorem sameScope_of_ends (hstep : Keeps SameScope step)
    (h : Ends (execute setting) step state outcome) : state.SameScope outcome.2 :=
  rel_of_ends keeps_execute hstep h

end Code

end Lox
