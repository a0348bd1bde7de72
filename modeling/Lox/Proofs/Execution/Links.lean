/-
# Which frame is around which

A frame is made inside another one, or inside none, and stays there. A state does not say so of each
frame: it has lists of frames, one of what can be seen and one for each function there is, and what
stands behind a frame in any of them is what is around it. `State.Linked` says that all these lists
agree on it. Execution keeps it that way: it puts new frames inside others, and never one that was
there before inside another one (`Code.linked_of_ends`).
-/

import Lox.Proofs.Execution.Growth

namespace Lox

/-- The frame around each frame, if there is one. -/
abbrev Links := FrameId → Option FrameId

namespace Links

/-- The frames that there were before are inside the same frames as before. -/
structure Extends (links : Links) (size : Nat) (links' : Links) (size' : Nat) : Prop where
  /-- No frame has gone away. -/
  size_le : size ≤ size'
  /-- None has been moved. -/
  same : ∀ frame < size, links' frame = links frame

theorem Extends.refl (links : Links) (size : Nat) : links.Extends size links size :=
  ⟨Nat.le_refl _, fun _ _ => rfl⟩

theorem Extends.trans {first second third : Links} {size size' size'' : Nat}
    (h : first.Extends size second size') (h' : second.Extends size' third size'') :
    first.Extends size third size'' := by
  refine ⟨Nat.le_trans h.size_le h'.size_le, fun frame hframe => ?_⟩
  exact (h'.same frame (Nat.lt_of_lt_of_le hframe h.size_le)).trans (h.same frame hframe)

/-- One more frame inside another. -/
def link (links : Links) (frame : FrameId) (outer : Option FrameId) : Links :=
  fun other => if other = frame then outer else links other

theorem extends_link (links : Links) (size : Nat) (outer : Option FrameId) :
    links.Extends size (links.link size outer) (size + 1) :=
  ⟨Nat.le_succ _, fun _ hframe => if_neg (Nat.ne_of_lt hframe)⟩

end Links

variable {links links' : Links} {size size' : Nat}

/-- Frames stand in a list as they are inside each other, and the outermost of them is inside
none. -/
def Environment.Follows (links : Links) (size : Nat) : Environment → Prop
  | [] => True
  | frame :: outer =>
    frame < size ∧ links frame = outer.head? ∧ Environment.Follows links size outer

/-- What a value could see where it was declared, if it is a function, are frames inside each
other. -/
def Value.Follows (links : Links) (size : Nat) (value : Value) : Prop :=
  ∀ identity declaration closure, value = .callable identity (.function declaration closure) →
    Environment.Follows links size closure

theorem Environment.Follows.mono {environment : Environment}
    (h : Environment.Follows links size environment) (hextends : links.Extends size links' size') :
    Environment.Follows links' size' environment := by
  induction environment with
  | nil => trivial
  | cons frame outer ih =>
    obtain ⟨hframe, hlink, houter⟩ := h
    exact ⟨Nat.lt_of_lt_of_le hframe hextends.size_le, (hextends.same frame hframe).trans hlink,
      ih houter⟩

namespace Value.Follows

variable {value : Value}

theorem of_isData (h : value.IsData) : value.Follows links size := by
  rintro identity declaration closure rfl
  exact absurd rfl h

theorem mono (h : value.Follows links size) (hextends : links.Extends size links' size') :
    value.Follows links' size' :=
  fun identity declaration closure hvalue => (h identity declaration closure hvalue).mono hextends

end Value.Follows

/-- The functions in a store could see frames inside each other. -/
def Store.Linked (links : Links) (store : Store) : Prop :=
  ∀ frame name value, store.find? frame name = some value →
    value.Follows links store.frames.size

namespace Store.Linked

variable {store : Store}

theorem insert {frame : FrameId} {name : String} {value : Value} (h : store.Linked links)
    (hvalue : value.Follows links store.frames.size) :
    (store.insert frame name value).Linked links := by
  intro other name' found hfind
  rw [Store.find?_insert] at hfind
  rw [Store.size_insert]
  split at hfind
  · cases hfind
    exact hvalue
  · exact h other name' found hfind

/-- The functions that every program starts with keep nothing of where they were declared. -/
theorem install (h : store.Linked links) : (store.install Store.globals).Linked links := by
  unfold Store.install
  generalize Builtin.all = builtins
  induction builtins generalizing store with
  | nil => exact h
  | cons builtin rest ih =>
    rw [List.foldl_cons]
    apply ih
    have hnext : (store.newFunction (.builtin builtin)).2.Linked links := h
    exact hnext.insert fun identity declaration closure hvalue => by cases hvalue

end Store.Linked

/-- What can be seen, and what any function in the store could see where it was declared, are frames
inside each other. -/
structure State.Linked (links : Links) (state : State) : Prop where
  /-- What can be seen now. -/
  environment : Environment.Follows links state.store.frames.size state.environment
  /-- What functions could see. -/
  store : state.store.Linked links

/-- What is assigned is the answer. -/
theorem State.answer_of_assign {setting : Setting} {id : AccessId} {name : Token}
    {value answer : Value} {state : State}
    (h : (State.assign setting id name value state).1 = .ok answer) : answer = value := by
  unfold State.assign at h
  split at h
  · cases h
    rfl
  · cases h

namespace State.Linked

variable {state : State}

/-- At the start the frame of the global variables is the only one. -/
theorem initial : State.initial.Linked fun _ => none := by
  have hempty : Store.empty.Linked fun _ => none := by
    intro frame name value hfind
    have hnone : Store.empty.find? frame name = none := by
      cases frame <;> rfl
    rw [hnone] at hfind
    cases hfind
  exact ⟨⟨Nat.zero_lt_one, rfl, trivial⟩, hempty.install⟩

theorem define {name : String} {value : Value} (h : state.Linked links)
    (hvalue : value.Follows links state.store.frames.size) :
    (state.define name value).Linked links := by
  refine ⟨(size_define state name value).symm ▸ h.environment, ?_⟩
  unfold State.define Store.define
  dsimp only
  split
  · exact h.store
  · exact h.store.insert hvalue

theorem declare {declaration : FunctionDecl} (h : state.Linked links) :
    (state.declare declaration).Linked links := by
  let next : State := { state with store := { state.store with
    functions := state.store.functions + 1 } }
  have hnext : next.Linked links := ⟨h.environment, h.store⟩
  apply hnext.define
  intro identity declaration closure hvalue
  cases hvalue
  exact h.environment

theorem get {setting : Setting} {id : AccessId} {name : Token} {value : Value}
    (h : state.Linked links) (hget : (State.get setting id name state).1 = .ok value) :
    value.Follows links state.store.frames.size := by
  unfold State.get at hget
  cases hlookup : state.lookup setting id name with
  | error fault =>
    rw [hlookup] at hget
    cases hget
  | ok found =>
    rw [hlookup] at hget
    cases hget
    exact h.store _ _ _ (find?_of_lookup hlookup)

theorem assign {setting : Setting} {id : AccessId} {name : Token} {value : Value}
    (h : state.Linked links) (hvalue : value.Follows links state.store.frames.size) :
    (State.assign setting id name value state).2.Linked links := by
  unfold State.assign
  split
  · exact ⟨Store.size_insert.symm ▸ h.environment, h.store.insert hvalue⟩
  · exact h

/-- A new frame is put inside the innermost frame of an environment. -/
theorem enter {outer : Environment} (h : state.Linked links)
    (houter : Environment.Follows links state.store.frames.size outer) :
    (state.enter outer).Linked (links.link state.store.frames.size outer.head?) := by
  have hextends := links.extends_link state.store.frames.size outer.head?
  constructor
  · rw [size_enter]
    exact ⟨Nat.lt_succ_self _, if_pos rfl, houter.mono hextends⟩
  · intro frame name value hfind
    rw [size_enter]
    have hchild := Store.find?_child state.store outer frame name
    exact (h.store frame name value (hchild.symm.trans hfind)).mono hextends

theorem foldl_define {arguments : List (Token × Value)} (h : state.Linked links)
    (hvalues : ∀ argument ∈ arguments, argument.2.Follows links state.store.frames.size) :
    (arguments.foldl (fun state argument => state.define argument.1.lexeme argument.2)
      state).Linked links := by
  induction arguments generalizing state with
  | nil => exact h
  | cons argument rest ih =>
    obtain ⟨hfirst, hrest⟩ := List.forall_mem_cons.1 hvalues
    apply ih (h.define hfirst)
    rw [size_define]
    exact hrest

/-- A call puts a new frame inside what the function could see where it was declared. -/
theorem beginCall {outer : Environment} {arguments : List (Token × Value)}
    (h : state.Linked links) (houter : Environment.Follows links state.store.frames.size outer)
    (hvalues : ∀ argument ∈ arguments, argument.2.Follows links state.store.frames.size) :
    (state.beginCall outer arguments).Linked
      (links.link state.store.frames.size outer.head?) := by
  rw [beginCall_eq]
  have hopen : (state.openCall outer).Linked (links.link state.store.frames.size outer.head?) := by
    obtain ⟨henvironment, hstore⟩ := h.enter houter
    exact ⟨henvironment, hstore⟩
  apply hopen.foldl_define
  intro argument hargument
  show argument.2.Follows _ (state.enter outer).store.frames.size
  rw [size_enter]
  exact (hvalues argument hargument).mono (links.extends_link _ _)

end State.Linked

/-- After a step the frames that were there before are inside the same frames, and the values that
came of the step could see frames inside each other. -/
def State.LinkedAfter {α : Type} (links : Links) (size : Nat) (values : α → List Value)
    (outcome : Outcome State Fault α) : Prop :=
  ∃ links', links.Extends size links' outcome.2.store.frames.size ∧ outcome.2.Linked links' ∧
    ∀ answer, outcome.1 = .ok answer →
      ∀ value ∈ values answer, value.Follows links' outcome.2.store.frames.size

namespace Code

open State

variable {setting : Setting} {code : Code} {first : State}

namespace Built

variable (hmade : ∀ made given,
  Routine.Makes (execute setting) (execute setting code) first made →
  Routine.Ends (execute setting) (execute setting made.1) made.2 given →
  ∀ links, made.2.Linked links →
    LinkedAfter links made.2.store.frames.size made.1.values given)
include hmade

/-- The statements of a block or a function are executed in a new frame, and then the same can be
seen as before. -/
theorem linked_enclosed (enter leave : State → State) {ss : List Stmt} {state : State}
    {outcome : Outcome State Fault Completion} {outer : Option FrameId}
    (hleave : ∀ state, (leave state).store = state.store ∧
      (leave state).environment = state.environment)
    (hmakes : ∀ made, Routine.Makes (execute setting)
      (enclosed enter leave (Routine.call (body ss))) state made →
      Routine.Makes (execute setting) (execute setting code) first made)
    (hends : Routine.Ends (execute setting) (enclosed enter leave (Routine.call (body ss))) state
      outcome)
    (h : state.Linked links) (hsize : (enter state).store.frames.size = state.store.frames.size + 1)
    (hentered : (enter state).Linked (links.link state.store.frames.size outer)) :
    LinkedAfter links state.store.frames.size Completion.values outcome := by
  have hmakes := hmakes _ (Routine.makes_within.2 (Routine.makes_call.2 rfl))
  obtain ⟨result, last, hlast, rfl⟩ := Routine.ends_within.1 hends
  obtain ⟨links', hextends, hlinked, hvalues⟩ :=
    hmade _ _ hmakes (Routine.ends_call.1 hlast) _ hentered
  have hold : links.Extends state.store.frames.size links' last.store.frames.size := by
    refine (links.extends_link state.store.frames.size outer).trans ?_
    rwa [← hsize]
  unfold LinkedAfter
  dsimp only
  obtain ⟨hstore, henvironment⟩ := hleave { last with environment := state.environment }
  refine ⟨links', ?_, ⟨?_, ?_⟩, ?_⟩
  · rwa [hstore]
  · rw [hstore, henvironment]
    exact h.environment.mono hold
  · rw [hstore]
    exact hlinked.store
  · rw [hstore]
    exact hvalues

/-- A step in the execution of some code leaves the frames inside each other as they are, if the
same holds of whatever the code comes to. -/
theorem linked {known : List Value} {α : Type} {values : α → List Value} {step : Step α}
    (h : Built setting code known values step) :
    ∀ {links : Links} {state : State} {outcome : Outcome State Fault α},
      (∀ made, Routine.Makes (execute setting) step state made →
        Routine.Makes (execute setting) (execute setting code) first made) →
      Routine.Ends (execute setting) step state outcome → state.Linked links →
      (∀ value ∈ known, value.Follows links state.store.frames.size) →
      LinkedAfter links state.store.frames.size values outcome := by
  induction h with
  | pure hanswer =>
    intro links state outcome _ hends hlinked hknown
    obtain rfl := CallTree.ends_done.1 hends
    refine ⟨links, .refl links _, hlinked, fun answer h value hvalue => ?_⟩
    cases h
    exact (hanswer value hvalue).elim (hknown value) Value.Follows.of_isData
  | fail =>
    intro links state outcome _ hends hlinked _
    obtain rfl := CallTree.ends_done.1 hends
    exact ⟨links, .refl links _, hlinked, fun answer h => by cases h⟩
  | ofExcept hdata =>
    intro links state outcome _ hends hlinked _
    obtain rfl := CallTree.ends_done.1 hends
    refine ⟨links, .refl links _, hlinked, fun answer h value hvalue => ?_⟩
    cases List.mem_singleton.1 hvalue
    exact .of_isData (hdata answer h)
  | callDepth | now | print =>
    intro links state outcome _ hends hlinked _
    obtain rfl := CallTree.ends_done.1 hends
    exact ⟨links, .refl links _, ⟨hlinked.environment, hlinked.store⟩,
      fun _ _ value hvalue => absurd hvalue List.not_mem_nil⟩
  | bind _ _ ihFirst ihNext =>
    intro links state outcome hmakes hends hlinked hknown
    have hmakes' := fun made h => hmakes made (Routine.makes_bind.2 (.inl h))
    rcases Routine.ends_bind.1 hends with ⟨answer, reached, hfirst, hnext⟩ |
      ⟨fault, reached, hfirst, rfl⟩
    · obtain ⟨links', hextends, hreached, hanswer⟩ := ihFirst hmakes' hfirst hlinked hknown
      have hknown' := fun value hvalue => (List.mem_append.1 hvalue).elim (hanswer answer rfl value)
        fun hvalue => (hknown value hvalue).mono hextends
      obtain ⟨links'', hextends', hlast, hvalues⟩ := ihNext answer (fun made h =>
        hmakes made (Routine.makes_bind.2 (.inr ⟨answer, reached, hfirst, h⟩))) hnext hreached
        hknown'
      exact ⟨links'', hextends.trans hextends', hlast, hvalues⟩
    · obtain ⟨links', hextends, hreached, -⟩ := ihFirst hmakes' hfirst hlinked hknown
      exact ⟨links', hextends, hreached, fun answer h => by cases h⟩
  | call =>
    intro links state outcome hmakes hends hlinked _
    exact hmade _ _ (hmakes _ (Routine.makes_call.2 rfl)) (Routine.ends_call.1 hends) links hlinked
  | jump =>
    intro links state outcome hmakes hends hlinked _
    exact hmade _ _ (hmakes _ (Routine.makes_jump.2 rfl)) (Routine.ends_jump.1 hends) links hlinked
  | get =>
    intro links state outcome _ hends hlinked _
    obtain rfl := CallTree.ends_done.1 hends
    refine ⟨links, .refl links _, hlinked, fun answer h value hvalue => ?_⟩
    cases List.mem_singleton.1 hvalue
    exact hlinked.get h
  | @assign _ id name _ value _ hvalue =>
    intro links state outcome _ hends hlinked hknown
    obtain rfl := CallTree.ends_done.1 hends
    have hvalue := hknown value hvalue
    have hsize := size_assign setting id name value state
    refine ⟨links, ?_, hlinked.assign hvalue, fun answer h other hother => ?_⟩
    · rw [hsize]
      exact .refl links _
    · cases List.mem_singleton.1 hother
      rw [hsize]
      exact answer_of_assign h ▸ hvalue
  | define _ hvalue =>
    intro links state outcome _ hends hlinked hknown
    obtain rfl := CallTree.ends_done.1 hends
    refine ⟨links, ?_, hlinked.define (hvalue.elim (hknown _) Value.Follows.of_isData),
      fun _ _ value hvalue => absurd hvalue List.not_mem_nil⟩
    rw [size_define]
    exact .refl links _
  | @declare _ declaration _ =>
    intro links state outcome _ hends hlinked _
    obtain rfl := CallTree.ends_done.1 hends
    refine ⟨links, ?_, hlinked.declare, fun _ _ value hvalue => absurd hvalue List.not_mem_nil⟩
    rw [size_declare]
    exact .refl links _
  | block =>
    intro links state outcome hmakes hends hlinked _
    exact linked_enclosed hmade (fun state => state.enter state.environment) id
      (fun _ => ⟨rfl, rfl⟩) hmakes hends hlinked (size_enter state state.environment)
      (hlinked.enter hlinked.environment)
  | @invocation _ _ _ _ _ declaration closure passed _ hfunction hpassed =>
    intro links state outcome hmakes hends hlinked hknown
    have hclosure := hknown _ hfunction _ _ _ rfl
    have hentered := hlinked.beginCall hclosure fun argument h => hknown _ (hpassed argument h)
    exact linked_enclosed hmade (·.beginCall closure passed) State.endCall (fun _ => ⟨rfl, rfl⟩)
      hmakes hends hlinked (size_beginCall state closure passed) hentered

end Built

/-- However the execution of code ends, every frame that was there before is inside the same frame
as before, and what any function can see are frames inside each other. -/
theorem linked_of_ends {state : State} {outcome : Outcome State Fault code.Result}
    (h : Routine.Ends (execute setting) (execute setting code) state outcome)
    (hlinked : state.Linked links) :
    LinkedAfter links state.store.frames.size code.values outcome := by
  have hall : ∀ links, state.Linked links →
      LinkedAfter links state.store.frames.size code.values outcome := by
    refine ends_induction (fun code state outcome hmade hends links hlinked => ?_) h
    have hbuilt : Built setting code [] code.values (execute setting code) := built_execute code
    exact hbuilt.linked hmade (fun _ h => h) hends hlinked fun _ h => absurd h List.not_mem_nil
  exact hall links hlinked

end Code

end Lox
