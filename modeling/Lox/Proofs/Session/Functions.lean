/-
# Which functions there are

A function is a value, and it outlives the scope it was declared in: it can be passed on, stored in
any frame and called in a later run. So what is known of functions has to be known of all values
that there are. `Known` says of a value that, if it is a function of a program, it came into being
when the statement that declares it was executed, and that it carries what could be seen then.
`Sound` says so of the values in a store, and that each variable is declared in the scope its frame
was opened for.
-/

import Lox.Proofs.Session.Moment

namespace Lox

/-! ## Functions of programs -/

/-- A value that, if it is a function of a program, has come into being in one of some runs, is
among the first `bound` functions, and carries what could be seen where it was declared. -/
def Known (runs : List Run) (bound : Nat) (value : Value) : Prop :=
  ∀ identity declaration closure, value = .callable identity (.function declaration closure) →
    identity < bound ∧ ∃ runs' place state, runs' <:+ runs ∧
      Moment runs' place (.statement declaration.statement) state ∧
      identity = state.store.functions ∧ closure = state.environment

namespace Known

variable {runs runs' : List Run} {bound bound' : Nat} {value : Value}

theorem of_isData (h : value.IsData) : Known runs bound value := by
  rintro identity declaration closure rfl
  exact absurd rfl h

theorem builtin {identity : Nat} {called : Builtin} :
    Known runs bound (.callable identity (.builtin called)) := by
  intro identity declaration closure h
  cases h

theorem mono (h : Known runs bound value) (hruns : runs <:+ runs') (hbound : bound ≤ bound') :
    Known runs' bound' value := by
  intro identity declaration closure hvalue
  obtain ⟨hlt, before, place, state, hbefore, hrest⟩ := h identity declaration closure hvalue
  exact ⟨Nat.lt_of_lt_of_le hlt hbound, before, place, state, hbefore.trans hruns, hrest⟩

/-- What comes into being at the declaration of a function is known from then on. -/
theorem function {place : Place} {state : State} {declaration : FunctionDecl}
    (h : Moment runs place (.statement declaration.statement) state) :
    Known runs (state.store.functions + 1)
      (.callable state.store.functions (.function declaration state.environment)) := by
  intro identity declaration closure hvalue
  cases hvalue
  exact ⟨Nat.lt_succ_self _, runs, place, state, List.suffix_refl runs, h, rfl, rfl⟩

end Known

/-- A frame may have a variable: it is the frame of the global variables, or it was opened for a
scope that declares the variable. -/
def Allowed (runs : List Run) (frame : FrameId) (name : String) : Prop :=
  frame = Store.globalFrame ∨ ∃ names, Opened runs frame names ∧ name ∈ names

theorem Allowed.mono {runs runs' : List Run} {frame : FrameId} {name : String}
    (h : Allowed runs frame name) (hruns : runs ⊆ runs') : Allowed runs' frame name := by
  rcases h with h | ⟨names, hopened, hname⟩
  · exact .inl h
  · exact .inr ⟨names, hopened.mono hruns, hname⟩

/-! ## Stores in order -/

/-- Every variable in a store is where it may be, and every value in it is known. -/
structure Sound (runs : List Run) (store : Store) : Prop where
  /-- Frames have only variables that they may have. -/
  allowed : ∀ frame name, store.Binds frame name → Allowed runs frame name
  /-- The values are known. -/
  known : ∀ frame name value, store.find? frame name = some value →
    Known runs store.functions value

namespace Sound

variable {runs runs' : List Run} {store : Store} {state : State}

theorem mono (h : Sound runs store) (hruns : runs <:+ runs') : Sound runs' store :=
  ⟨fun frame name hbinds => (h.allowed frame name hbinds).mono hruns.subset,
    fun frame name value hfind => (h.known frame name value hfind).mono hruns (Nat.le_refl _)⟩

theorem insert {frame : FrameId} {name : String} {value : Value} (h : Sound runs store)
    (hallowed : frame < store.frames.size → Allowed runs frame name)
    (hknown : Known runs store.functions value) : Sound runs (store.insert frame name value) := by
  constructor
  · intro other name' hbinds
    rcases Store.binds_insert.1 hbinds with hbinds | ⟨rfl, rfl, hsize⟩
    · exact h.allowed other name' hbinds
    · exact hallowed hsize
  · intro other name' found hfind
    rw [Store.find?_insert] at hfind
    split at hfind
    · cases hfind
      exact hknown
    · exact h.known other name' found hfind

/-- Where variables are declared, it is in a frame that may have them. -/
theorem define {name : String} {value : Value} (h : Sound runs state.store)
    (hallowed : ∀ frame, some frame = state.environment.head? → Allowed runs frame name)
    (hknown : Known runs state.store.functions value) :
    Sound runs (state.define name value).store := by
  unfold State.define Store.define
  dsimp only
  split
  · exact h
  · rename_i frame rest henvironment
    apply h.insert
    · intro _
      apply hallowed
      rw [henvironment]
      rfl
    · exact hknown

theorem foldl_define {arguments : List (Token × Value)} (h : Sound runs state.store)
    (hallowed : ∀ frame, some frame = state.environment.head? →
      ∀ argument ∈ arguments, Allowed runs frame argument.1.lexeme)
    (hknown : ∀ argument ∈ arguments, Known runs state.store.functions argument.2) :
    Sound runs (arguments.foldl
      (fun state argument => state.define argument.1.lexeme argument.2) state).store := by
  induction arguments generalizing state with
  | nil => exact h
  | cons argument rest ih =>
    rw [List.foldl_cons]
    apply ih
    · apply h.define
      · exact fun frame hframe => hallowed frame hframe argument List.mem_cons_self
      · exact hknown argument List.mem_cons_self
    · exact fun frame hframe other hother =>
        hallowed frame hframe other (List.mem_cons_of_mem argument hother)
    · intro other hother
      have hfunctions : (state.define argument.1.lexeme argument.2).store.functions =
          state.store.functions := by
        unfold State.define Store.define
        dsimp only
        split <;> rfl
      rw [hfunctions]
      exact hknown other (List.mem_cons_of_mem argument hother)

theorem enter (h : Sound runs state.store) (outer : Environment) :
    Sound runs (state.enter outer).store := by
  constructor
  · intro frame name hbinds
    exact h.allowed frame name ((State.binds_enter outer).1 hbinds)
  · intro frame name value hfind
    have hchild := Store.find?_child state.store outer frame name
    exact h.known frame name value (hchild.symm.trans hfind)

theorem beginCall {outer : Environment} {arguments : List (Token × Value)} {names : List String}
    (h : Sound runs state.store) (hopened : Opened runs state.store.frames.size names)
    (hnames : ∀ argument ∈ arguments, argument.1.lexeme ∈ names)
    (hknown : ∀ argument ∈ arguments, Known runs state.store.functions argument.2) :
    Sound runs (state.beginCall outer arguments).store := by
  rw [State.beginCall_eq]
  have hopen : Sound runs (state.openCall outer).store := h.enter outer
  apply hopen.foldl_define
  · intro frame hframe argument hargument
    cases hframe
    exact .inr ⟨names, hopened, hnames argument hargument⟩
  · exact hknown

/-- The declaration of a function makes a function that is known. -/
theorem declare {place : Place} {declaration : FunctionDecl} (h : Sound runs state.store)
    (hmoment : Moment runs place (.statement declaration.statement) state)
    (hallowed : ∀ frame, some frame = state.environment.head? →
      Allowed runs frame declaration.name.lexeme) :
    Sound runs (state.declare declaration).store := by
  let next : State := { state with store := { state.store with
    functions := state.store.functions + 1 } }
  have hnext : Sound runs next.store :=
    ⟨h.allowed, fun frame name value hfind =>
      (h.known frame name value hfind).mono (List.suffix_refl runs) (Nat.le_succ _)⟩
  exact hnext.define hallowed (Known.function hmoment)

theorem assign {setting : Setting} {id : AccessId} {name : Token} {value : Value}
    (h : Sound runs state.store) (hknown : Known runs state.store.functions value) :
    Sound runs (State.assign setting id name value state).2.store := by
  unfold State.assign
  split
  · rename_i frame old hlookup
    apply h.insert
    · intro _
      apply h.allowed
      unfold Store.Binds
      rw [State.find?_of_lookup hlookup]
      rfl
    · exact hknown
  · exact h

theorem install (h : Sound runs store) : Sound runs (store.install Store.globals) := by
  unfold Store.install
  generalize Builtin.all = builtins
  induction builtins generalizing store with
  | nil => exact h
  | cons builtin rest ih =>
    rw [List.foldl_cons]
    apply ih
    have hnext : Sound runs (store.newFunction (.builtin builtin)).2 :=
      ⟨h.allowed, fun frame name value hfind =>
        (h.known frame name value hfind).mono (List.suffix_refl runs) (Nat.le_succ _)⟩
    exact hnext.insert (fun _ => .inl rfl) .builtin

theorem initial : Sound runs State.initial.store := by
  have hnone : ∀ frame name, Store.empty.find? frame name = none := by
    rintro (_ | frame) name <;> rfl
  apply install
  constructor
  · intro frame name hbinds
    unfold Store.Binds at hbinds
    rw [hnone] at hbinds
    cases hbinds
  · intro frame name value hfind
    rw [hnone] at hfind
    cases hfind

end Sound

end Lox
