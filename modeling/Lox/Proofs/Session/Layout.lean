/-
# Which frame belongs to which scope

Each execution of a block and each call of a function opens one frame, and no other execution ever
opens it again. So it can be said of each frame which names its variables may have: those declared
directly in the block, or the parameters of the function and the names declared directly in its
body. `Opened` says so for all runs of a session at once, without looking into the store.
-/

import Lox.Proofs.Scope.Place
import Lox.Proofs.Session.History

namespace Lox

namespace Run

variable {run : Run} {state state' reached reached' : State} {callee : Expr} {paren : Token}
  {es : List Expr} {ss : List Stmt} {made : Code × State}

/-! ## What blocks and calls come to -/

theorem makes_block :
    run.Makes (.statement (.block ss)) state made ↔
      made = (.body ss, state.enter state.environment) := by
  show Routine.Makes (Code.execute run.setting) (Code.enclosed
    (fun state => state.enter state.environment) id (Routine.call (.body ss))) state made ↔ _
  exact Routine.makes_within.trans Routine.makes_call

theorem not_makes_builtin {caller : Token} {builtin : Builtin} {passed : List Value} :
    ¬ Routine.Makes (Code.execute run.setting)
      (Code.perform run.setting caller (.builtin builtin) passed) state made := by
  rw [Code.perform_builtin]
  split
  · intro h
    rcases Routine.makes_bind.1 h with h | ⟨time, reached, -, h⟩
    · exact Routine.not_makes_step h
    · exact Routine.not_makes_ofExcept h
  · exact Routine.not_makes_ofExcept

/-- A call comes to its callee, its arguments and the body of a function. -/
theorem makes_call (h : run.Makes (.expression (.call callee paren es)) state made) :
    made = (.expression callee, state) ∨
      ∃ identity called reached,
        run.Answers (.expression callee) state (.ok (.callable identity called), reached) ∧
          (made = (.arguments es, reached) ∨
            ∃ passed reached' declaration closure,
              run.Answers (.arguments es) reached (.ok passed, reached') ∧
                called = .function declaration closure ∧
                passed.length = declaration.parameters.length ∧
                reached'.callDepth < run.setting.config.maxCallDepth ∧
                made = (.body declaration.body,
                  reached'.beginCall closure (declaration.parameters.zip passed))) := by
  rcases Routine.makes_bind.1 h with h | ⟨function, reached, hcallee, h⟩
  · exact .inl (Routine.makes_call.1 h)
  · cases function with
    | callable identity called =>
      refine .inr ⟨identity, called, reached, Routine.ends_call.1 hcallee, ?_⟩
      rcases Routine.makes_bind.1 h with h | ⟨passed, reached', hpassed, h⟩
      · exact .inl (Routine.makes_call.1 h)
      · rcases Routine.makes_bind.1 h with h | ⟨depth, reached'', hdepth, h⟩
        · exact absurd h Routine.not_makes_gets
        · cases Routine.ends_gets.1 hdepth
          split at h
          · exact absurd h Routine.not_makes_fail
          · rename_i harity
            split at h
            · exact absurd h Routine.not_makes_fail
            · rename_i hdepth
              cases called with
              | function declaration closure =>
                refine .inr ⟨passed, reached', declaration, closure, Routine.ends_call.1 hpassed,
                  rfl, Decidable.not_not.1 harity, Nat.not_le.1 hdepth, ?_⟩
                rcases Routine.makes_bind.1 h with h | ⟨completion, _, _, h⟩
                · exact Routine.makes_call.1 (Routine.makes_within.1 h)
                · cases completion <;> exact absurd h Routine.not_makes_pure
              | builtin builtin => exact absurd h not_makes_builtin
    | _ => exact absurd h Routine.not_makes_fail

/-- A call of a function comes to its body when the arguments have been passed, one for each
parameter. -/
theorem makes_invocation {identity : Nat} {declaration : FunctionDecl} {closure : Environment}
    {ss : List Stmt} {state' : State}
    (hcallee : run.Answers (.expression callee) state
      (.ok (.callable identity (.function declaration closure)), reached))
    (hmakes : run.Makes (.expression (.call callee paren es)) state (.body ss, state')) :
    ∃ passed last, run.Answers (.arguments es) reached (.ok passed, last) ∧
      passed.length = declaration.parameters.length ∧
      state' = last.beginCall closure (declaration.parameters.zip passed) := by
  rcases makes_call hmakes with hmade | ⟨identity', called, reached', hcallee', h⟩
  · cases hmade
  · cases Routine.Ends.unique hcallee hcallee'
    rcases h with hmade |
      ⟨passed, last, declaration', closure', hpassed, hcalled, harity, -, hmade⟩
    · cases hmade
    · cases hcalled
      exact ⟨passed, last, hpassed, harity, congrArg Prod.snd hmade⟩

/-- Statements come to the first of them, and to the others once it has ended normally. -/
theorem makes_body {s : Stmt} (h : run.Makes (.body (s :: ss)) state made) :
    made = (.statement s, state) ∨
      ∃ reached, run.Answers (.statement s) state (.ok .normal, reached) ∧
        made = (.body ss, reached) := by
  rcases Routine.makes_bind.1 h with h | ⟨completion, reached, hends, h⟩
  · exact .inl (Routine.makes_call.1 h)
  · cases completion with
    | normal => exact .inr ⟨reached, Routine.ends_call.1 hends, Routine.makes_jump.1 h⟩
    | returned value => exact absurd h Routine.not_makes_pure

/-- Declaring a function comes to nothing else. -/
theorem not_makes_function {name : Token} {parameters : List Token} :
    ¬ run.Makes (.statement (.function name parameters ss)) state made := by
  intro h
  rcases Routine.makes_bind.1 h with h | ⟨_, _, _, h⟩
  · exact Routine.not_makes_modify h
  · exact Routine.not_makes_pure h

theorem answers_function {name : Token} {parameters : List Token}
    {outcome : Outcome State Fault Completion}
    (h : run.Answers (.statement (.function name parameters ss)) state outcome) :
    outcome = (.ok .normal, state.declare ⟨name, parameters, ss⟩) := by
  obtain ⟨_, reached, hmodify, hpure⟩ | ⟨_, _, hmodify, -⟩ := Routine.ends_bind.1 h
  · cases Routine.ends_modify.1 hmodify
    exact Routine.ends_pure.1 hpure
  · cases Routine.ends_modify.1 hmodify

/-- What a statement declares is there once it has ended normally. -/
theorem binds_declared {s : Stmt} {completion : Completion} {frame : FrameId} {name : String}
    (h : run.Answers (.statement s) state (.ok completion, reached))
    (hframe : some frame = state.environment.head?) (hsize : frame < state.store.frames.size)
    (hname : name ∈ s.declared) : reached.store.Binds frame name := by
  cases s with
  | var declared initializer =>
    obtain rfl := List.mem_singleton.1 hname
    have hdefine : ∀ first : Code.Step Value, Routine.Keeps State.SameScope first →
        Routine.Rises State.Grows first →
        Routine.Ends (Code.execute run.setting) (do
          let start ← first
          Routine.modify (·.define declared.lexeme start)
          pure .normal) state (.ok completion, reached) →
        reached.store.Binds frame declared.lexeme := by
      intro first hkeeps hrises h
      obtain ⟨start, middle, hstart, h⟩ | ⟨_, _, _, h⟩ := Routine.ends_bind.1 h
      · obtain ⟨_, last, hmodify, hpure⟩ | ⟨_, _, _, h⟩ := Routine.ends_bind.1 h
        · cases Routine.ends_modify.1 hmodify
          cases Routine.ends_pure.1 hpure
          have hscope : state.SameScope middle := Code.sameScope_of_ends hkeeps hstart
          have hgrows : state.Grows middle := Code.grows_of_ends hrises hstart
          refine State.binds_define.2 (.inr ⟨?_, rfl, Nat.lt_of_lt_of_le hsize hgrows.frames⟩)
          rwa [hscope.1]
        · cases h
      · cases h
    cases initializer with
    | none => exact hdefine _ Routine.keeps_pure Routine.rises_pure h
    | some e => exact hdefine _ Routine.keeps_call Routine.rises_call h
  | function declared parameters body =>
    obtain rfl := List.mem_singleton.1 hname
    cases answers_function h
    exact State.binds_declare.2 (.inr ⟨hframe, rfl, hsize⟩)
  | _ => cases hname

/-! ## Opening frames -/

/-- Executing code opens a frame for a scope that declares these names directly. -/
inductive Opens (run : Run) : Code × State → FrameId → List String → Prop where
  | block {ss : List Stmt} {state : State} :
      Opens run (.statement (.block ss), state) state.store.frames.size (Stmt.allDeclared ss)
  | call {callee : Expr} {paren : Token} {es : List Expr} {state reached reached' : State}
      {identity : Nat} {declaration : FunctionDecl} {closure : Environment} {passed : List Value}
      (hcallee : run.Answers (.expression callee) state
        (.ok (.callable identity (.function declaration closure)), reached))
      (hpassed : run.Answers (.arguments es) reached (.ok passed, reached'))
      (hmakes : run.Makes (.expression (.call callee paren es)) state (.body declaration.body,
        reached'.beginCall closure (declaration.parameters.zip passed))) :
      Opens run (.expression (.call callee paren es), state) reached'.store.frames.size
        (declaration.parameters.map Token.lexeme ++ Stmt.allDeclared declaration.body)

namespace Opens

variable {call call' : Code × State} {frame frame' : FrameId} {names names' : List String}

theorem unique (h : run.Opens call frame names) (h' : run.Opens call frame' names') :
    names = names' := by
  cases h with
  | block =>
    cases h' with
    | block => rfl
  | call hcallee hpassed hmakes =>
    cases h' with
    | call hcallee' hpassed' hmakes' =>
      cases Routine.Ends.unique hcallee hcallee'
      rfl

/-- The frame is not there before. -/
theorem size_le (h : run.Opens call frame names) : call.2.store.frames.size ≤ frame := by
  cases h with
  | block => exact Nat.le_refl _
  | call hcallee hpassed hmakes => exact Nat.le_trans hcallee.grows.frames hpassed.grows.frames

/-- The frame is opened by going into the scope. -/
theorem makes (h : run.Opens call frame names) :
    ∃ made, run.Makes call.1 call.2 made ∧ frame < made.2.store.frames.size := by
  cases h with
  | block =>
    refine ⟨_, makes_block.2 rfl, ?_⟩
    exact Nat.lt_of_lt_of_eq (Nat.lt_succ_self _) (State.size_enter _ _).symm
  | call hcallee hpassed hmakes =>
    refine ⟨_, hmakes, ?_⟩
    exact Nat.lt_of_lt_of_eq (Nat.lt_succ_self _) (State.size_beginCall _ _ _).symm

/-- What is executed on the way before the frame is opened is over by then. -/
theorem of_makes (h : run.Opens call frame names) (hmakes : run.Makes call.1 call.2 made) :
    frame < made.2.store.frames.size ∨
      ∃ outcome, run.Answers made.1 made.2 outcome ∧ outcome.2.store.frames.size ≤ frame := by
  cases h with
  | block =>
    rw [makes_block.1 hmakes]
    exact .inl (Nat.lt_of_lt_of_eq (Nat.lt_succ_self _) (State.size_enter _ _).symm)
  | call hcallee hpassed _ =>
    rcases makes_call hmakes with rfl | ⟨identity, called, reached, hcallee', h⟩
    · exact .inr ⟨_, hcallee, hpassed.grows.frames⟩
    · cases Routine.Ends.unique hcallee hcallee'
      rcases h with rfl | ⟨passed, reached', declaration, closure, hpassed', hcalled, -, -, rfl⟩
      · exact .inr ⟨_, hpassed, Nat.le_refl _⟩
      · cases Routine.Ends.unique hpassed hpassed'
        exact .inl (Nat.lt_of_lt_of_eq (Nat.lt_succ_self _) (State.size_beginCall _ _ _).symm)

/-- The frame is there once the execution is over. -/
theorem lt_size (h : run.Opens call frame names) {outcome : Outcome State Fault call.1.Result}
    (hanswers : run.Answers call.1 call.2 outcome) : frame < outcome.2.store.frames.size := by
  obtain ⟨made, hmakes, hlt⟩ := h.makes
  obtain ⟨outcome', houtcome', hgrows⟩ := Reaches.answers (.single hmakes) hanswers
  exact Nat.lt_of_lt_of_le hlt (Nat.le_trans houtcome'.grows.frames hgrows.frames)

/-- An execution within another does not open the frame that the other opens. -/
theorem eq_of_reaches (h : run.Opens call frame names) (h' : run.Opens call' frame names')
    (hreaches : run.Reaches call call') : call = call' := by
  rcases hreaches.cases_head with rfl | ⟨made, hmakes, hreaches⟩
  · rfl
  · exfalso
    rcases h.of_makes hmakes with hlt | ⟨outcome, hanswers, hle⟩
    · have hgrows : made.2.Grows call'.2 := Reaches.grows hreaches
      exact absurd h'.size_le (Nat.not_le.2 (Nat.lt_of_lt_of_le hlt hgrows.frames))
    · obtain ⟨outcome', hanswers', hgrows⟩ := Reaches.answers hreaches hanswers
      exact absurd (Nat.le_trans hgrows.frames hle) (Nat.not_le.2 (h'.lt_size hanswers'))

end Opens

end Run

/-- A frame is opened in one of some runs, for a scope that declares these names directly. -/
def Opened (runs : List Run) (frame : FrameId) (names : List String) : Prop :=
  ∃ run ∈ runs, ∃ call, run.Comes call ∧ run.Opens call frame names

theorem Opened.mono {runs runs' : List Run} (h : runs ⊆ runs') {frame : FrameId}
    {names : List String} (hopened : Opened runs frame names) : Opened runs' frame names := by
  obtain ⟨run, hrun, hopens⟩ := hopened
  exact ⟨run, h hrun, hopens⟩

/-- The frame of the global variables is opened by no run. -/
theorem Begun.ne_globalFrame {run : Run} {past : List Run} {frame : FrameId} {names : List String}
    (h : Begun run past) (hopened : Opened (run :: past) frame names) :
    frame ≠ Store.globalFrame := by
  obtain ⟨first, hfirst, call, hcomes, hopens⟩ := hopened
  have hsize : State.initial.store.frames.size ≤ frame :=
    Nat.le_trans (h.grows_initial hfirst).frames (Nat.le_trans hcomes.grows.frames hopens.size_le)
  exact Nat.ne_of_gt (Nat.lt_of_lt_of_le (by decide) hsize)

/-- A frame is opened once, whatever is executed. -/
theorem Begun.opened_unique {run : Run} {past : List Run} {frame : FrameId}
    {names names' : List String} (h : Begun run past)
    (hopened : Opened (run :: past) frame names) (hopened' : Opened (run :: past) frame names') :
    names = names' := by
  obtain ⟨first, hfirst, call, hcomes, hopens⟩ := hopened
  obtain ⟨second, hsecond, call', hcomes', hopens'⟩ := hopened'
  rcases h.ordered_comes hfirst hsecond hcomes hcomes' with ⟨rfl, hreaches | hreaches⟩ |
    ⟨outcome, hanswers, hgrows⟩ | ⟨outcome, hanswers, hgrows⟩
  · obtain rfl := hopens.eq_of_reaches hopens' hreaches
    exact hopens.unique hopens'
  · obtain rfl := hopens'.eq_of_reaches hopens hreaches
    exact hopens.unique hopens'
  · exact absurd (Nat.le_trans hgrows.frames hopens'.size_le)
      (Nat.not_le.2 (hopens.lt_size hanswers))
  · exact absurd (Nat.le_trans hgrows.frames hopens.size_le)
      (Nat.not_le.2 (hopens'.lt_size hanswers))

end Lox
