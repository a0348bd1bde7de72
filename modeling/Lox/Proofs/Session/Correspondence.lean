/-
# Scopes and frames correspond

Every execution of code is a moment: what is executed has a place in the program that it comes from.
The reason is that every function there is has come into being at a moment (`Sound`), so that a call
leads to a body with a place. Both are shown together, one construct after another, and then hold
throughout a run and from one run to the next.

At a moment the frames in sight are those opened for the scopes around the place. So they have the
variables that the scopes declare before the code, and no others than the scopes declare at all.
-/

import Lox.Proofs.Session.Functions

namespace Lox

namespace Begun

variable {run first : Run} {past runs : List Run}

theorem exists_of_mem (h : Begun run past) (hfirst : first ∈ run :: past) :
    ∃ before, Begun first before := by
  obtain ⟨after, before, hpast⟩ := List.append_of_mem hfirst
  exact ⟨before, h.of_suffix ⟨after, hpast.symm⟩⟩

variable {place : Place} {code : Code} {state : State}

theorem sees (h : Begun run past) (hmoment : Moment (run :: past) place code state) :
    Sees (run :: past) state.store state.environment place.scopes := by
  apply hmoment.sees
  intro run' past' hruns
  cases hruns
  exact h

/-- When code has ended, the frames for the scopes around it are in sight again. -/
theorem sees_end (h : Begun run past) (hmoment : Moment (run :: past) place code state)
    {outcome : Outcome State Fault code.Result} (hanswers : run.Answers code state outcome) :
    Sees (run :: past) outcome.2.store outcome.2.environment place.scopes := by
  rw [hanswers.sameScope.1]
  exact (h.sees hmoment).mono (List.Subset.refl _) hanswers.grows

/-- The code of a moment is well-formed, and what it declares counts among the names of the scope
that it stands in. -/
theorem wellFormed_code (h : Begun run past) (hmoment : Moment (run :: past) place code state) :
    code.WellFormed ∧ place.Lists code.declared := by
  obtain ⟨first, hfirst, hlies⟩ := hmoment.lies
  obtain ⟨before, hbegun⟩ := h.exists_of_mem hfirst
  exact hlies.wellFormed hbegun.wellFormed

/-- The innermost frame in sight may have what the code declares. -/
theorem allowed_declared (h : Begun run past) (hmoment : Moment (run :: past) place code state)
    {frame : FrameId} (hframe : some frame = state.environment.head?) {name : String}
    (hname : name ∈ code.declared) : Allowed (run :: past) frame name := by
  obtain ⟨frames, henvironment, hfits⟩ := h.sees hmoment
  have hlists := (h.wellFormed_code hmoment).2
  rw [henvironment] at hframe
  obtain ⟨scopes, inFunction, initializes⟩ := place
  cases hfits with
  | nil =>
    cases hframe
    exact .inl rfl
  | @cons _ scope _ _ hfirst _ =>
    cases hframe
    exact .inr ⟨scope.names, hfirst.opened, hlists scope rfl hname⟩

end Begun

/-! ## Every execution is a moment -/

/-- The store is sound when something begins, and it is a moment of the runs. -/
def Starts (runs : List Run) (call : Code × State) : Prop :=
  (∃ place, Moment runs place call.1 call.2) ∧ Sound runs call.2.store

/-- The store is sound when something ends, and the values that come of it are known. -/
def Leaves {α : Type} (runs : List Run) (values : α → List Value)
    (outcome : Outcome State Fault α) : Prop :=
  Sound runs outcome.2.store ∧
    ∀ answer, outcome.1 = .ok answer →
      ∀ value ∈ values answer, Known runs outcome.2.store.functions value

namespace Leaves

variable {α : Type} {runs : List Run} {values : α → List Value} {state : State}

theorem error {fault : Fault} (h : Sound runs state.store) :
    Leaves runs values (.error fault, state) := by
  constructor
  · exact h
  · intro answer hanswer
    cases hanswer

theorem ok {answer : α} (h : Sound runs state.store)
    (hvalues : ∀ value ∈ values answer, Known runs state.store.functions value) :
    Leaves runs values (.ok answer, state) := by
  constructor
  · exact h
  · intro answer' hanswer
    cases hanswer
    exact hvalues

/-- What is computed from data is data. -/
theorem ofExcept {code : Expr} {result : Except Fault Value} (h : Sound runs state.store)
    (hresult : YieldsData result) :
    Leaves runs (Code.values (.expression code)) (result, state) := by
  constructor
  · exact h
  · rintro answer hanswer value hvalue
    obtain rfl := List.mem_singleton.1 hvalue
    exact .of_isData (hresult _ hanswer)

theorem get {setting : Setting} {id : AccessId} {name : Token} (h : Sound runs state.store) :
    Leaves runs (Code.values (.expression (.read id name))) (State.get setting id name state) := by
  constructor
  · exact h
  · intro answer hanswer value hvalue
    obtain rfl := List.mem_singleton.1 hvalue
    unfold State.get at hanswer
    cases hlookup : state.lookup setting id name with
    | error fault =>
      rw [hlookup] at hanswer
      cases hanswer
    | ok found =>
      rw [hlookup] at hanswer
      cases hanswer
      exact h.known _ _ _ (State.find?_of_lookup hlookup)

theorem assign {setting : Setting} {id : AccessId} {name : Token} {e : Expr} {value : Value}
    (h : Sound runs state.store) (hknown : Known runs state.store.functions value) :
    Leaves runs (Code.values (.expression (.assign id name e)))
      (State.assign setting id name value state) := by
  constructor
  · exact h.assign hknown
  · intro answer hanswer found hfound
    obtain rfl := List.mem_singleton.1 hfound
    unfold State.assign at hanswer ⊢
    split at hanswer
    · cases hanswer
      exact hknown
    · cases hanswer

end Leaves

/-- Steps that belong to the execution of some code start only what is a moment of the runs, with
the store sound. -/
def Orderly (run : Run) (past : List Run) (code : Code) (state : State) {α : Type}
    (step : Code.Step α) (reached : State) (post : Outcome State Fault α → Prop) : Prop :=
  Routine.Ensures (fun made => run.Makes code state made → Starts (run :: past) made)
    (fun made outcome => Leaves (run :: past) made.1.values outcome ∧
      run.Answers made.1 made.2 outcome) step reached post

namespace Orderly

variable {α : Type} {run : Run} {past : List Run} {place place' : Place} {code made : Code}
  {state reached : State} (h : Moment (run :: past) place code state)
include h

/-- A part is executed first. -/
theorem part_bind {values : α → List Value} {next : made.Result → Code.Step α}
    (hpart : Part place code place' made) (hsound : Sound (run :: past) reached.store)
    (hnext : ∀ answer last, Sound (run :: past) last.store →
      (∀ value ∈ made.values answer, Known (run :: past) last.store.functions value) →
      run.Answers made reached (.ok answer, last) →
      Orderly run past code state (next answer) last (Leaves (run :: past) values)) :
    Orderly run past code state (Routine.call made >>= next) reached
      (Leaves (run :: past) values) := by
  apply Routine.Ensures.call_bind
  · exact fun hmakes => ⟨⟨place', h.part hmakes hpart⟩, hsound⟩
  · exact fun fault last hleaves => .error hleaves.1.1
  · intro answer last hleaves
    exact hnext answer last hleaves.1.1 (hleaves.1.2 answer rfl) hleaves.2

/-- A part is executed last. -/
theorem part_jump (hpart : Part place code place' made)
    (hsound : Sound (run :: past) reached.store) :
    Orderly run past code state (Routine.jump made) reached
      (Leaves (run :: past) made.values) := by
  apply Routine.ensures_jump.2
  constructor
  · exact fun hmakes => ⟨⟨place', h.part hmakes hpart⟩, hsound⟩
  · exact fun outcome hleaves => hleaves.1

omit h in
/-- The statements of a block or a function are executed as a part, after which the same can be seen
as before. -/
theorem enclosed {enter leave : State → State} {ss : List Stmt}
    {post : Outcome State Fault (Code.Result (.body ss)) → Prop}
    (hleave : ∀ state, (leave state).store = state.store)
    (hstarts : run.Makes code state (.body ss, enter reached) →
      Starts (run :: past) (.body ss, enter reached))
    (hpost : ∀ outcome, Leaves (run :: past) (Code.values (.body ss)) outcome → post outcome) :
    Orderly run past code state (Code.enclosed enter leave (Routine.call (.body ss))) reached
      post := by
  apply Routine.ensures_within.2
  apply Routine.ensures_call.2
  constructor
  · exact hstarts
  · rintro ⟨result, last⟩ ⟨hleaves, -⟩
    apply hpost
    unfold Leaves at hleaves ⊢
    rw [hleave]
    exact hleaves

end Orderly

section Execution

variable {run : Run} {past : List Run} {place : Place} {state : State}

/-- A call leads to the body of a function that is known, with what could be seen at its
declaration. -/
theorem orderly_perform {callee : Expr} {paren caller : Token} {es : List Expr}
    {identity : Nat} {called : Callable} {passed : List Value} {reached last : State}
    (h : Moment (run :: past) place (.expression (.call callee paren es)) state)
    (hcallee : run.Answers (.expression callee) state (.ok (.callable identity called), reached))
    (hknown : Known (run :: past) reached.store.functions (.callable identity called))
    (hpassed : run.Answers (.arguments es) reached (.ok passed, last))
    (hvalues : ∀ value ∈ passed, Known (run :: past) last.store.functions value)
    (hsound : Sound (run :: past) last.store) :
    Orderly run past (.expression (.call callee paren es)) state
      (Code.perform run.setting caller called passed) last
      (Leaves (run :: past) (Code.values (.expression (.call callee paren es)))) := by
  cases called with
  | function declaration closure =>
    obtain ⟨hidentity, runs, declared, state₀, hruns, hdeclared, rfl, rfl⟩ :=
      hknown _ declaration closure rfl
    apply Routine.ensures_bind.2
    apply Orderly.enclosed
    · exact fun _ => rfl
    · intro hmakes
      have hgrows : last.Grows (last.beginCall state₀.environment
        (declaration.parameters.zip passed)) := State.grows_beginCall _ _ _
      constructor
      · exact ⟨declared.within declaration, h.call hdeclared hruns hcallee hmakes
          (Nat.lt_of_lt_of_le hidentity (Nat.le_trans hpassed.grows.functions hgrows.functions))⟩
      · apply hsound.beginCall
        · exact ⟨run, List.mem_cons_self, _, h.comes_latest, .call hcallee hpassed hmakes⟩
        · intro argument hargument
          apply List.mem_append_left
          exact List.mem_map_of_mem (List.of_mem_zip hargument).1
        · exact fun argument hargument => hvalues _ (List.of_mem_zip hargument).2
    · rintro ⟨fault | completion, reached'⟩ ⟨hsound', hreturned⟩
      · exact .error hsound'
      · cases completion with
        | normal =>
          apply Leaves.ok hsound'
          intro value hvalue
          obtain rfl := List.mem_singleton.1 hvalue
          exact .of_isData fun h => by cases h
        | returned value => exact .ok hsound' (hreturned _ rfl)
  | builtin builtin =>
    rw [Code.perform_builtin]
    split
    · apply Routine.ensures_bind.2
      exact Leaves.ofExcept hsound (Code.yieldsData_invoked caller builtin passed _)
    · exact Leaves.ofExcept hsound (Code.yieldsData_invoked caller builtin passed 0)

theorem orderly_evaluateCall {callee : Expr} {paren : Token} {es : List Expr}
    (h : Moment (run :: past) place (.expression (.call callee paren es)) state)
    (hsound : Sound (run :: past) state.store) :
    Orderly run past (.expression (.call callee paren es)) state
      (Code.evaluateCall run.setting callee paren es) state
      (Leaves (run :: past) (Code.values (.expression (.call callee paren es)))) := by
  apply Orderly.part_bind h .callee hsound
  intro function reached hsound hknown hcallee
  cases function with
  | callable identity called =>
    apply Orderly.part_bind h .arguments hsound
    intro passed last hsound hvalues hpassed
    apply Routine.ensures_bind.2
    apply Routine.ensures_gets.2
    dsimp only
    split
    · exact .error hsound
    · split
      · exact .error hsound
      · exact orderly_perform h hcallee (hknown _ List.mem_cons_self) hpassed hvalues hsound
  | _ => exact .error hsound

theorem orderly_evaluate {e : Expr} (h : Moment (run :: past) place (.expression e) state)
    (hsound : Sound (run :: past) state.store) :
    Orderly run past (.expression e) state (Code.evaluate run.setting e) state
      (Leaves (run :: past) (Code.values (.expression e))) := by
  cases e with
  | literal constant =>
    apply Leaves.ok hsound
    intro value hvalue
    obtain rfl := List.mem_singleton.1 hvalue
    exact .of_isData (Value.isData_ofConstant constant)
  | read id name => exact .get hsound
  | assign id name e =>
    apply Orderly.part_bind h .assigned hsound
    intro assigned reached hsound hknown _
    exact Leaves.assign hsound (hknown _ List.mem_cons_self)
  | unary operator e =>
    apply Orderly.part_bind h .operand hsound
    intro operand reached hsound hknown hoperand
    exact Leaves.ofExcept hsound (Operator.yieldsData_unary operator operand)
  | binary e operator f =>
    apply Orderly.part_bind h .binaryLeft hsound
    intro left reached hsound hleft _
    apply Orderly.part_bind h .binaryRight hsound
    intro right last hsound hright _
    exact Leaves.ofExcept hsound (Operator.yieldsData_binary operator left right)
  | logical e operator f =>
    apply Orderly.part_bind h .logicalLeft hsound
    intro left reached hsound hleft _
    have hdecide : ∀ decided : Bool, Orderly run past (.expression (.logical e operator f)) state
        (if decided then pure left else Routine.jump (Code.expression f)) reached
        (Leaves (run :: past) (Code.values (.expression (.logical e operator f)))) := by
      intro decided
      split
      · exact .ok hsound hleft
      · exact Orderly.part_jump h .logicalRight hsound
    split <;> exact hdecide _
  | conditional condition whenTrue whenFalse =>
    apply Orderly.part_bind h .condition hsound
    intro decision reached hsound _ _
    have hpart : Part place (.expression (.conditional condition whenTrue whenFalse)) place
        (.expression (if decision.isTruthy then whenTrue else whenFalse)) := by
      split
      · exact .whenTrue
      · exact .whenFalse
    exact Orderly.part_jump h hpart hsound
  | call callee paren es => exact orderly_evaluateCall h hsound
  | group e => exact Orderly.part_jump h .grouped hsound
  | host keyword e =>
    apply Orderly.part_bind h .hostCode hsound
    intro code reached hsound _ _
    split
    · rename_i answer hanswer
      apply Leaves.ok hsound
      intro value hvalue
      obtain rfl := List.mem_singleton.1 hvalue
      exact .of_isData (run.setting.host.yieldsData_obey _ _ _ hanswer)
    · exact .error hsound

theorem orderly_executeStatement (hbegun : Begun run past) {s : Stmt}
    (h : Moment (run :: past) place (.statement s) state)
    (hsound : Sound (run :: past) state.store) :
    Orderly run past (.statement s) state (Code.executeStatement s) state
      (Leaves (run :: past) (Code.values (.statement s))) := by
  have hnormal : ∀ reached : State, Sound (run :: past) reached.store →
      Leaves (run :: past) (Code.values (.statement s)) (.ok .normal, reached) := by
    intro reached hsound
    apply Leaves.ok hsound
    intro value hvalue
    cases hvalue
  cases s with
  | expression e =>
    apply Orderly.part_bind h .evaluated hsound
    intro _ reached hsound _ _
    exact hnormal reached hsound
  | print keyword e =>
    apply Orderly.part_bind h .printed hsound
    intro printed reached hsound _ _
    apply Routine.ensures_bind.2
    exact hnormal (reached.print printed.display) hsound
  | var name initializer =>
    have hdefine : ∀ (start : Value) (reached : State), Sound (run :: past) reached.store →
        Known (run :: past) reached.store.functions start → state.SameScope reached →
        Leaves (run :: past) (Code.values (.statement (.var name initializer)))
          (.ok .normal, reached.define name.lexeme start) := by
      intro start reached hsound hknown hscope
      apply hnormal
      apply hsound.define
      · intro frame hframe
        rw [hscope.1] at hframe
        exact hbegun.allowed_declared h hframe List.mem_cons_self
      · exact hknown
    cases initializer with
    | none => exact hdefine .nil state hsound (.of_isData fun h => by cases h) ⟨rfl, rfl⟩
    | some e =>
      apply Orderly.part_bind h .initializer hsound
      intro start reached hsound hknown hstart
      exact hdefine start reached hsound (hknown _ List.mem_cons_self) hstart.sameScope
  | block ss =>
    apply Orderly.enclosed
    · exact fun _ => rfl
    · intro hmakes
      exact ⟨⟨place.enter ss, h.part hmakes .block⟩, hsound.enter state.environment⟩
    · exact fun outcome hleaves => hleaves
  | ifThen condition whenTrue =>
    apply Orderly.part_bind h .ifThenCondition hsound
    intro decision reached hsound _ _
    split
    · exact Orderly.part_jump h .ifThenTrue hsound
    · exact hnormal reached hsound
  | ifElse condition whenTrue whenFalse =>
    apply Orderly.part_bind h .ifElseCondition hsound
    intro decision reached hsound _ _
    have hpart : Part place (.statement (.ifElse condition whenTrue whenFalse)) place
        (.statement (if decision.isTruthy then whenTrue else whenFalse)) := by
      split
      · exact .ifElseTrue
      · exact .ifElseFalse
    exact Orderly.part_jump h hpart hsound
  | «while» condition s =>
    apply Orderly.part_bind h .whileCondition hsound
    intro decision reached hsound _ _
    split
    · apply Orderly.part_bind h .whileBody hsound
      intro completion last hsound hknown _
      cases completion with
      | normal => exact Orderly.part_jump h .whileAgain hsound
      | returned value => exact .ok hsound hknown
    · exact hnormal reached hsound
  | function name parameters ss =>
    apply hnormal
    have hmoment : Moment (run :: past) place
        (.statement (FunctionDecl.statement ⟨name, parameters, ss⟩)) state := h
    apply hsound.declare hmoment
    intro frame hframe
    exact hbegun.allowed_declared h hframe List.mem_cons_self
  | «return» keyword e =>
    apply Routine.ensures_bind.2
    apply Routine.ensures_gets.2
    dsimp only
    split
    · exact .error hsound
    · cases e with
      | none =>
        apply Leaves.ok hsound
        intro value hvalue
        obtain rfl := List.mem_singleton.1 hvalue
        exact .of_isData fun h => by cases h
      | some e =>
        apply Orderly.part_bind h .returned hsound
        intro returned reached hsound hknown _
        exact .ok hsound hknown

/-- Where code is executed at a moment, whatever is executed within it is a moment as well, and the
store stays sound. -/
theorem orderly_execute (hbegun : Begun run past) {code : Code}
    (h : Moment (run :: past) place code state) (hsound : Sound (run :: past) state.store) :
    Orderly run past code state (Code.execute run.setting code) state
      (Leaves (run :: past) code.values) := by
  cases code with
  | expression e => exact orderly_evaluate h hsound
  | arguments es =>
    cases es with
    | nil =>
      apply Leaves.ok hsound
      intro value hvalue
      cases hvalue
    | cons e es =>
      apply Orderly.part_bind h .firstArgument hsound
      intro first reached hsound hfirst _
      apply Orderly.part_bind h .otherArguments hsound
      intro others last hsound hothers hanswers
      apply Leaves.ok hsound
      intro value hvalue
      rcases List.mem_cons.1 hvalue with rfl | hvalue
      · exact (hfirst _ List.mem_cons_self).mono (List.suffix_refl _) hanswers.grows.functions
      · exact hothers value hvalue
  | statement s => exact orderly_executeStatement hbegun h hsound
  | body ss =>
    cases ss with
    | nil =>
      apply Leaves.ok hsound
      intro value hvalue
      cases hvalue
    | cons s ss =>
      apply Orderly.part_bind h .firstStatement hsound
      intro completion reached hsound hknown _
      cases completion with
      | normal => exact Orderly.part_jump h .otherStatements hsound
      | returned value => exact .ok hsound hknown

end Execution

/-! ## Throughout a run, and from one run to the next -/

section Session

variable {run : Run} {past : List Run}

private theorem watched_execute (hbegun : Begun run past) (call : Code × State)
    (h : Starts (run :: past) call) :
    CallTree.Watched (fun call : Code × State => Code.execute run.setting call.1 call.2)
      (Starts (run :: past)) (fun call outcome => Leaves (run :: past) call.1.values outcome)
      (Code.execute run.setting call.1 call.2)
      fun outcome => Leaves (run :: past) call.1.values outcome := by
  obtain ⟨⟨place, hmoment⟩, hsound⟩ := h
  exact orderly_execute hbegun hmoment hsound

private theorem watched_steps (hsound : Sound (run :: past) run.state.store) :
    CallTree.Watched (fun call : Code × State => Code.execute run.setting call.1 call.2)
      (Starts (run :: past)) (fun call outcome => Leaves (run :: past) call.1.values outcome)
      (Program.steps run.program run.state)
      fun outcome => Sound (run :: past) outcome.2.store := by
  have hsteps : ∀ (program : List Stmt) (state : State), Sound (run :: past) state.store →
      Routine.Ensures (fun made => Routine.Makes (Code.execute run.setting)
          (Program.steps run.program) run.state made → Starts (run :: past) made)
        (fun made outcome => Leaves (run :: past) made.1.values outcome ∧
          run.Answers made.1 made.2 outcome) (Program.steps program) state
        fun outcome => Sound (run :: past) outcome.2.store := by
    intro program
    induction program with
    | nil => exact fun state hsound => hsound
    | cons s ss ih =>
      intro state hsound
      apply Routine.Ensures.call_bind
      · exact fun hmakes => ⟨⟨.top, .program hmakes⟩, hsound⟩
      · exact fun fault reached hleaves => hleaves.1.1
      · exact fun completion reached hleaves => ih reached hleaves.1.1
  exact hsteps run.program run.state hsound

/-- The store is sound when runs have ended. -/
theorem Chronicle.sound {state : State} (h : Chronicle past state) : Sound past state.store := by
  induction h with
  | start => exact .initial
  | @run past run result reached h hwf hends ih =>
    have hstart : Sound (run :: past) run.state.store := ih.mono (List.suffix_cons run past)
    have hend := CallTree.Ends.of_watched (watched_execute ⟨h, hwf⟩) (watched_steps hstart) hends
    have hsound : Sound (run :: past) reached.store := hend
    cases result with
    | ok _ => exact hsound
    | error fault => exact hsound

namespace Begun

variable {code : Code} {state : State}

/-- Whatever is executed in a run is executed at a moment, with the store sound. -/
theorem starts (h : Begun run past) (hcomes : run.Comes (code, state)) :
    Starts (run :: past) (code, state) := by
  have hstart : Sound (run :: past) run.state.store :=
    h.chronicle.sound.mono (List.suffix_cons run past)
  obtain ⟨first, hmakes, hreaches⟩ := hcomes
  have hfirst := CallTree.Makes.of_watched (watched_execute h) (watched_steps hstart) hmakes
  exact CallTree.Reaches.of_watched (watched_execute h) hfirst hreaches

/-- The store is sound when what is executed in a run ends. -/
theorem leaves (h : Begun run past) (hcomes : run.Comes (code, state))
    {outcome : Outcome State Fault code.Result} (hanswers : run.Answers code state outcome) :
    Leaves (run :: past) code.values outcome :=
  CallTree.Answers.of_watched (watched_execute h) (h.starts hcomes) hanswers

end Begun

/-- The frames in sight belong to the scopes around a place: they have only variables that the
scopes declare, and all those that the scopes declare before the place. -/
def Place.Corresponds (place : Place) (state : State) : Prop :=
  ∃ frames, state.environment = frames ++ Store.globals ∧
    List.Forall₂ (fun frame scope => (∀ name, state.store.Binds frame name → name ∈ scope.names) ∧
      ∀ name ∈ scope.before, state.store.Binds frame name) frames place.scopes

theorem Begun.corresponds (h : Begun run past) {place : Place} {state : State}
    (hsees : Sees (run :: past) state.store state.environment place.scopes)
    (hsound : Sound (run :: past) state.store) : place.Corresponds state := by
  obtain ⟨frames, henvironment, hfits⟩ := hsees
  refine ⟨frames, henvironment, hfits.imp fun frame scope hfits => ⟨fun name hbinds => ?_,
    hfits.binds⟩⟩
  rcases hsound.allowed frame name hbinds with hglobal | ⟨names, hopened, hname⟩
  · exact absurd hglobal (h.ne_globalFrame hfits.opened)
  · rw [h.opened_unique hfits.opened hopened]
    exact hname

namespace Begun

variable {place : Place} {code : Code} {state : State}

/-- Scopes and frames correspond when code begins. -/
theorem corresponds_start (h : Begun run past) (hmoment : Moment (run :: past) place code state) :
    place.Corresponds state :=
  h.corresponds (h.sees hmoment) (h.starts hmoment.comes_latest).2

/-- Scopes and frames correspond when code ends. -/
theorem corresponds_end (h : Begun run past) (hmoment : Moment (run :: past) place code state)
    {outcome : Outcome State Fault code.Result} (hanswers : run.Answers code state outcome) :
    place.Corresponds outcome.2 := by
  exact h.corresponds (h.sees_end hmoment hanswers) (h.leaves hmoment.comes_latest hanswers).1

end Begun

end Session

/-- Scopes and frames correspond: whenever code is executed in a session, whichever run it comes
from, it has a place in a program, and the frames in sight are those of the scopes around it, when
it begins and when it ends. -/
theorem History.frames_correspond_to_scopes {host : Host} {config : Config} {past : List Run}
    {session : Session} (h : History host config past session) {source : String} {run : Run}
    (hbegin : session.begin? host source = some run) {code : Code} {state : State}
    (hcomes : run.Comes (code, state)) :
    (∃ place, Moment (run :: past) place code state) ∧
      ∀ place, Moment (run :: past) place code state →
        (∃ origin ∈ run :: past, Lies origin.program place code) ∧ place.Corresponds state ∧
          ∀ outcome, run.Answers code state outcome → place.Corresponds outcome.2 := by
  have hbegun := h.begun hbegin
  obtain ⟨hmoment, -⟩ := hbegun.starts hcomes
  refine ⟨hmoment, fun place hplace => ⟨hplace.lies, ?_, fun outcome hanswers => ?_⟩⟩
  · exact hbegun.corresponds_start hplace
  · exact hbegun.corresponds_end hplace hanswers

/-- In a block, behind the declaration of a variable in it, the one local frame has this
variable. -/
theorem History.frames_correspond_in_block :
    ∃ (run : Run) (state : State),
      (Session.start .default).begin? ⟨fun _ => .unset, fun _ => 0⟩ "{ var x; print x; }" =
          some run ∧
        Moment [run] ⟨[⟨["x"], ["x"]⟩], false, none⟩
          (.statement (.print ⟨.print, "print", none, 1⟩ (.read 0 (.identifier "x" 1)))) state ∧
        Place.Corresponds ⟨[⟨["x"], ["x"]⟩], false, none⟩ state := by
  have hprogram : ((Session.start .default).begin? ⟨fun _ => .unset, fun _ => 0⟩
      "{ var x; print x; }").map (·.program) = some [.block [.var (.identifier "x" 1) none,
        .print ⟨.print, "print", none, 1⟩ (.read 0 (.identifier "x" 1))]] := by rfl
  obtain ⟨run, hbegin, hprogram⟩ := Option.map_eq_some_iff.1 hprogram
  have hmakes : Routine.Makes (Code.execute run.setting) (Program.steps run.program) run.state
      (.statement (.block [.var (.identifier "x" 1) none,
        .print ⟨.print, "print", none, 1⟩ (.read 0 (.identifier "x" 1))]), run.state) := by
    rw [hprogram]
    exact .call
  have hvar : ∀ state, run.Answers (.statement (.var (.identifier "x" 1) none)) state
      (.ok .normal, state.define "x" .nil) := fun state => ⟨0, rfl⟩
  have hblock : Moment [run] .top _ _ := .program hmakes
  have hbody := hblock.part (Run.makes_block.2 rfl) .block
  have hrest := hbody.part (CallTree.Makes.later (hvar _) .jump) .otherStatements
  have hprint := hrest.part .call .firstStatement
  obtain ⟨-, hall⟩ := History.frames_correspond_to_scopes .start hbegin hprint.comes_latest
  exact ⟨run, _, hbegin, hprint, (hall _ hprint).2.1⟩

end Lox
