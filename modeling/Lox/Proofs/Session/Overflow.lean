/-
# When a call finds no room

A run executes code within code. What is being executed at a moment is a stack: the code that the
run has just come to, the code that has come to it directly, and so on up to a statement of the
program (`Run.Stack`). The functions of programs that are being executed are where the stack leads
from a call to a body. Their number is the number that the state keeps, whatever the run and the
runs before it have done, and it is never above the limit (`Begun.callDepth_eq`).

A run stops for want of room exactly at a call that has got its callee and as many arguments as it
takes when there are as many functions being executed as the limit allows
(`History.overflows_iff_no_room`). It makes no difference what is called: a function that every
program starts with finds no room either, although it would not be counted.
-/

import Lox.Proofs.Session.Consistency
import Lox.Proofs.Session.Limit
import Lox.Proofs.Session.Termination

namespace Lox

/-! ## What is being executed -/

/-- Execution comes from a call to the body of a function. -/
def Code.invokes : Code → Code → Bool
  | .expression (.call _ _ _), .body _ => true
  | _, _ => false

/-- How many functions of programs are being executed, out of all that is, innermost first. -/
def Code.functionsWithin : List (Code × State) → Nat
  | inner :: outer :: rest =>
    functionsWithin (outer :: rest) + if outer.1.invokes inner.1 then 1 else 0
  | _ => 0

namespace Run

/-- What is being executed at a moment of a run, innermost first. -/
inductive Stack (run : Run) : List (Code × State) → Prop
  | program {made : Code × State}
      (hmakes : Routine.Makes (Code.execute run.setting) (Program.steps run.program) run.state
        made) : Stack run [made]
  | within {call made : Code × State} {outer : List (Code × State)}
      (h : Stack run (call :: outer)) (hmakes : run.Makes call.1 call.2 made) :
      Stack run (made :: call :: outer)

variable {run : Run} {code : Code} {state : State} {made : Code × State}

theorem Stack.comes {outer : List (Code × State)} (h : run.Stack (made :: outer)) :
    run.Comes made := by
  generalize hstack : made :: outer = stack at h
  induction h generalizing made outer with
  | program hmakes =>
    cases hstack
    exact CallTree.Makes.comes hmakes
  | within _ hmakes ih =>
    cases hstack
    exact (ih rfl).tail hmakes

/-- One more function is being executed in the body that a call leads to, and as many as before
everywhere else. -/
theorem Makes.callDepth_eq (h : run.Makes code state made) :
    made.2.callDepth = state.callDepth + (if code.invokes made.1 then 1 else 0) ∧
      (code.invokes made.1 = true → state.callDepth < run.setting.config.maxCallDepth) := by
  have hbuilt : Code.Built run.setting code [] code.values (Code.execute run.setting code) :=
    Code.built_execute code
  rcases hbuilt.makes_part h with ⟨place, hpart, hdepth⟩ | ⟨callee, paren, es, ss, rfl, hbody⟩
  · have hnot : code.invokes made.1 = false := by
      obtain ⟨inner, reached⟩ := made
      cases hpart <;> rfl
    rw [hnot]
    exact ⟨hdepth, fun h => absurd h Bool.false_ne_true⟩
  · rcases makes_call h with rfl | ⟨identity, called, reached, hcallee, rfl | hinvoked⟩
    · cases hbody
    · cases hbody
    · obtain ⟨passed, reached', declaration, closure, hpassed, -, -, hdepth, rfl⟩ := hinvoked
      have hsame : reached'.callDepth = state.callDepth :=
        hpassed.sameScope.2.trans hcallee.sameScope.2
      rw [← hsame]
      exact ⟨State.callDepth_beginCall _ _ _, fun _ => hdepth⟩

end Run

/-- The state keeps the number of functions that are being executed, and there are never more than
the limit allows. -/
theorem Begun.callDepth_eq {run : Run} {past : List Run} (h : Begun run past)
    {made : Code × State} {outer : List (Code × State)} (hstack : run.Stack (made :: outer)) :
    made.2.callDepth = Code.functionsWithin (made :: outer) ∧
      made.2.callDepth ≤ run.setting.config.maxCallDepth := by
  generalize hall : made :: outer = stack at hstack
  induction hstack generalizing made outer with
  | program hmakes =>
    cases hall
    obtain ⟨_, -, -, hscope⟩ := Run.makes_steps hmakes
    have hzero := hscope.2.trans h.chronicle.outside.2
    exact ⟨hzero, hzero ▸ Nat.zero_le _⟩
  | @within call _ _ _ hmakes ih =>
    cases hall
    obtain ⟨hcount, hle⟩ := ih rfl
    obtain ⟨hdepth, hroom⟩ := hmakes.callDepth_eq
    rw [Code.functionsWithin, ← hcount]
    refine ⟨hdepth, ?_⟩
    rw [hdepth]
    split
    · rename_i hinvokes
      exact hroom hinvokes
    · exact hle

/-! ## Faults that begin somewhere -/

/-- A computation ends as claimed if the calls that it really makes get the answers that are
supposed. -/
theorem CallTree.Ends.of_makes {Q : Type} {A : Q → Type} {α : Type}
    {body : (q : Q) → CallTree A (A q)} {spec : (q : Q) → A q → Prop} {tree : CallTree A α}
    {post : α → Prop} {answer : α} (htree : tree.Ensures (fun _ => True) spec post)
    (hmakes : ∀ made given, Makes body tree made → Answers body made given → spec made given)
    (h : Ends body tree answer) : post answer := by
  induction tree with
  | done found =>
    cases ends_done.1 h
    exact htree
  | call q next ih =>
    obtain ⟨given, hgiven, hnext⟩ := ends_call.1 h
    exact ih given (htree.2 given (hmakes q given .call hgiven))
      (fun made given' hmade => hmakes made given' (.later hgiven hmade)) hnext
  | jump q answers =>
    obtain ⟨given, hgiven, rfl⟩ := ends_jump.1 h
    exact htree.2 given (hmakes q given .jump hgiven)

namespace Run

/-- Code fails by itself: it ends in a fault, and nothing that it comes to directly does. -/
structure FailsItself (run : Run) (code : Code) (state : State) (fault : Fault) : Prop where
  /-- It ends in the fault. -/
  ends : ∃ last, run.Answers code state (.error fault, last)
  /-- Nothing that it comes to ends in a fault. -/
  own : ∀ made fault' last, run.Makes code state made →
    ¬ run.Answers made.1 made.2 (.error fault', last)

variable {run : Run} {code : Code} {state : State} {fault : Fault}

/-- Code that fails by itself raises the fault. -/
theorem FailsItself.raises (h : run.FailsItself code state fault) :
    run.Raises code state fault := by
  obtain ⟨last, hends⟩ := h.ends
  have htraces : Traces run (run.Raises code state) (Code.execute run.setting code) state :=
    traces_execute fun _ hraises => hraises
  have hblames : Blames (run.Raises code state) (Except.error fault, last) :=
    CallTree.Ends.of_makes htraces (fun made given hmade hgiven =>
      ⟨fun fault' hfault => by
        refine absurd ?_ (h.own made fault' given.2 hmade)
        rw [← hfault]
        exact hgiven, hgiven⟩) hends
  exact hblames fault rfl

theorem PassesOn.eq {α : Type} {setting : Setting} {step : Code.Step α}
    (h : PassesOn setting step) {made : Code × State} {fault' : Fault} {middle reached : State}
    (hmakes : Routine.Makes (Code.execute setting) step state made)
    (hmade : Routine.Ends (Code.execute setting) (Code.execute setting made.1) made.2
      (.error fault', middle))
    (hends : Routine.Ends (Code.execute setting) step state (.error fault, reached)) :
    fault' = fault := by
  obtain ⟨last, hlast⟩ := h state made fault' middle hmakes hmade
  cases Routine.Ends.unique hlast hends
  rfl

/-- Where code ends in a fault, something that is executed in it fails by itself with the fault. -/
theorem Stack.exists_failsItself {outer : List (Code × State)} {last : State}
    (h : run.Stack ((code, state) :: outer))
    (hends : run.Answers code state (.error fault, last)) :
    ∃ made outer', run.Stack (made :: outer') ∧ run.FailsItself made.1 made.2 fault := by
  suffices hall : ∀ outcome, run.Answers code state outcome → ∀ (outer : List (Code × State))
      (last : State), outcome = (.error fault, last) → run.Stack ((code, state) :: outer) →
      ∃ made outer', run.Stack (made :: outer') ∧ run.FailsItself made.1 made.2 fault from
    hall _ hends outer last rfl h
  intro outcome hends
  refine Code.ends_induction
    (fun code state outcome ih hends outer last houtcome hstack => ?_) hends
  subst houtcome
  by_cases hown : ∃ made fault' reached, run.Makes code state made ∧
      run.Answers made.1 made.2 (.error fault', reached)
  · obtain ⟨made, fault', reached, hmakes, hmade⟩ := hown
    obtain rfl := (passesOn_execute code).eq hmakes hmade hends
    exact ih made _ hmakes hmade _ _ rfl (hstack.within hmakes)
  · exact ⟨(code, state), outer, hstack, ⟨last, hends⟩, fun made fault' reached hmakes hmade =>
      hown ⟨made, fault', reached, hmakes, hmade⟩⟩

/-- A program that ends in a fault has come to a statement that does. -/
theorem exists_makes_steps {setting : Setting} {program : List Stmt} {reached : State}
    (h : Routine.Ends (Code.execute setting) (Program.steps program) state
      (.error fault, reached)) :
    ∃ made last, Routine.Makes (Code.execute setting) (Program.steps program) state made ∧
      Routine.Ends (Code.execute setting) (Code.execute setting made.1) made.2
        (.error fault, last) := by
  induction program generalizing state with
  | nil => cases Routine.ends_pure.1 h
  | cons s ss ih =>
    rcases Routine.ends_bind.1 h with ⟨completion, middle, hfirst, hrest⟩ | ⟨_, _, hfirst, heq⟩
    · obtain ⟨made, last, hmakes, hmade⟩ := ih hrest
      exact ⟨made, last, Routine.makes_bind.2 (.inr ⟨completion, middle, hfirst, hmakes⟩), hmade⟩
    · cases heq
      exact ⟨_, _, Routine.makes_bind.2 (.inl (Routine.makes_call.2 rfl)),
        Routine.ends_call.1 hfirst⟩

/-- A run ends in a fault if something that is executed in it fails by itself with the fault. -/
theorem exists_ends_iff_failsItself :
    (∃ reached, run.Ends (.error fault) reached) ↔
      ∃ made outer, run.Stack (made :: outer) ∧ run.FailsItself made.1 made.2 fault := by
  constructor
  · rintro ⟨reached, hends⟩
    obtain ⟨made, last, hmakes, hmade⟩ := exists_makes_steps hends
    exact (Stack.program hmakes).exists_failsItself hmade
  · rintro ⟨made, outer, hstack, hfails⟩
    obtain ⟨last, hlast⟩ := hfails.ends
    exact hstack.comes.ends_error hlast

end Run

/-! ## Calls without room -/

/-- What is computed fails only for other causes than want of room. -/
def Roomy {α : Type} (result : Except Fault α) : Prop :=
  ∀ token limit, result ≠ .error ⟨token, .stackOverflow limit⟩

theorem Operator.roomy_unary (operator : Token) (operand : Value) :
    Roomy (unary operator operand) := by
  unfold Roomy unary arithmetic
  grind

theorem Operator.roomy_binary (operator : Token) (left right : Value) :
    Roomy (binary operator left right) := by
  unfold Roomy binary add divide compare onNumbers arithmetic
  grind

theorem State.roomy_lookup {setting : Setting} {state : State} {id : AccessId} {name : Token} :
    Roomy (state.lookup setting id name) := by
  unfold Roomy lookup Store.lookup Store.lookupAt
  grind

namespace Run

variable {run : Run} {code : Code} {state : State}

/-- A call gets its callee, and as many arguments as it takes. -/
def Arrives (run : Run) (callee : Expr) (es : List Expr) (state : State) (called : Callable) :
    Prop :=
  ∃ identity middle passed reached,
    run.Answers (.expression callee) state (.ok (.callable identity called), middle) ∧
      run.Answers (.arguments es) middle (.ok passed, reached) ∧ passed.length = called.arity

/-- A call that is stopped by the limit fails by itself: its parts have been evaluated, and it does
not come to the body of a function. -/
theorem Arrives.failsItself {callee : Expr} {paren : Token} {es : List Expr} {called : Callable}
    (h : run.Arrives callee es state called)
    (hdepth : run.setting.config.maxCallDepth ≤ state.callDepth) :
    run.FailsItself (.expression (.call callee paren es)) state
      ⟨paren, .stackOverflow run.setting.config.maxCallDepth⟩ := by
  obtain ⟨identity, middle, passed, reached, hcallee, hpassed, harity⟩ := h
  have hsame : reached.callDepth = state.callDepth :=
    hpassed.sameScope.2.trans hcallee.sameScope.2
  rw [← hsame] at hdepth
  refine ⟨⟨_, answers_overflow hcallee hpassed harity hdepth⟩,
    fun made fault last hmakes hmade => ?_⟩
  rcases makes_call hmakes with rfl | ⟨identity', called', middle', hcallee', hmakes⟩
  · cases Routine.Ends.unique hcallee hmade
  · cases Routine.Ends.unique hcallee hcallee'
    rcases hmakes with rfl | ⟨passed', reached', declaration, closure, hpassed', -, -, hroom, -⟩
    · cases Routine.Ends.unique hpassed hmade
    · cases Routine.Ends.unique hpassed hpassed'
      exact absurd hroom (Nat.not_lt.2 hdepth)

/-- Nothing but such a call fails by itself for want of room. -/
theorem failsItself_overflow_iff {token : Token} {limit : Nat} :
    run.FailsItself code state ⟨token, .stackOverflow limit⟩ ↔
      limit = run.setting.config.maxCallDepth ∧ ∃ callee es called,
        code = .expression (.call callee token es) ∧ run.Arrives callee es state called ∧
          run.setting.config.maxCallDepth ≤ state.callDepth := by
  constructor
  · intro h
    cases h.raises with
    | read hlookup | assign _ hlookup => exact absurd hlookup (State.roomy_lookup _ _)
    | unary _ hoperator => exact absurd hoperator (Operator.roomy_unary _ _ _ _)
    | binary _ _ hoperator => exact absurd hoperator (Operator.roomy_binary _ _ _ _ _)
    | stackOverflow hcallee hpassed harity hdepth =>
      have hsame := hpassed.sameScope.2.trans hcallee.sameScope.2
      exact ⟨rfl, _, _, _, rfl, ⟨_, _, _, _, hcallee, hpassed, harity⟩, hsame ▸ hdepth⟩
  · rintro ⟨rfl, callee, es, called, rfl, harrives, hdepth⟩
    exact harrives.failsItself hdepth

end Run

/-! ## Main result -/

namespace History

variable {host : Host} {config : Config} {past : List Run} {session : Session}

/-- At every moment of every run of a session, the state keeps the number of functions that are
being executed, and the limit is never exceeded. What fails there by itself for want of room is a
call that has got its callee, of either kind, and as many arguments as it takes, while as many
functions are being executed as the limit allows. And a text fails for want of room exactly if the
run that it begins comes to such a call. -/
theorem overflows_iff_no_room (h : History host config past session) (source : String)
    (token : Token) (limit : Nat) :
    (∀ run, session.begin? host source = some run → ∀ code state outer,
      run.Stack ((code, state) :: outer) →
        state.callDepth = Code.functionsWithin ((code, state) :: outer) ∧
        Code.functionsWithin ((code, state) :: outer) ≤ config.maxCallDepth ∧
        (run.FailsItself code state ⟨token, .stackOverflow limit⟩ ↔
          limit = config.maxCallDepth ∧ ∃ callee es called,
            code = .expression (.call callee token es) ∧ run.Arrives callee es state called ∧
              Code.functionsWithin ((code, state) :: outer) = config.maxCallDepth)) ∧
    (session.Fails host source (.runtime ⟨token, .stackOverflow limit⟩) ↔
      ∃ run code state outer, session.begin? host source = some run ∧
        run.Stack ((code, state) :: outer) ∧
          run.FailsItself code state ⟨token, .stackOverflow limit⟩) := by
  constructor
  · intro run hbegin code state outer hstack
    obtain ⟨hcount, hle⟩ := (h.begun hbegin).callDepth_eq hstack
    rw [Run.failsItself_overflow_iff]
    rw [(h.setting_eq hbegin).1] at hle ⊢
    dsimp only at hcount hle
    rw [← hcount]
    refine ⟨rfl, hle, and_congr_right fun _ => ?_⟩
    refine exists_congr fun _ => exists_congr fun _ => exists_congr fun _ => ?_
    exact and_congr_right fun _ => and_congr_right fun _ =>
      ⟨Nat.le_antisymm hle, Nat.le_of_eq ∘ Eq.symm⟩
  · rw [Session.fails_runtime_iff]
    constructor
    · rintro ⟨run, reached, hbegin, hends⟩
      obtain ⟨⟨code, state⟩, outer, hstack, hfails⟩ :=
        Run.exists_ends_iff_failsItself.1 ⟨reached, hends⟩
      exact ⟨run, code, state, outer, hbegin, hstack, hfails⟩
    · rintro ⟨run, code, state, outer, hbegin, hstack, hfails⟩
      obtain ⟨reached, hends⟩ :=
        Run.exists_ends_iff_failsItself.2 ⟨(code, state), outer, hstack, hfails⟩
      exact ⟨run, reached, hbegin, hends⟩

/-- A function of a program that is executed at its limit calls one that every program starts with.
The run is stopped there. -/
theorem overflows_iff_no_room_builtin :
    let paren : Token := ⟨.rightParen, ")", none, 1⟩
    let callee : Expr := .read 0 (.identifier "str" 1)
    let call : Expr := .call callee paren [.literal (.number 1)]
    let session : Session := .start ⟨false, 1, false⟩
    let run : Run := ⟨⟨session.config, (session.learn ∅).depths, ⟨fun _ => .unset, fun _ => 0⟩⟩,
      [.function (.identifier "f" 1) [] [.expression call],
        .expression (.call (.read 1 (.identifier "f" 1)) paren [])], session.state⟩
    session.begin? ⟨fun _ => .unset, fun _ => 0⟩ "fun f() { str(1); } f();" = some run ∧
      (∃ state outer, run.Stack ((.expression call, state) :: outer) ∧
        run.Arrives callee [.literal (.number 1)] state (.builtin .str) ∧
        Code.functionsWithin ((.expression call, state) :: outer) = 1) ∧
      session.Fails ⟨fun _ => .unset, fun _ => 0⟩ "fun f() { str(1); } f();"
        (.runtime ⟨paren, .stackOverflow 1⟩) := by
  intro paren callee call session run
  let declared : State := State.initial.declare ⟨.identifier "f" 1, [], [.expression call]⟩
  let entered : State := declared.beginCall Store.globals []
  let tokens : List Token := [⟨.fun, "fun", none, 1⟩, .identifier "f" 1, ⟨.leftParen, "(", none, 1⟩,
    paren, ⟨.leftBrace, "\x7b", none, 1⟩, .identifier "str" 1, ⟨.leftParen, "(", none, 1⟩,
    ⟨.number, "1", some (.number 1), 1⟩, paren, ⟨.semicolon, ";", none, 1⟩,
    ⟨.rightBrace, "\x7d", none, 1⟩, .identifier "f" 1, ⟨.leftParen, "(", none, 1⟩, paren,
    ⟨.semicolon, ";", none, 1⟩, .endOfInput 1]
  have hprogram : Program.ofTokens tokens session.nextId = (.ok run.program, 2) :=
    @Program.ofTokens_eq_of_run _ [] _ _ run.program 150 rfl
  have hbegin : session.begin? ⟨fun _ => .unset, fun _ => 0⟩ "fun f() { str(1); } f();" =
      some run :=
    Session.begin?_eq_some _ rfl hprogram rfl
  have hstatement : Routine.Makes (Code.execute run.setting) (Program.steps run.program) run.state
      (.statement (.expression (.call (.read 1 (.identifier "f" 1)) paren [])), declared) :=
    .later ⟨2, rfl⟩ .call
  have hbody : run.Makes (.expression (.call (.read 1 (.identifier "f" 1)) paren [])) declared
      (.body [.expression call], entered) :=
    .later ⟨2, rfl⟩ (.later ⟨2, rfl⟩ .call)
  have hinvoked := ((Run.Stack.program hstatement).within .call).within hbody
  have hstack := (hinvoked.within .call).within .call
  have harrives : run.Arrives callee [.literal (.number 1)] entered (.builtin .str) :=
    ⟨_, entered, [.number 1], entered, ⟨2, rfl⟩, ⟨3, rfl⟩, rfl⟩
  have hhistory : History ⟨fun _ => .unset, fun _ => 0⟩ ⟨false, 1, false⟩ [] session := .start
  obtain ⟨hmoments, hfails⟩ :=
    overflows_iff_no_room hhistory "fun f() { str(1); } f();" paren 1
  have hitself := (hmoments run hbegin _ _ _ hstack).2.2.2 ⟨rfl, _, _, _, rfl, harrives, rfl⟩
  exact ⟨hbegin, ⟨entered, _, hstack, harrives, rfl⟩,
    hfails.2 ⟨run, _, _, _, hbegin, hstack, hitself⟩⟩

end History

end Lox
