/-
# When a program contradicts what is known about it

An accepted program has only operators that there are, and a return only within functions. Its
accesses find their variables at their depths, or find that there is no such global variable. So no
run ends in a contradiction, with one exception: resolution lets a variable be assigned in its own
initializer, before the frame has it. A run that gets as far as such an assignment fails, and no
other run does (`History.contradicts_iff_assigns_awaited`).
-/

import Lox.Proofs.Session.Faults
import Lox.Proofs.Session.Lookup

namespace Lox

/-- A cause of faults that the phases before execution are there to rule out. -/
def FaultCause.Precluded : FaultCause → Prop
  | internal _ | returnOutsideFunction => True
  | _ => False

/-! ## Operators -/

/-- What is computed fails only for causes that are not ruled out before. -/
def Sensible (result : Except Fault Value) : Prop :=
  ∀ fault, result = .error fault → ¬ fault.cause.Precluded

theorem sensible_ok {value : Value} : Sensible (.ok value) := by
  intro fault h
  cases h

theorem sensible_error {fault : Fault} (hcause : ¬ fault.cause.Precluded) :
    Sensible (.error fault) := by
  intro fault' h
  cases h
  exact hcause

namespace Operator

theorem sensible_arithmetic (operator : Token) (result : Int) :
    Sensible (arithmetic operator result) := by
  unfold arithmetic
  split
  · exact sensible_ok
  · exact sensible_error not_false

theorem sensible_onNumbers {operator : Token} {left right : Value}
    {apply : Int → Int → Except Fault Value} (h : ∀ a b, Sensible (apply a b)) :
    Sensible (onNumbers operator left right apply) := by
  unfold onNumbers
  split
  · exact h _ _
  · exact sensible_error not_false

theorem sensible_add (operator : Token) (left right : Value) :
    Sensible (add operator left right) := by
  unfold add
  split
  · exact sensible_arithmetic _ _
  · exact sensible_ok
  · exact sensible_ok
  · exact sensible_error not_false
  · exact sensible_error not_false

theorem sensible_divide (operator : Token) (left right : Value) :
    Sensible (divide operator left right) := by
  apply sensible_onNumbers
  intro a b
  split
  · exact sensible_error not_false
  · exact sensible_arithmetic _ _

theorem sensible_unary {operator : Token} (operand : Value)
    (hkind : operator.kind = .bang ∨ operator.kind = .minus) :
    Sensible (unary operator operand) := by
  unfold unary
  split
  · split
    · exact sensible_arithmetic _ _
    · exact sensible_error not_false
  · exact sensible_ok
  · rename_i hminus hbang
    exact absurd hkind (not_or.2 ⟨hbang, hminus⟩)

theorem sensible_binary {operator : Token} (left right : Value)
    (hkind : operator.kind ∈ binaryOperators) : Sensible (binary operator left right) := by
  unfold binary
  split
  case h_1 | h_2 => exact sensible_add _ _ _
  case h_3 | h_4 | h_5 => exact sensible_onNumbers fun _ _ => sensible_arithmetic _ _
  case h_6 => exact sensible_divide _ _ _
  case h_7 | h_8 | h_9 | h_10 => exact sensible_onNumbers fun _ _ => sensible_ok
  case h_11 | h_12 => exact sensible_ok
  case h_13 =>
    exfalso
    simp only [binaryOperators, List.mem_cons, List.not_mem_nil, or_false] at hkind
    tauto

end Operator

/-! ## Calls under way -/

section Moment

variable {runs past : List Run} {run : Run} {place : Place} {code : Code} {state : State}

/-- Within a function, calls are under way. -/
theorem Moment.callDepth_pos (h : Moment runs place code state)
    (hfunction : place.inFunction = true) : 0 < state.callDepth := by
  induction h with
  | program hmakes => cases hfunction
  | @part run past p p' code state made h hmakes hpart ih =>
    have hsame : (∀ ss, made.1 ≠ .body ss) → p.inFunction = true → 0 < made.2.callDepth := by
      intro hnot hfunction
      rcases Code.sameScope_of_makes hmakes with ⟨ss, hbody⟩ | hscope
      · exact absurd hbody (hnot ss)
      · rw [hscope.2]
        exact ih hfunction
    obtain ⟨code', state'⟩ := made
    cases hpart with
    | block =>
      cases Run.makes_block.1 hmakes
      exact ih hfunction
    | functionBody => exact absurd hmakes Run.not_makes_function
    | otherStatements =>
      rcases Run.makes_body hmakes with hmade | ⟨reached, hanswers, hmade⟩
      · cases hmade
      · cases hmade
        rw [hanswers.sameScope.2]
        rw [Place.inFunction_declaring] at hfunction
        exact ih hfunction
    | _ => exact hsame (fun ss hbody => by cases hbody) hfunction
  | call h hdeclared hruns hcallee hmakes hbefore ih ihDeclared =>
    obtain ⟨passed, last, -, -, rfl⟩ := Run.makes_invocation hcallee hmakes
    rw [State.callDepth_beginCall]
    exact Nat.succ_pos _

end Moment

/-! ## Faults at moments -/

namespace Session

variable {host : Host} {session : Session} {source : String} {run : Run}

/-- A text, if it is run in a session, ends in a failure. -/
def Fails (host : Host) (session : Session) (source : String) (failure : Failure) : Prop :=
  ∃ rounds report session', session.run host rounds source = some (report, session') ∧
    report.result = .error failure

/-- A text that is rejected is not executed. -/
theorem prepare_ne_runtime {fault : Fault} :
    (session.prepare source).1 ≠ .error (.runtime fault) := by
  unfold prepare
  split
  · exact fun h => by cases h
  · split
    · exact fun h => by cases h
    · split
      · split <;> exact fun h => by cases h
      · exact fun h => by cases h

/-- A text fails with a fault if the run that it begins ends in the fault. -/
theorem fails_runtime_iff {fault : Fault} :
    session.Fails host source (.runtime fault) ↔
      ∃ run reached, session.begin? host source = some run ∧ run.Ends (.error fault) reached := by
  constructor
  · rintro ⟨rounds, report, session', hrun, hresult⟩
    rcases exists_run_iff.1 ⟨rounds, hrun⟩ with ⟨failure, hfailure, rfl, -⟩ |
      ⟨run, result, reached, hbegin, hends, rfl, -⟩
    · cases hresult
      exact absurd hfailure prepare_ne_runtime
    · cases result with
      | ok _ => cases hresult
      | error fault' =>
        cases hresult
        exact ⟨run, reached, hbegin, hends⟩
  · rintro ⟨run, reached, hbegin, hends⟩
    obtain ⟨rounds, hrun⟩ := exists_run_iff.2
      (.inr ⟨run, .error fault, reached, hbegin, hends, rfl, rfl⟩)
    exact ⟨rounds, _, _, hrun, rfl⟩

end Session

/-- An assignment ends with the variable being assigned the value. -/
theorem Run.answers_assign {run : Run} {id : AccessId} {name : Token} {e : Expr}
    {state reached : State} {value : Value}
    (h : run.Answers (.expression e) state (.ok value, reached)) :
    run.Answers (.expression (.assign id name e)) state
      (State.assign run.setting id name value reached) :=
  Routine.ends_bind.2 (.inl ⟨value, reached, Routine.ends_call.2 h, Routine.ends_step.2 rfl⟩)

/-- In the latest of some runs, a variable comes to be assigned at a place that awaits it: the value
is there already. -/
def AssignsAwaited (runs : List Run) (name : Token) : Prop :=
  ∃ run ∈ runs.head?, ∃ place id e state value reached,
    Moment runs place (.expression (.assign id name e)) state ∧ place.Awaits name.lexeme ∧
      run.Answers (.expression e) state (.ok value, reached)

namespace History

variable {host : Host} {config : Config} {past : List Run} {session : Session} {source : String}
  {run : Run} {place : Place} {code : Code} {state : State}

/-- With the resolver, nothing is wrong at any site of code that comes to be executed, and its depth
is known if the depths of all programs are. -/
theorem resolved (h : History host config past session)
    (hbegin : session.begin? host source = some run) (hknown : run.setting.KnowsAll (run :: past))
    (hmoment : Moment (run :: past) place code state) (hresolver : config.useResolver = true)
    {site : Site} (hsite : site ∈ code.sites place) :
    site.error? = none ∧ ∀ id, site.id? = some id → run.setting.depths[id]? = site.depth? := by
  obtain ⟨origin, horigin, hlies⟩ := hmoment.lies
  have hmem := hlies.sites_subset hsite
  refine ⟨h.error?_eq_none_of_begin? hresolver hbegin horigin site hmem, ?_⟩
  rw [← (h.setting_eq hbegin).1] at hresolver
  exact hknown hresolver origin horigin site hmem

/-- No place at which a variable is read awaits it. -/
theorem not_awaits_read (h : History host config past session)
    (hbegin : session.begin? host source = some run) (hresolver : config.useResolver = true)
    {id : AccessId} {name : Token}
    (hmoment : Moment (run :: past) place (.expression (.read id name)) state) :
    ¬ place.Awaits name.lexeme := by
  intro hawaits
  obtain ⟨origin, horigin, hlies⟩ := hmoment.lies
  have hnone := h.error?_eq_none_of_begin? hresolver hbegin horigin _
    (hlies.sites_subset (List.mem_singleton.2 rfl))
  unfold Site.error? at hnone
  dsimp only at hnone
  rw [if_pos ⟨hawaits.scopes_ne_nil, hawaits.1⟩] at hnone
  cases hnone

/-- The faults that code raises when it is executed are not ruled out before, apart from an
assignment to a variable that is awaited and, without the resolver, a return at the top level. -/
theorem fault_of_raises (h : History host config past session)
    (hbegin : session.begin? host source = some run) (hknown : run.setting.KnowsAll (run :: past))
    (hmoment : Moment (run :: past) place code state) {fault : Fault}
    (hraises : run.Raises code state fault) :
    ¬ fault.cause.Precluded ∨
      (config.useResolver = true ∧ AssignsAwaited (run :: past) fault.token ∧
        fault.cause = .internal (.missingVariable 0 fault.token.lexeme)) ∨
      (config.useResolver = false ∧ fault.cause = .returnOutsideFunction) := by
  have hbegun := h.begun hbegin
  have hwf := (hbegun.wellFormed_code hmoment).1
  have hconfig := congrArg Config.useResolver (h.setting_eq hbegin).1
  cases hraises with
  | @read id name _ _ hlookup =>
    left
    have hdepth : run.setting.config.useResolver = true →
        run.setting.depths[id]? = place.depthOf? name.lexeme := fun hresolver =>
      (h.resolved hbegin hknown hmoment (hconfig ▸ hresolver) (List.mem_singleton.2 rfl)).2 id rfl
    rcases State.lookup_error (hbegun.sees hmoment) hdepth hlookup with rfl |
      ⟨hresolver, hawaits, -⟩
    · exact not_false
    · exact absurd hawaits (h.not_awaits_read hbegin (hconfig ▸ hresolver) hmoment)
  | @assign id name e _ reached value _ hvalue hlookup =>
    have hdepth : run.setting.config.useResolver = true →
        run.setting.depths[id]? = place.depthOf? name.lexeme := fun hresolver =>
      (h.resolved hbegin hknown hmoment (hconfig ▸ hresolver)
        (List.mem_append_right _ (List.mem_singleton.2 rfl))).2 id rfl
    have hassigned : Moment (run :: past) place (.expression e) _ := hmoment.part .call .assigned
    rcases State.lookup_error (hbegun.sees_end hassigned hvalue) hdepth hlookup with rfl |
      ⟨hresolver, hawaits, rfl⟩
    · exact .inl not_false
    · exact .inr (.inl ⟨hconfig ▸ hresolver,
        ⟨run, rfl, place, id, e, state, value, reached, hmoment, hawaits, hvalue⟩, rfl⟩)
  | unary hoperand hoperator => exact .inl (Operator.sensible_unary _ hwf.1 _ hoperator)
  | binary hleft hright hoperator => exact .inl (Operator.sensible_binary _ _ hwf.1 _ hoperator)
  | notCallable hcallee hdata => exact .inl not_false
  | wrongArity hcallee hpassed harity => exact .inl not_false
  | stackOverflow hcallee hpassed harity hdepth => exact .inl not_false
  | builtin hcallee hpassed hfailure => exact .inl not_false
  | host hcode hfailure => exact .inl not_false
  | @«return» keyword e _ hdepth =>
    by_cases hresolver : config.useResolver = true
    · exfalso
      have hmem : Site.return place keyword ∈
          Code.sites place (.statement (.return keyword e)) := by
        cases e with
        | none => exact List.mem_singleton.2 rfl
        | some e => exact List.mem_cons_self
      have hnone := (h.resolved hbegin hknown hmoment hresolver hmem).1
      by_cases hfunction : place.inFunction = true
      · exact absurd hdepth (Nat.ne_of_gt (hmoment.callDepth_pos hfunction))
      · unfold Site.error? at hnone
        dsimp only at hnone
        rw [if_neg hfunction] at hnone
        cases hnone
    · exact .inr (.inr ⟨Bool.eq_false_iff.2 hresolver, rfl⟩)

/-- A run that fails for a cause that is ruled out before has got as far as an assignment to a
variable that is awaited, or as a return at the top level that nothing has rejected. -/
theorem precluded_of_fails (h : History host config past session)
    (hknown : ∀ run, session.begin? host source = some run → run.setting.KnowsAll (run :: past))
    {fault : Fault} (hfails : session.Fails host source (.runtime fault))
    (hcause : fault.cause.Precluded) :
    (config.useResolver = true ∧ fault.cause = .internal (.missingVariable 0 fault.token.lexeme) ∧
        ∃ run, session.begin? host source = some run ∧ AssignsAwaited (run :: past) fault.token) ∨
      (config.useResolver = false ∧ fault.cause = .returnOutsideFunction) := by
  obtain ⟨run, reached, hbegin, hends⟩ := Session.fails_runtime_iff.1 hfails
  obtain ⟨code, state, hcomes, hraises⟩ := Run.exists_raises hends
  obtain ⟨⟨place, hmoment⟩, -⟩ := (h.begun hbegin).starts hcomes
  rcases h.fault_of_raises hbegin (hknown run hbegin) hmoment hraises with
    hnot | ⟨hresolver, hawaited, hfault⟩ | hreturn
  · exact absurd hcause hnot
  · exact .inl ⟨hresolver, hfault, run, hbegin, hawaited⟩
  · exact .inr hreturn

/-- A run that gets as far as an assignment to a variable that is awaited fails. -/
theorem fails_of_assignsAwaited (h : History host config past session)
    (hbegin : session.begin? host source = some run) (hknown : run.setting.KnowsAll (run :: past))
    (hresolver : config.useResolver = true) {name : Token}
    (hawaited : AssignsAwaited (run :: past) name) :
    session.Fails host source
      (.runtime ⟨name, .internal (.missingVariable 0 name.lexeme)⟩) := by
  obtain ⟨_, hrun, place, id, e, state, value, reached, hmoment, hawaits, hvalue⟩ := hawaited
  cases hrun
  have hbegun := h.begun hbegin
  have hassigned : Moment (run :: past) place (.expression e) state := hmoment.part .call .assigned
  have hlimits : place.Limits reached := by
    have hstart := hassigned.limits fun run' past' hruns => by
      cases hruns
      exact hbegun
    have hwf := (hbegun.wellFormed_code hassigned).1
    rw [← place.declaring_nil]
    exact hstart.adds (hbegun.sees hassigned) (Code.adds_of_ends hvalue) fun name hname => hname hwf
  have hsetting : run.setting.config.useResolver = true := by
    rw [(h.setting_eq hbegin).1]
    exact hresolver
  have hdepth := (h.resolved hbegin hknown hmoment hresolver
    (List.mem_append_right _ (List.mem_singleton.2 rfl))).2 id rfl
  have hlookup := State.lookup_of_awaits (hbegun.sees_end hassigned hvalue) hlimits hsetting hdepth
    hawaits
  have hassign : State.assign run.setting id name value reached =
      (.error ⟨name, .internal (.missingVariable 0 name.lexeme)⟩, reached) := by
    unfold State.assign
    rw [hlookup]
  have hanswers : run.Answers (.expression (.assign id name e)) state
      (.error ⟨name, .internal (.missingVariable 0 name.lexeme)⟩, reached) := by
    rw [← hassign]
    exact Run.answers_assign hvalue
  obtain ⟨last, hends⟩ := hmoment.comes_latest.ends_error hanswers
  exact Session.fails_runtime_iff.2 ⟨run, last, hbegin, hends⟩

/-- As long as low bits are enough for the numbers of all accesses, a program contradicts what is
known about it exactly if the resolver is in use and the run gets as far as an assignment to a
variable that is awaited; the variable is then missing from its frame. With the resolver, no return
is ever met outside every call. -/
theorem contradicts_iff_assigns_awaited (h : History host config past session) (source : String)
    (hroom : session.HasRoom [source]) :
    (∀ token inconsistency,
        session.Fails host source (.runtime ⟨token, .internal inconsistency⟩) ↔
          config.useResolver = true ∧ inconsistency = .missingVariable 0 token.lexeme ∧
            ∃ run, session.begin? host source = some run ∧ AssignsAwaited (run :: past) token) ∧
      (config.useResolver = true → ∀ token,
        ¬ session.Fails host source (.runtime ⟨token, .returnOutsideFunction⟩)) := by
  have hknown := fun run => @h.knowsAll _ _ _ _ _ run hroom
  constructor
  · intro token inconsistency
    constructor
    · intro hfails
      rcases h.precluded_of_fails hknown hfails trivial with
        ⟨hresolver, hcause, hawaited⟩ | ⟨-, hcause⟩
      · exact ⟨hresolver, FaultCause.internal.inj hcause, hawaited⟩
      · cases hcause
    · rintro ⟨hresolver, rfl, run, hbegin, hawaited⟩
      exact h.fails_of_assignsAwaited hbegin (hknown run hbegin) hresolver hawaited
  · intro hresolver token hfails
    rcases h.precluded_of_fails hknown hfails trivial with ⟨-, hcause, -⟩ | ⟨hnone, -⟩
    · cases hcause
    · rw [hresolver] at hnone
      cases hnone

/-- In a block, a variable that is assigned in its own initializer is missing from the frame of the
block. -/
theorem contradicts_in_block :
    (Session.start .default).Fails ⟨fun _ => .unset, fun _ => 0⟩ "{ var x = x = 1; }"
      (.runtime ⟨.identifier "x" 1, .internal (.missingVariable 0 "x")⟩) := by
  have hprogram : ((Session.start .default).begin? ⟨fun _ => .unset, fun _ => 0⟩
      "{ var x = x = 1; }").map (·.program) = some [.block [.var (.identifier "x" 1)
        (some (.assign 1 (.identifier "x" 1) (.literal (.number 1))))]] := by rfl
  obtain ⟨run, hbegin, hprogram⟩ := Option.map_eq_some_iff.1 hprogram
  have hmakes : Routine.Makes (Code.execute run.setting) (Program.steps run.program) run.state
      (.statement (.block [.var (.identifier "x" 1)
        (some (.assign 1 (.identifier "x" 1) (.literal (.number 1))))]), run.state) := by
    rw [hprogram]
    exact .call
  have hblock : Moment [run] .top _ _ := .program hmakes
  have hbody := hblock.part (Run.makes_block.2 rfl) .block
  have hvar := hbody.part .call .firstStatement
  have hassign := hvar.part .call .initializer
  have hawaits : Place.Awaits ⟨[⟨["x"], []⟩], false, some "x"⟩ "x" :=
    ⟨rfl, ⟨["x"], []⟩, rfl, List.not_mem_nil⟩
  have hawaited : AssignsAwaited [run] (.identifier "x" 1) :=
    ⟨run, rfl, _, _, _, _, .number 1, _, hassign, hawaits, 0, rfl⟩
  exact ((contradicts_iff_assigns_awaited .start "{ var x = x = 1; }" (by decide)).1
    (.identifier "x" 1) (.missingVariable 0 "x")).2 ⟨rfl, rfl, run, hbegin, hawaited⟩

/-- Where no program assigns to a variable that is awaited, none contradicts what is known about
it. -/
theorem not_contradicts (h : History host config past session) (hroom : session.HasRoom [source])
    (hbegin : session.begin? host source = some run)
    (hnone : ∀ origin ∈ run :: past, ∀ place id name e,
      Lies origin.program place (.expression (.assign id name e)) → ¬ place.Awaits name.lexeme)
    (token : Token) (inconsistency : Inconsistency) :
    ¬ session.Fails host source (.runtime ⟨token, .internal inconsistency⟩) := by
  intro hfails
  have hknown := fun run => @h.knowsAll _ _ _ _ _ run hroom
  rcases h.precluded_of_fails hknown hfails trivial with
    ⟨-, -, run', hbegin', hawaited⟩ | ⟨-, hcause⟩
  · cases hbegin.symm.trans hbegin'
    obtain ⟨_, hrun, place, id, e, state, value, reached, hmoment, hawaits, -⟩ := hawaited
    cases hrun
    obtain ⟨origin, horigin, hlies⟩ := hmoment.lies
    exact hnone origin horigin place id token e hlies hawaits
  · cases hcause

end History

end Lox
