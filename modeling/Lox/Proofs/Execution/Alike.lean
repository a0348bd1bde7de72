/-
# Executions that do the same

Two executions are alike if their states differ at most in the numbers and lines within the bodies
of functions, and in what had been printed when they began. Nothing else comes of the numbers of
accesses but their depths, and nothing of lines but the lines that faults are reported on. So code
that is alike, executed in states that are alike, ends in both or in neither, and leaves results and
states that are alike again (`Code.similar_execute`).
-/

import Lox.Proofs.Execution.Growth
import Lox.Proofs.Value.Alike

namespace Lox

section Relations

variable (ids : AccessId → AccessId → Prop) (lines : Nat → Nat → Prop)

/-- Two stores with the same frames and variables, whose values are alike. -/
structure Store.Alike (store store' : Store) : Prop where
  size : store.frames.size = store'.frames.size
  functions : store.functions = store'.functions
  find : ∀ frame name,
    Option.Rel (Value.Alike ids lines) (store.find? frame name) (store'.find? frame name)

/-- Two states that are alike, where the second has printed `before` in addition, ahead of all
else. -/
structure State.Alike (before : String) (state state' : State) : Prop where
  store : state.store.Alike ids lines state'.store
  environment : state.environment = state'.environment
  callDepth : state.callDepth = state'.callDepth
  clockReadings : state.clockReadings = state'.clockReadings
  output : state'.output = before ++ state.output

/-- Two statements ended in the same way. -/
inductive Completion.Alike : Completion → Completion → Prop
  | normal : Completion.Alike .normal .normal
  | returned {value value' : Value} (h : value.Alike ids lines value') :
      Completion.Alike (.returned value) (.returned value')

/-- Two settings in which accesses that correspond have the same depth, and all else is the same. -/
structure Setting.Suits (setting setting' : Setting) : Prop where
  config : setting.config = setting'.config
  host : setting.host = setting'.host
  depths : ∀ id id', ids id id' → setting.depths[id]? = setting'.depths[id']?

/-- Two pieces of code of one sort that are alike. -/
inductive Code.Alike : Code → Code → Prop
  | expression {e e' : Expr} (h : e.Alike ids lines e') :
      Code.Alike (.expression e) (.expression e')
  | arguments {es es' : List Expr} (h : Expr.AllAlike ids lines es es') :
      Code.Alike (.arguments es) (.arguments es')
  | statement {s s' : Stmt} (h : s.Alike ids lines s') : Code.Alike (.statement s) (.statement s')
  | body {ss ss' : List Stmt} (h : Stmt.AllAlike ids lines ss ss') :
      Code.Alike (.body ss) (.body ss')

/-- Two pieces of code are of one sort and end with what is alike. -/
def Code.ResultsAlike : (code code' : Code) → code.Result → code'.Result → Prop
  | .expression _, .expression _ => Value.Alike ids lines
  | .arguments _, .arguments _ => List.Forall₂ (Value.Alike ids lines)
  | .statement _, .statement _ => Completion.Alike ids lines
  | .body _, .body _ => Completion.Alike ids lines
  | _, _ => fun _ _ => False

end Relations

variable {ids ids' : AccessId → AccessId → Prop} {lines : Nat → Nat → Prop} {before : String}

/-! ## Stores -/

namespace Store.Alike

variable {store store' : Store} (h : store.Alike ids lines store')
include h

theorem insert (frame : FrameId) (name : String) {value value' : Value}
    (hvalue : value.Alike ids lines value') :
    (store.insert frame name value).Alike ids lines (store'.insert frame name value') := by
  refine ⟨?_, h.functions, fun other name' => ?_⟩
  · rw [size_insert, size_insert, h.size]
  · rw [find?_insert, find?_insert, h.size]
    split
    · exact .some hvalue
    · exact h.find other name'

theorem define (environment : Environment) (name : String) {value value' : Value}
    (hvalue : value.Alike ids lines value') :
    (store.define environment name value).Alike ids lines
      (store'.define environment name value') := by
  cases environment with
  | nil => exact h
  | cons frame _ => exact h.insert frame name hvalue

theorem child (environment : Environment) :
    (store.child environment).2.Alike ids lines (store'.child environment).2 := by
  refine ⟨?_, h.functions, fun frame name => ?_⟩
  · exact (Array.size_push _).trans ((congrArg (· + 1) h.size).trans (Array.size_push _).symm)
  · rw [find?_child, find?_child]
    exact h.find frame name

theorem newFunction {called called' : Callable} (hcalled : called.Alike ids lines called') :
    (store.newFunction called).1.Alike ids lines (store'.newFunction called').1 ∧
      (store.newFunction called).2.Alike ids lines (store'.newFunction called').2 := by
  refine ⟨?_, h.size, congrArg (· + 1) h.functions, h.find⟩
  unfold Store.newFunction
  rw [h.functions]
  exact .callable hcalled

/-- What is looked up is in the same frame, and alike; or it is missed alike. -/
theorem lookup (environment : Environment) {name name' : Token} (hname : name.Alike lines name') :
    ResultAlike (Fault.Alike lines)
      (fun found found' => found.1 = found'.1 ∧ found.2.Alike ids lines found'.2)
      (store.lookup environment name) (store'.lookup environment name') := by
  unfold Store.lookup
  rw [hname.lexeme]
  induction environment with
  | nil => exact .error ⟨hname, rfl⟩
  | cons frame environment ih =>
    have hfind := h.find frame name'.lexeme
    rw [List.findSome?_cons, List.findSome?_cons]
    generalize store.find? frame name'.lexeme = found at hfind ⊢
    generalize store'.find? frame name'.lexeme = found' at hfind ⊢
    cases hfind with
    | none => exact ih
    | some hvalue => exact .ok ⟨rfl, hvalue⟩

theorem lookupAt (environment : Environment) (depth : Nat) {name name' : Token}
    (hname : name.Alike lines name') :
    ResultAlike (Fault.Alike lines)
      (fun found found' => found.1 = found'.1 ∧ found.2.Alike ids lines found'.2)
      (store.lookupAt environment depth name) (store'.lookupAt environment depth name') := by
  unfold Store.lookupAt
  rw [hname.lexeme]
  cases environment.drop depth with
  | nil => exact .error ⟨hname, rfl⟩
  | cons frame environment =>
    have hfind := h.find frame name'.lexeme
    dsimp only
    generalize store.find? frame name'.lexeme = found at hfind ⊢
    generalize store'.find? frame name'.lexeme = found' at hfind ⊢
    cases hfind with
    | none => exact .error ⟨hname, rfl⟩
    | some hvalue => exact .ok ⟨rfl, hvalue⟩

/-- Stores stay alike when more numbers stand for each other. -/
theorem mono (himp : ∀ id id', ids id id' → ids' id id') : store.Alike ids' lines store' := by
  refine ⟨h.size, h.functions, fun frame name => ?_⟩
  have hfind := h.find frame name
  generalize store.find? frame name = found at hfind ⊢
  generalize store'.find? frame name = found' at hfind ⊢
  cases hfind with
  | none => exact .none
  | some hvalue => exact .some (hvalue.mono himp)

end Store.Alike

/-! ## States -/

namespace State.Alike

variable {state state' : State} (h : state.Alike ids lines before state')
include h

theorem print (line : String) : (state.print line).Alike ids lines before (state'.print line) := by
  refine ⟨h.store, h.environment, h.callDepth, h.clockReadings, ?_⟩
  show (state'.output ++ line).push '\n' = before ++ (state.output ++ line).push '\n'
  rw [h.output, String.append_assoc, String.push_eq_append, String.push_eq_append,
    String.append_assoc]

theorem define (name : String) {value value' : Value} (hvalue : value.Alike ids lines value') :
    (state.define name value).Alike ids lines before (state'.define name value') := by
  refine ⟨?_, h.environment, h.callDepth, h.clockReadings, h.output⟩
  unfold State.define
  rw [← h.environment]
  exact h.store.define state.environment name hvalue

theorem declare {declaration declaration' : FunctionDecl}
    (hdeclaration : declaration.Alike ids lines declaration') :
    (state.declare declaration).Alike ids lines before (state'.declare declaration') := by
  refine ⟨?_, h.environment, h.callDepth, h.clockReadings, h.output⟩
  have hcalled : Callable.Alike ids lines (.function declaration state.environment)
    (.function declaration' state.environment) := .function hdeclaration
  have hfunction := h.store.newFunction hcalled
  unfold State.declare
  rw [← h.environment, hdeclaration.name.lexeme]
  exact hfunction.2.define _ _ hfunction.1

theorem enter (outer : Environment) :
    (state.enter outer).Alike ids lines before (state'.enter outer) :=
  ⟨h.store.child outer, congrArg (· :: outer) h.store.size, h.callDepth, h.clockReadings, h.output⟩

theorem openCall (outer : Environment) :
    (state.openCall outer).Alike ids lines before (state'.openCall outer) := by
  have henter := h.enter outer
  exact ⟨henter.store, henter.environment, congrArg (· + 1) h.callDepth, h.clockReadings, h.output⟩

omit h in
theorem foldl_define {parameters parameters' : List Token} {passed passed' : List Value}
    (hparameters : List.Forall₂ (Token.Alike lines) parameters parameters')
    (hpassed : List.Forall₂ (Value.Alike ids lines) passed passed') {state state' : State}
    (h : state.Alike ids lines before state') :
    ((parameters.zip passed).foldl
      (fun state argument => state.define argument.1.lexeme argument.2) state).Alike ids lines
        before
      ((parameters'.zip passed').foldl
        (fun state argument => state.define argument.1.lexeme argument.2) state') := by
  induction hparameters generalizing passed passed' state state' with
  | nil => exact h
  | cons hparameter _ ih =>
    cases hpassed with
    | nil => exact h
    | cons hvalue hpassed =>
      refine ih hpassed ?_
      dsimp only
      rw [hparameter.lexeme]
      exact h.define _ hvalue

theorem beginCall (outer : Environment) {parameters parameters' : List Token}
    {passed passed' : List Value}
    (hparameters : List.Forall₂ (Token.Alike lines) parameters parameters')
    (hpassed : List.Forall₂ (Value.Alike ids lines) passed passed') :
    (state.beginCall outer (parameters.zip passed)).Alike ids lines before
      (state'.beginCall outer (parameters'.zip passed')) := by
  rw [beginCall_eq, beginCall_eq]
  exact foldl_define hparameters hpassed (h.openCall outer)

theorem endCall : state.endCall.Alike ids lines before state'.endCall :=
  ⟨h.store, h.environment, congrArg (· - 1) h.callDepth, h.clockReadings, h.output⟩

/-- What could be seen at one time is put back at another. -/
theorem restore {reached reached' : State} (hreached : reached.Alike ids lines before reached') :
    State.Alike ids lines before { reached with environment := state.environment }
      { reached' with environment := state'.environment } :=
  ⟨hreached.store, h.environment, hreached.callDepth, hreached.clockReadings, hreached.output⟩

theorem settle : state.settle.Alike ids lines before state'.settle :=
  ⟨h.store, rfl, rfl, h.clockReadings, h.output⟩

/-- States stay alike when more numbers stand for each other. -/
theorem mono (himp : ∀ id id', ids id id' → ids' id id') : state.Alike ids' lines before state' :=
  ⟨h.store.mono himp, h.environment, h.callDepth, h.clockReadings, h.output⟩

variable {setting setting' : Setting} (hsetting : setting.Suits ids setting')
  {id id' : AccessId} (hid : ids id id') {name name' : Token} (hname : name.Alike lines name')
include hsetting hid hname

/-- An access finds the same variable. -/
theorem lookup :
    ResultAlike (Fault.Alike lines)
      (fun found found' => found.1 = found'.1 ∧ found.2.Alike ids lines found'.2)
      (state.lookup setting id name) (state'.lookup setting' id' name') := by
  unfold State.lookup
  rw [← hsetting.config, ← hsetting.depths id id' hid, ← h.environment]
  split
  · split
    · exact h.store.lookupAt _ _ hname
    · exact h.store.lookup _ hname
  · exact h.store.lookup _ hname

end State.Alike

/-! ## Code -/

namespace Code

/-- How executions correspond that are alike. -/
def likeness (ids : AccessId → AccessId → Prop) (lines : Nat → Nat → Prop) (before : String) :
    Routine.Likeness State State Fault Result where
  procedures := Code.Alike ids lines
  results := ResultsAlike ids lines
  states := State.Alike ids lines before
  problems := Fault.Alike lines

open Routine.Likeness hiding similar_call similar_jump

variable {setting setting' : Setting}

theorem similar_call {code code' : Code} (h : code.Alike ids lines code') :
    (likeness ids lines before).Similar (ResultsAlike ids lines code code')
      (Routine.call code : Step code.Result) (Routine.call code') := by
  have hcode : (likeness ids lines before).procedures code code' := h
  exact Routine.Likeness.similar_call hcode

theorem similar_jump {code code' : Code} (h : code.Alike ids lines code') :
    (likeness ids lines before).Similar (ResultsAlike ids lines code code')
      (Routine.jump code : Step code.Result) (Routine.jump code') := by
  have hcode : (likeness ids lines before).procedures code code' := h
  exact Routine.Likeness.similar_jump hcode

theorem similar_value {e e' : Expr} (h : e.Alike ids lines e') :
    (likeness ids lines before).Similar (Value.Alike ids lines) (value e) (value e') :=
  similar_call (.expression h)

theorem similar_arguments {es es' : List Expr} (h : Expr.AllAlike ids lines es es') :
    (likeness ids lines before).Similar (List.Forall₂ (Value.Alike ids lines))
      (Routine.call (arguments es) : Step (List Value)) (Routine.call (arguments es')) :=
  similar_call (.arguments h)

theorem similar_statement {s s' : Stmt} (h : s.Alike ids lines s') :
    (likeness ids lines before).Similar (Completion.Alike ids lines)
      (Routine.call (statement s) : Step Completion) (Routine.call (statement s')) :=
  similar_call (.statement h)

theorem similar_body {ss ss' : List Stmt} (h : Stmt.AllAlike ids lines ss ss') :
    (likeness ids lines before).Similar (Completion.Alike ids lines)
      (Routine.call (body ss) : Step Completion) (Routine.call (body ss')) :=
  similar_call (.body h)

theorem similar_completion {completion completion' : Completion}
    (h : completion.Alike ids lines completion') :
    (likeness ids lines before).Similar (Completion.Alike ids lines)
      (pure completion : Step Completion) (pure completion') :=
  similar_pure h

theorem similar_fault {α α' : Type} {values : α → α' → Prop} {token token' : Token}
    (h : token.Alike lines token') (cause : FaultCause) :
    (likeness ids lines before).Similar values (Routine.fail ⟨token, cause⟩ : Step α)
      (Routine.fail ⟨token', cause⟩ : Step α') := by
  have hfault : Fault.Alike lines ⟨token, cause⟩ ⟨token', cause⟩ := ⟨h, rfl⟩
  exact similar_fail hfault

theorem similar_callDepth :
    (likeness ids lines before).Similar Eq (Routine.gets State.callDepth : Step Nat)
      (Routine.gets State.callDepth) :=
  similar_gets fun _ _ h => State.Alike.callDepth h

theorem similar_enclosed {α α' : Type} {values : α → α' → Prop} {enter enter' leave : State → State}
    {inner : Step α} {inner' : Step α'}
    (h : (likeness ids lines before).Similar values inner inner')
    (henter : ∀ state state' : State, state.Alike ids lines before state' →
      (enter state).Alike ids lines before (enter' state'))
    (hleave : ∀ state state' : State, state.Alike ids lines before state' →
      (leave state).Alike ids lines before (leave state')) :
    (likeness ids lines before).Similar values (enclosed enter leave inner)
      (enclosed enter' leave inner') := by
  apply similar_within h henter
  intro state state' reached reached' hstates hreached
  exact hleave _ _ (State.Alike.restore hstates hreached)

theorem similar_now (hhost : setting.host = setting'.host) :
    (likeness ids lines before).Similar Eq (now setting) (now setting') := by
  apply similar_step
  intro state state' h
  have hreadings : state.clockReadings = state'.clockReadings := State.Alike.clockReadings h
  rw [← hhost, ← hreadings]
  have hnext : State.Alike ids lines before
      { state with clockReadings := state.clockReadings + 1 }
      { state' with clockReadings := state.clockReadings + 1 } :=
    ⟨h.store, h.environment, h.callDepth, rfl, h.output⟩
  exact .ok rfl hnext

theorem calledName_eq {callee callee' : Expr} (h : callee.Alike ids lines callee')
    {called called' : Callable} (hcalled : called.Alike ids lines called') :
    calledName callee called = calledName callee' called' := by
  cases h with
  | read _ hname => exact hname.lexeme
  | _ => exact hcalled.name_eq

theorem invoked_alike {caller caller' : Token} (hcaller : caller.Alike lines caller')
    (builtin : Builtin) {passed passed' : List Value}
    (h : List.Forall₂ (Value.Alike ids lines) passed passed') (time : Int64) :
    ResultAlike (Fault.Alike lines) (Value.Alike ids lines)
      (invoked caller builtin passed time) (invoked caller' builtin passed' time) := by
  have hdata := builtin.yieldsData_invoke time passed'
  unfold invoked
  rw [builtin.invoke_eq_of_indistinct time (h.imp fun _ _ hvalue => hvalue.indistinct)]
  generalize builtin.invoke time passed' = result at hdata
  cases result with
  | ok value => exact .ok (.data (hdata value rfl))
  | error failure => exact .error ⟨hcaller, rfl⟩

section Steps

variable (hsetting : setting.Suits ids setting')
include hsetting

theorem similar_get {id id' : AccessId} (hid : ids id id') {name name' : Token}
    (hname : name.Alike lines name') :
    (likeness ids lines before).Similar (Value.Alike ids lines)
      (Routine.step (State.get setting id name) : Step Value)
      (Routine.step (State.get setting' id' name')) := by
  apply similar_step
  intro state state' hstates
  have hlookup := State.Alike.lookup hstates hsetting hid hname
  unfold State.get
  generalize state.lookup setting id name = found at hlookup ⊢
  generalize state'.lookup setting' id' name' = found' at hlookup ⊢
  cases hlookup with
  | ok h => exact .ok h.2 hstates
  | error h => exact .error h hstates

theorem similar_assign {id id' : AccessId} (hid : ids id id') {name name' : Token}
    (hname : name.Alike lines name') {value value' : Value}
    (hvalue : value.Alike ids lines value') :
    (likeness ids lines before).Similar (Value.Alike ids lines)
      (Routine.step (State.assign setting id name value) : Step Value)
      (Routine.step (State.assign setting' id' name' value')) := by
  apply similar_step
  intro state state' hstates
  have hlookup := State.Alike.lookup hstates hsetting hid hname
  unfold State.assign
  generalize state.lookup setting id name = found at hlookup ⊢
  generalize state'.lookup setting' id' name' = found' at hlookup ⊢
  cases hlookup with
  | error h => exact .error h hstates
  | @ok found found' h =>
    obtain ⟨frame, old⟩ := found
    obtain ⟨frame', old'⟩ := found'
    obtain ⟨rfl, -⟩ := h
    have hassigned : State.Alike ids lines before
        { state with store := state.store.insert frame name.lexeme value }
        { state' with store := state'.store.insert frame name'.lexeme value' } := by
      rw [hname.lexeme]
      exact ⟨hstates.store.insert _ _ hvalue, hstates.environment, hstates.callDepth,
        hstates.clockReadings, hstates.output⟩
    exact .ok hvalue hassigned

theorem similar_perform {caller caller' : Token} (hcaller : caller.Alike lines caller')
    {called called' : Callable} (hcalled : called.Alike ids lines called')
    {passed passed' : List Value} (hpassed : List.Forall₂ (Value.Alike ids lines) passed passed') :
    (likeness ids lines before).Similar (Value.Alike ids lines)
      (perform setting caller called passed) (perform setting' caller' called' passed') := by
  cases hcalled with
  | function h =>
    unfold perform
    apply Similar.bind
    · exact similar_enclosed (similar_body h.body)
        (fun _ _ hstates => hstates.beginCall _ h.parameters hpassed)
        fun _ _ hstates => hstates.endCall
    · intro completion completion' hcompletion
      cases hcompletion with
      | normal => exact similar_pure (.data fun h => by cases h)
      | returned hvalue => exact similar_pure hvalue
  | builtin =>
    rw [perform_builtin, perform_builtin]
    split
    · apply Similar.bind (similar_now hsetting.host)
      rintro time _ rfl
      exact similar_ofExcept (invoked_alike hcaller _ hpassed time)
    · exact similar_ofExcept (invoked_alike hcaller _ hpassed 0)

theorem similar_evaluateCall {callee callee' : Expr} (hcallee : callee.Alike ids lines callee')
    {paren paren' : Token} (hparen : paren.Alike lines paren') {es es' : List Expr}
    (hes : Expr.AllAlike ids lines es es') :
    (likeness ids lines before).Similar (Value.Alike ids lines)
      (evaluateCall setting callee paren es) (evaluateCall setting' callee' paren' es') := by
  apply Similar.bind (similar_value hcallee)
  intro function function' hfunction
  cases hfunction with
  | @data function hdata =>
    cases function with
    | callable _ _ => exact absurd rfl hdata
    | _ => exact similar_fault hparen _
  | callable hcalled =>
    apply Similar.bind (similar_arguments hes)
    intro passed passed' hpassed
    apply Similar.bind similar_callDepth
    rintro depth _ rfl
    rw [hpassed.length_eq, hcalled.arity_eq, hcalled.name_eq, ← hsetting.config]
    split
    · exact similar_fault hparen _
    · split
      · exact similar_fault hparen _
      · have hcaller : Token.Alike lines (.identifier (calledName _ _) paren.line)
            (.identifier (calledName _ _) paren'.line) :=
          ⟨rfl, calledName_eq hcallee hcalled, rfl, hparen.line⟩
        exact similar_perform hsetting hcaller hcalled hpassed

theorem similar_evaluate {e e' : Expr} (h : e.Alike ids lines e') :
    (likeness ids lines before).Similar (Value.Alike ids lines) (evaluate setting e)
      (evaluate setting' e') := by
  cases h with
  | literal => exact similar_pure (.data (Value.isData_ofConstant _))
  | read hid hname => exact similar_get hsetting hid hname
  | assign hid hname hvalue =>
    apply Similar.bind (similar_value hvalue)
    intro assigned assigned' hassigned
    exact similar_assign hsetting hid hname hassigned
  | unary hoperator hoperand =>
    apply Similar.bind (similar_value hoperand)
    intro operand operand' hoperand
    exact similar_ofExcept (Operator.unary_alike hoperator hoperand)
  | binary hleft hoperator hright =>
    apply Similar.bind (similar_value hleft)
    intro left left' hleft
    apply Similar.bind (similar_value hright)
    intro right right' hright
    exact similar_ofExcept (Operator.binary_alike hoperator hleft hright)
  | @logical _ _ right right' _ _ hleft hoperator hright =>
    apply Similar.bind (similar_value hleft)
    intro left left' hleft
    have hdecide : ∀ decided : Bool, (likeness ids lines before).Similar (Value.Alike ids lines)
        (if decided then pure left else Routine.jump (expression right) : Step Value)
        (if decided then pure left' else Routine.jump (expression right')) := by
      intro decided
      split
      · exact similar_pure hleft
      · exact similar_jump (.expression hright)
    rw [hoperator.kind, hleft.indistinct.isTruthy_eq]
    exact hdecide _
  | conditional hcondition hwhenTrue hwhenFalse =>
    apply Similar.bind (similar_value hcondition)
    intro decision decision' hdecision
    rw [hdecision.indistinct.isTruthy_eq]
    cases decision'.isTruthy with
    | true => exact similar_jump (.expression hwhenTrue)
    | false => exact similar_jump (.expression hwhenFalse)
  | call hcallee hparen harguments => exact similar_evaluateCall hsetting hcallee hparen harguments
  | group hinner => exact similar_jump (.expression hinner)
  | host hkeyword hcode =>
    apply Similar.bind (similar_value hcode)
    intro code code' hcode
    have hdata := setting'.host.yieldsData_obey setting'.config.allowHost code'.display
    rw [hsetting.host, hsetting.config, hcode.indistinct.display_eq]
    generalize setting'.host.obey setting'.config.allowHost code'.display = answer at hdata
    cases answer with
    | ok answer => exact similar_pure (.data (hdata answer rfl))
    | error failure => exact similar_fault hkeyword _

omit hsetting in
theorem similar_executeStatement {s s' : Stmt} (h : s.Alike ids lines s') :
    (likeness ids lines before).Similar (Completion.Alike ids lines) (executeStatement s)
      (executeStatement s') := by
  have hmodify : ∀ {change change' : State → State},
      (∀ state state' : State, state.Alike ids lines before state' →
        (change state).Alike ids lines before (change' state')) →
      (likeness ids lines before).Similar (Completion.Alike ids lines)
        (Routine.modify change >>= fun _ => pure .normal : Step Completion)
        (Routine.modify change' >>= fun _ => pure .normal) := by
    intro change change' hchange
    have hstep : (likeness ids lines before).Similar (fun _ _ => True)
        (Routine.modify change : Step Unit) (Routine.modify change') :=
      similar_modify trivial hchange
    exact hstep.bind fun _ _ _ => similar_completion .normal
  cases h with
  | block hbody =>
    exact similar_enclosed (similar_body hbody)
      (fun state state' hstates => by
        rw [← hstates.environment]
        exact hstates.enter _)
      fun _ _ hstates => hstates
  | expression hvalue =>
    exact Similar.bind (similar_value hvalue) fun _ _ _ => similar_completion .normal
  | function hname hparameters hbody =>
    exact hmodify fun _ _ hstates => hstates.declare ⟨hname, hparameters, hbody⟩
  | ifThen hcondition hwhenTrue =>
    apply Similar.bind (similar_value hcondition)
    intro decision decision' hdecision
    rw [hdecision.indistinct.isTruthy_eq]
    split
    · exact similar_jump (.statement hwhenTrue)
    · exact similar_completion .normal
  | ifElse hcondition hwhenTrue hwhenFalse =>
    apply Similar.bind (similar_value hcondition)
    intro decision decision' hdecision
    rw [hdecision.indistinct.isTruthy_eq]
    cases decision'.isTruthy with
    | true => exact similar_jump (.statement hwhenTrue)
    | false => exact similar_jump (.statement hwhenFalse)
  | print _ hvalue =>
    apply Similar.bind (similar_value hvalue)
    intro printed printed' hprinted
    rw [hprinted.indistinct.display_eq]
    exact hmodify fun _ _ hstates => hstates.print _
  | returnNil hkeyword =>
    apply Similar.bind similar_callDepth
    rintro depth _ rfl
    split
    · exact similar_fault hkeyword _
    · exact similar_completion (.returned (.data fun h => by cases h))
  | returnValue hkeyword hvalue =>
    apply Similar.bind similar_callDepth
    rintro depth _ rfl
    split
    · exact similar_fault hkeyword _
    · apply Similar.bind (similar_value hvalue)
      intro returned returned' hreturned
      exact similar_completion (.returned hreturned)
  | varNil hname =>
    have hnil : Value.Alike ids lines .nil .nil := .data fun h => by cases h
    apply Similar.bind (similar_pure hnil)
    intro start start' hstart
    rw [hname.lexeme]
    exact hmodify fun _ _ hstates => hstates.define _ hstart
  | varValue hname hvalue =>
    apply Similar.bind (similar_value hvalue)
    intro start start' hstart
    rw [hname.lexeme]
    exact hmodify fun _ _ hstates => hstates.define _ hstart
  | «while» hcondition hbody =>
    apply Similar.bind (similar_value hcondition)
    intro decision decision' hdecision
    rw [hdecision.indistinct.isTruthy_eq]
    split
    · apply Similar.bind (similar_statement hbody)
      intro completion completion' hcompletion
      cases hcompletion with
      | normal => exact similar_jump (.statement (.while hcondition hbody))
      | returned hvalue => exact similar_completion (.returned hvalue)
    · exact similar_completion .normal

/-- Code that is alike does the same. -/
theorem similar_execute {code code' : Code} (h : code.Alike ids lines code') :
    (likeness ids lines before).Similar (ResultsAlike ids lines code code') (execute setting code)
      (execute setting' code') := by
  cases h with
  | expression h => exact similar_evaluate hsetting h
  | statement h => exact similar_executeStatement h
  | arguments h =>
    cases h with
    | nil => exact similar_pure List.Forall₂.nil
    | cons h hs =>
      apply Similar.bind (similar_value h)
      intro first first' hfirst
      apply Similar.bind (similar_arguments hs)
      intro others others' hothers
      exact similar_pure (List.Forall₂.cons hfirst hothers)
  | body h =>
    cases h with
    | nil => exact similar_completion .normal
    | cons h hs =>
      apply Similar.bind (similar_statement h)
      intro completion completion' hcompletion
      cases hcompletion with
      | normal => exact similar_jump (.body hs)
      | returned hvalue => exact similar_completion (.returned hvalue)

end Steps

end Code

end Lox
