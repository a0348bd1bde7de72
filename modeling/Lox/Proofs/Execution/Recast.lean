/-
# Executions of code that is recast

Code that is recast does what the code does that it comes from, without some of its frames. Frames
are missing like the scopes that they come from, and as they have no variables of their own, each
access finds the same frame on both sides: by depth, because its depth is less by the frames that
are missing in between, and by name, because they are passed by. While a program is executed, frames
come to exist and may be missing, so this is a correspondence in which more and more corresponds
(`Code.similar_executeBare`).

Parentheses that are only there on one side take a call of their own. So on both sides expressions
are evaluated without the parentheses around them.
-/

import Lox.Proofs.CallTree.Endings
import Lox.Proofs.Execution.Bare
import Lox.Proofs.Execution.Renamed
import Lox.Proofs.Store.Laws
import Lox.Proofs.Value.Recast

namespace Lox

section Relations

variable (r : Recasting)

/-- Two stores of which the second has the frames of the first without those that are flagged. These
have no variables, and the others have the same. -/
structure Store.Recast (flags : List Bool) (store store' : Store) : Prop where
  size : store.frames.size = flags.length
  size' : store'.frames.size = flags.count false
  functions : store.functions = store'.functions
  globals : flags[globalFrame]? = some false
  find : ∀ frame, flags[frame]? = some false → ∀ name,
    Option.Rel (Value.Recast r flags) (store.find? frame name)
      (store'.find? (frame.thinned flags) name)
  missing : ∀ frame, flags[frame]? = some true → ∀ name, store.find? frame name = none

/-- Two states of which the second is the first recast. -/
structure State.Recast (markings : Markings) (state state' : State) : Prop where
  store : state.store.Recast r markings.frames state'.store
  environment : state.environment.Thinned markings.frames markings.scopes state'.environment
  callDepth : state.callDepth = state'.callDepth
  clockReadings : state.clockReadings = state'.clockReadings
  output : state.output = state'.output

/-- Two statements ended in the same way. -/
inductive Completion.Recast (flags : List Bool) : Completion → Completion → Prop
  | normal : Completion.Recast flags .normal .normal
  | returned {value value' : Value} (h : value.Recast r flags value') :
      Completion.Recast flags (.returned value) (.returned value')

/-- What two accesses found: the same variable in the same frame. -/
structure Store.FoundRecast (flags : List Bool) (found found' : FrameId × Value) : Prop where
  kept : flags[found.1]? = some false
  frame : found'.1 = found.1.thinned flags
  value : found.2.Recast r flags found'.2

/-- Two settings in which what stands for each other does the same. -/
structure Setting.Recasts (setting setting' : Setting) : Prop where
  config : setting.config = setting'.config
  host : setting.host = setting'.host
  /-- By depth, accesses find the same frames. -/
  depths : setting.config.useResolver = true → ∀ marks id id', r.accesses marks id id' →
    ThinnedDepth marks setting.depths[id]? setting'.depths[id']?
  /-- Accesses that find nothing at their depths fail in ways that stand for each other. -/
  lost : setting.config.useResolver = true → ∀ marks id id' depth depth' name,
    r.accesses marks id id' → setting.depths[id]? = some depth →
    setting'.depths[id']? = some depth' →
      r.faults ⟨name, .internal (.pastOutermostFrame depth name.lexeme)⟩
        ⟨name, .internal (.pastOutermostFrame depth' name.lexeme)⟩ ∧
      r.faults ⟨name, .internal (.missingVariable depth name.lexeme)⟩
        ⟨name, .internal (.missingVariable depth' name.lexeme)⟩
  /-- Operators make the same of their operands. -/
  operators : ∀ operator operator', r.operators operator operator' → ∀ left right,
    ResultAlike r.faults Eq (Operator.binary operator left right)
      (Operator.binary operator' left right)
  /-- Each fault stands for itself. -/
  faults : ∀ fault, r.faults fault fault

/-- Two pieces of code of one sort of which the second is the first recast, in scopes with some
marks. The parentheses around expressions do not matter. -/
inductive Code.Recast (marks : List Bool) : Code → Code → Prop
  | expression {e e' : Expr} (h : e.bare.Recast r marks e'.bare) :
      Code.Recast marks (.expression e) (.expression e')
  | arguments {es es' : List Expr} (h : Expr.AllRecast r marks es es') :
      Code.Recast marks (.arguments es) (.arguments es')
  | statement {s s' : Stmt} (h : s.Recast r marks s') :
      Code.Recast marks (.statement s) (.statement s')
  | body {ss ss' : List Stmt} (h : Stmt.AllRecast r marks ss ss') :
      Code.Recast marks (.body ss) (.body ss')

/-- Two pieces of code are of one sort and end with what corresponds. -/
def Code.ResultsRecast (flags : List Bool) : (code code' : Code) → code.Result → code'.Result → Prop
  | .expression _, .expression _ => Value.Recast r flags
  | .arguments _, .arguments _ => List.Forall₂ (Value.Recast r flags)
  | .statement _, .statement _ => Completion.Recast r flags
  | .body _, .body _ => Completion.Recast r flags
  | _, _ => fun _ _ => False

end Relations

variable {r r' : Recasting} {flags : List Bool} {markings later : Markings}

/-! ## Stores -/

namespace Store.Recast

variable {store store' : Store} (h : store.Recast r flags store')
include h

theorem insert {frame : FrameId} (hframe : flags[frame]? = some false) (name : String)
    {value value' : Value} (hvalue : value.Recast r flags value') :
    (store.insert frame name value).Recast r flags
      (store'.insert (frame.thinned flags) name value') := by
  have hsize : frame < flags.length := (List.getElem?_eq_some_iff.1 hframe).1
  refine ⟨size_insert.trans h.size, size_insert.trans h.size', h.functions, h.globals, ?_, ?_⟩
  · intro other hother name'
    have hsame := FrameId.thinned_inj hother hframe
    rw [find?_insert, find?_insert, h.size, h.size']
    by_cases hinserted : other = frame ∧ name' = name
    · rw [if_pos ⟨hinserted.1, hinserted.2, hsize⟩,
        if_pos ⟨hsame.2 hinserted.1, hinserted.2, FrameId.thinned_lt_count hframe⟩]
      exact .some hvalue
    · rw [if_neg fun h' => hinserted ⟨h'.1, h'.2.1⟩,
        if_neg fun h' => hinserted ⟨hsame.1 h'.1, h'.2.1⟩]
      exact h.find other hother name'
  · intro other hother name'
    have hne : other ≠ frame := by
      rintro rfl
      cases hframe.symm.trans hother
    rw [find?_insert, if_neg fun h' => hne h'.1]
    exact h.missing other hother name'

/-- A variable is declared in a scope that is there on both sides. -/
theorem define {environment environment' : Environment} {marks : List Bool}
    (henvironment : environment.Thinned flags marks environment') (hmark : marks.head? ≠ some true)
    (name : String) {value value' : Value} (hvalue : value.Recast r flags value') :
    (store.define environment name value).Recast r flags
    (store'.define environment' name value') := by
  cases henvironment with
  | nil => exact h
  | kept hframe _ => exact h.insert hframe name hvalue
  | missing _ _ => exact absurd rfl hmark

/-- A value found before there is a further frame is found then. -/
theorem rel_find_append {frame : FrameId} (hframe : flags[frame]? = some false) (name : String)
    (flag : Bool) :
    Option.Rel (Value.Recast r (flags ++ [flag])) (store.find? frame name)
      (store'.find? (frame.thinned flags) name) := by
  have hfind := h.find frame hframe name
  generalize store.find? frame name = found at hfind ⊢
  generalize store'.find? (frame.thinned flags) name = found' at hfind ⊢
  cases hfind with
  | none => exact .none
  | some hvalue => exact .some (hvalue.mono (.refl r) (List.prefix_append _ _))

omit h in
theorem find?_eq_none_of_size_le {store : Store} {frame : FrameId}
    (hsize : store.frames.size ≤ frame)
    (name : String) : store.find? frame name = none := by
  unfold find?
  rw [Array.getElem?_eq_none hsize]
  rfl

/-- A new frame on both sides. -/
theorem child (environment environment' : Environment) :
    (store.child environment).2.Recast r (flags ++ [false]) (store'.child environment').2 := by
  have hglobals := h.globals
  refine ⟨?_, ?_, h.functions, ?_, fun frame hframe name => ?_, fun frame hframe name => ?_⟩
  · rw [List.length_append, ← h.size]
    exact Array.size_push _
  · rw [List.count_append, ← h.size']
    exact Array.size_push _
  · rw [List.getElem?_append_left (List.getElem?_eq_some_iff.1 hglobals).1, hglobals]
  · rw [find?_child, find?_child]
    rcases Nat.lt_or_ge frame flags.length with hlt | hge
    · rw [List.getElem?_append_left hlt] at hframe
      rw [FrameId.thinned_mono (List.prefix_append _ _) hlt]
      exact h.rel_find_append hframe name false
    · obtain rfl : frame = flags.length := by
        have hlt := (List.getElem?_eq_some_iff.1 hframe).1
        rw [List.length_append] at hlt
        exact Nat.le_antisymm (Nat.le_of_lt_succ hlt) hge
      have hthinned : FrameId.thinned (flags ++ [false]) flags.length = flags.count false := by
        unfold FrameId.thinned
        rw [List.take_append_of_le_length (Nat.le_refl _), List.take_length]
      rw [hthinned, find?_eq_none_of_size_le (Nat.le_of_eq h.size),
        find?_eq_none_of_size_le (Nat.le_of_eq h.size')]
      exact .none
  · rw [find?_child]
    rcases Nat.lt_or_ge frame flags.length with hlt | hge
    · rw [List.getElem?_append_left hlt] at hframe
      exact h.missing frame hframe name
    · exact find?_eq_none_of_size_le (h.size.trans_le hge) name

/-- A new frame on the first side alone. -/
theorem child_missing (environment : Environment) :
    (store.child environment).2.Recast r (flags ++ [true]) store' := by
  have hglobals := h.globals
  refine ⟨?_, ?_, h.functions, ?_, fun frame hframe name => ?_, fun frame hframe name => ?_⟩
  · rw [List.length_append, ← h.size]
    exact Array.size_push _
  · rw [List.count_append, h.size']
    rfl
  · rw [List.getElem?_append_left (List.getElem?_eq_some_iff.1 hglobals).1, hglobals]
  · have hlt : frame < flags.length := by
      rcases Nat.lt_or_ge frame flags.length with hlt | hge
      · exact hlt
      · rw [List.getElem?_append_right hge, List.getElem?_singleton] at hframe
        split at hframe <;> cases hframe
    rw [List.getElem?_append_left hlt] at hframe
    rw [find?_child, FrameId.thinned_mono (List.prefix_append _ _) hlt]
    exact h.rel_find_append hframe name true
  · rw [find?_child]
    rcases Nat.lt_or_ge frame flags.length with hlt | hge
    · rw [List.getElem?_append_left hlt] at hframe
      exact h.missing frame hframe name
    · exact find?_eq_none_of_size_le (h.size.trans_le hge) name

theorem newFunction {called called' : Callable} (hcalled : called.Recast r flags called') :
    (store.newFunction called).1.Recast r flags (store'.newFunction called').1 ∧
      (store.newFunction called).2.Recast r flags (store'.newFunction called').2 := by
  refine ⟨?_, h.size, h.size', congrArg (· + 1) h.functions, h.globals, h.find, h.missing⟩
  unfold Store.newFunction
  rw [h.functions]
  exact .callable hcalled

/-- By name, a variable is found in the same frame, or missed. -/
theorem lookup {environment environment' : Environment} {marks : List Bool}
    (henvironment : environment.Thinned flags marks environment') {name : Token}
    (hfaults : ∀ fault, r.faults fault fault) :
    ResultAlike r.faults (FoundRecast r flags) (store.lookup environment name)
      (store'.lookup environment' name) := by
  induction henvironment with
  | nil => exact .error (hfaults _)
  | @kept marks frame environment environment' hframe _ ih =>
    have hfind := h.find frame hframe name.lexeme
    rw [lookup_cons, lookup_cons]
    generalize store.find? frame name.lexeme = found at hfind ⊢
    generalize store'.find? (frame.thinned flags) name.lexeme = found' at hfind ⊢
    cases hfind with
    | none => exact ih
    | some hvalue => exact .ok ⟨hframe, rfl, hvalue⟩
  | @missing marks frame environment environment' hframe _ ih =>
    rw [lookup_cons, h.missing frame hframe name.lexeme]
    exact ih

/-- By depth, a variable is found in the same frame, or missed. -/
theorem lookupAt {environment environment' : Environment} {marks : List Bool}
    (henvironment : environment.Thinned flags marks environment') {depth depth' : Nat}
    (hmark : marks[depth]? ≠ some true) (hdepth : depth = depth' + (marks.take depth).count true)
    {name : Token}
    (hpast : r.faults ⟨name, .internal (.pastOutermostFrame depth name.lexeme)⟩
      ⟨name, .internal (.pastOutermostFrame depth' name.lexeme)⟩)
    (hmissing : r.faults ⟨name, .internal (.missingVariable depth name.lexeme)⟩
      ⟨name, .internal (.missingVariable depth' name.lexeme)⟩) :
    ResultAlike r.faults (FoundRecast r flags) (store.lookupAt environment depth name)
      (store'.lookupAt environment' depth' name) := by
  unfold Store.lookupAt
  rcases henvironment.drop hmark hdepth with ⟨hdrop, hdrop'⟩ |
    ⟨frame, outer, outer', hframe, hdrop, hdrop'⟩
  · rw [hdrop, hdrop']
    exact .error hpast
  · have hfind := h.find frame hframe name.lexeme
    rw [hdrop, hdrop']
    dsimp only
    generalize store.find? frame name.lexeme = found at hfind ⊢
    generalize store'.find? (frame.thinned flags) name.lexeme = found' at hfind ⊢
    cases hfind with
    | none => exact .error hmissing
    | some hvalue => exact .ok ⟨hframe, rfl, hvalue⟩

/-- Stores stay recast when more is allowed. -/
theorem mono (hr : r.Within r') : store.Recast r' flags store' := by
  refine ⟨h.size, h.size', h.functions, h.globals, fun frame hframe name => ?_, h.missing⟩
  have hfind := h.find frame hframe name
  generalize store.find? frame name = found at hfind ⊢
  generalize store'.find? (frame.thinned flags) name = found' at hfind ⊢
  cases hfind with
  | none => exact .none
  | some hvalue => exact .some (hvalue.mono hr (List.prefix_refl _))

end Store.Recast

/-! ## States -/

/-- Outside all scopes only global variables can be seen. -/
theorem Environment.Thinned.globals (h : flags[Store.globalFrame]? = some false) :
    Environment.Thinned flags [false] Store.globals Store.globals :=
  .kept h .nil

/-- A new frame is put in front of those that can be seen. -/
theorem Environment.Thinned.enter {environment environment' : Environment} {marks : List Bool}
    (h : environment.Thinned flags marks environment') :
    Environment.Thinned (flags ++ [false]) (false :: marks) (flags.length :: environment)
      (flags.count false :: environment') := by
  have hthinned : FrameId.thinned (flags ++ [false]) flags.length = flags.count false := by
    unfold FrameId.thinned
    rw [List.take_append_of_le_length (Nat.le_refl _), List.take_length]
  rw [← hthinned]
  exact .kept List.getElem?_concat_length (h.mono (List.prefix_append _ _))

namespace State.Recast

variable {state state' : State} (h : state.Recast r markings state')
include h

theorem print (line : String) : (state.print line).Recast r markings (state'.print line) :=
  ⟨h.store, h.environment, h.callDepth, h.clockReadings,
    congrArg (fun output => (output ++ line).push '\n') h.output⟩

theorem define (hmark : markings.scopes.head? ≠ some true) (name : String) {value value' : Value}
    (hvalue : value.Recast r markings.frames value') :
    (state.define name value).Recast r markings (state'.define name value') :=
  ⟨h.store.define h.environment hmark name hvalue, h.environment, h.callDepth, h.clockReadings,
    h.output⟩

theorem declare (hmark : markings.scopes.head? ≠ some true) {name : Token} {parameters : List Token}
    {body body' : List Stmt} (hbody : Stmt.AllRecast r (false :: markings.scopes) body body') :
    (state.declare ⟨name, parameters, body⟩).Recast r markings
      (state'.declare ⟨name, parameters, body'⟩) := by
  have hcalled : Callable.Recast r markings.frames
    (.function ⟨name, parameters, body⟩ state.environment)
      (.function ⟨name, parameters, body'⟩ state'.environment) := .function h.environment hbody
  have hfunction := h.store.newFunction hcalled
  exact ⟨hfunction.2.define h.environment hmark name.lexeme hfunction.1, h.environment, h.callDepth,
    h.clockReadings, h.output⟩

theorem enter {outer outer' : Environment} {marks : List Bool}
    (houter : outer.Thinned markings.frames marks outer') :
    (state.enter outer).Recast r (markings.enter false marks) (state'.enter outer') := by
  refine ⟨h.store.child outer outer', ?_, h.callDepth, h.clockReadings, h.output⟩
  have hsize : (state.enter outer).environment = markings.frames.length :: outer :=
    congrArg (· :: outer) h.store.size
  have hsize' : (state'.enter outer').environment = markings.frames.count false :: outer' :=
    congrArg (· :: outer') h.store.size'
  rw [hsize, hsize']
  exact houter.enter

/-- A frame that is opened on the first side alone is missing on the second. -/
theorem enter_missing :
    (state.enter state.environment).Recast r (markings.enter true markings.scopes) state' := by
  refine ⟨h.store.child_missing state.environment, ?_, h.callDepth, h.clockReadings, h.output⟩
  have hsize : (state.enter state.environment).environment =
      markings.frames.length :: state.environment := congrArg (· :: state.environment) h.store.size
  rw [hsize]
  exact .missing List.getElem?_concat_length (h.environment.mono (List.prefix_append _ _))

theorem openCall {outer outer' : Environment} {marks : List Bool}
    (houter : outer.Thinned markings.frames marks outer') :
    (state.openCall outer).Recast r (markings.enter false marks) (state'.openCall outer') := by
  have henter := h.enter houter
  exact ⟨henter.store, henter.environment, congrArg (· + 1) h.callDepth, h.clockReadings, h.output⟩

omit h in
theorem foldl_define (hmark : markings.scopes.head? ≠ some true) (parameters : List Token)
    {passed passed' : List Value}
    (hpassed : List.Forall₂ (Value.Recast r markings.frames) passed passed')
    {state state' : State} (h : state.Recast r markings state') :
    ((parameters.zip passed).foldl
      (fun state argument => state.define argument.1.lexeme argument.2) state).Recast r markings
      ((parameters.zip passed').foldl
        (fun state argument => state.define argument.1.lexeme argument.2) state') := by
  induction hpassed generalizing parameters state state' with
  | nil =>
    rw [List.zip_nil_right]
    exact h
  | cons hvalue _ ih =>
    cases parameters with
    | nil => exact h
    | cons parameter parameters => exact ih parameters (h.define hmark parameter.lexeme hvalue)

theorem beginCall {outer outer' : Environment} {marks : List Bool}
    (houter : outer.Thinned markings.frames marks outer') (parameters : List Token)
    {passed passed' : List Value}
    (hpassed : List.Forall₂ (Value.Recast r markings.frames) passed passed') :
    (state.beginCall outer (parameters.zip passed)).Recast r (markings.enter false marks)
      (state'.beginCall outer' (parameters.zip passed')) := by
  have hmark : (markings.enter false marks).scopes.head? ≠ some true :=
    fun hmark => Bool.false_ne_true (Option.some.inj hmark)
  rw [beginCall_eq, beginCall_eq]
  exact foldl_define hmark parameters
    (hpassed.imp fun _ _ hvalue => hvalue.mono (.refl r) (List.prefix_append _ _))
    (h.openCall houter)

theorem endCall : state.endCall.Recast r markings state'.endCall :=
  ⟨h.store, h.environment, congrArg (· - 1) h.callDepth, h.clockReadings, h.output⟩

/-- What could be seen at one time is put back at another, when there may be more frames. -/
theorem restore {reached reached' : State} (hflags : markings.frames <+: later.frames)
    (hreached : reached.Recast r later reached') :
    State.Recast r ⟨later.frames, markings.scopes⟩
      { reached with environment := state.environment }
      { reached' with environment := state'.environment } :=
  ⟨hreached.store, h.environment.mono hflags, hreached.callDepth, hreached.clockReadings,
    hreached.output⟩

theorem settle : state.settle.Recast r ⟨markings.frames, [false]⟩ state'.settle :=
  ⟨h.store, .globals h.store.globals, rfl, h.clockReadings, h.output⟩

theorem mono (hr : r.Within r') : state.Recast r' markings state' :=
  ⟨h.store.mono hr, h.environment, h.callDepth, h.clockReadings, h.output⟩

/-- An access finds the variable that the access finds which it stands for. -/
theorem lookup {setting setting' : Setting} (hsetting : setting.Recasts r setting')
    {id id' : AccessId} (hid : r.accesses markings.scopes id id') (name : Token) :
    ResultAlike r.faults (Store.FoundRecast r markings.frames) (state.lookup setting id name)
      (state'.lookup setting' id' name) := by
  unfold State.lookup
  rw [← hsetting.config]
  split
  · rename_i hresolver
    have hdepths := hsetting.depths hresolver _ _ _ hid
    have hlost := fun depth depth' => hsetting.lost hresolver _ _ _ depth depth' name hid
    generalize setting.depths[id]? = depth at hdepths hlost ⊢
    generalize setting'.depths[id']? = depth' at hdepths hlost ⊢
    cases hdepths with
    | none => exact h.store.lookup (.globals h.store.globals) hsetting.faults
    | @some depth depth' hdepth =>
      obtain ⟨hpast, hmissing⟩ := hlost depth depth' rfl rfl
      exact h.store.lookupAt h.environment hdepth.1 hdepth.2 hpast hmissing
  · exact h.store.lookup h.environment hsetting.faults

end State.Recast

/-! ## Code -/

namespace Code

/-- How executions correspond of which the second is that of code that is recast. -/
def recast (r : Recasting) : Routine.Development Markings State Fault Result where
  procedures markings := Code.Recast r markings.scopes
  results markings := ResultsRecast r markings.frames
  states := State.Recast r
  problems := r.faults

open Routine.Development hiding similar_call similar_jump

theorem similar_call_recast (hle : markings ≤ later) {code code' : Code}
    (h : code.Recast r markings.scopes code') :
    (recast r).Similar later (fun markings => ResultsRecast r markings.frames code code')
      (Routine.call code : Step code.Result) (Routine.call code') := by
  rw [← hle.2] at h
  have hcode : (recast r).procedures later code code' := h
  exact Routine.Development.similar_call hcode

theorem similar_jump_recast (hle : markings ≤ later) {code code' : Code}
    (h : code.Recast r markings.scopes code') :
    (recast r).Similar later (fun markings => ResultsRecast r markings.frames code code')
      (Routine.jump code : Step code.Result) (Routine.jump code') := by
  rw [← hle.2] at h
  have hcode : (recast r).procedures later code code' := h
  exact Routine.Development.similar_jump hcode

section Calls

variable (hle : markings ≤ later)
include hle

theorem similar_value_recast {e e' : Expr} (h : e.bare.Recast r markings.scopes e'.bare) :
    (recast r).Similar later (fun markings => Value.Recast r markings.frames) (value e)
    (value e') :=
  similar_call_recast hle (.expression h)

theorem similar_arguments_recast {es es' : List Expr}
    (h : Expr.AllRecast r markings.scopes es es') :
    (recast r).Similar later (fun markings => List.Forall₂ (Value.Recast r markings.frames))
      (Routine.call (arguments es) : Step (List Value)) (Routine.call (arguments es')) :=
  similar_call_recast hle (.arguments h)

theorem similar_statement_recast {s s' : Stmt} (h : s.Recast r markings.scopes s') :
    (recast r).Similar later (fun markings => Completion.Recast r markings.frames)
      (Routine.call (statement s) : Step Completion) (Routine.call (statement s')) :=
  similar_call_recast hle (.statement h)

theorem similar_body_recast {ss ss' : List Stmt} (h : Stmt.AllRecast r markings.scopes ss ss') :
    (recast r).Similar later (fun markings => Completion.Recast r markings.frames)
      (Routine.call (body ss) : Step Completion) (Routine.call (body ss')) :=
  similar_call_recast hle (.body h)

/-- An expression in the place of the one that is executed. -/
theorem similar_expression_recast {e e' : Expr} (h : e.Recast r markings.scopes e') :
    (recast r).Similar later (fun markings => Value.Recast r markings.frames)
      (Routine.jump (expression e) : Step Value) (Routine.jump (expression e')) :=
  similar_jump_recast hle (.expression h.bare)

/-- A statement in the place of the one that is executed. -/
theorem similar_continue_recast {s s' : Stmt} (h : s.Recast r markings.scopes s') :
    (recast r).Similar later (fun markings => Completion.Recast r markings.frames)
      (Routine.jump (statement s) : Step Completion) (Routine.jump (statement s')) :=
  similar_jump_recast hle (.statement h)

end Calls

theorem similar_completion_recast {completion completion' : Completion}
    (h : completion.Recast r markings.frames completion') :
    (recast r).Similar markings (fun markings => Completion.Recast r markings.frames)
      (pure completion : Step Completion) (pure completion') :=
  similar_pure h

theorem similar_fault_recast {α α' : Type} {values : Markings → α → α' → Prop}
    {fault fault' : Fault} (h : r.faults fault fault') :
    (recast r).Similar markings values (Routine.fail fault : Step α)
      (Routine.fail fault' : Step α') :=
  similar_fail h

theorem similar_callDepth_recast :
    (recast r).Similar markings (fun _ => Eq) (Routine.gets State.callDepth : Step Nat)
      (Routine.gets State.callDepth) :=
  similar_gets fun _ _ h => State.Recast.callDepth h

/-- Code in a new frame begins with the frame there on both sides, and when it has ended the scopes
around are those of before. -/
theorem similar_enclosed_recast {α α' : Type} {values : List Bool → α → α' → Prop}
    {marks : List Bool} {flag : Bool} {enter enter' leave : State → State} {inner : Step α}
    {inner' : Step α'}
    (h : (recast r).Similar (markings.enter flag marks) (fun markings => values markings.frames)
      inner inner')
    (henter : ∀ state state' : State, state.Recast r markings state' →
      (enter state).Recast r (markings.enter flag marks) (enter' state'))
    (hleave : ∀ (markings : Markings) (state state' : State), state.Recast r markings state' →
      (leave state).Recast r markings (leave state')) :
    (recast r).Similar markings (fun markings => values markings.frames)
    (enclosed enter leave inner)
      (enclosed enter' leave inner') := by
  apply similar_within h henter
  intro state state' later reached reached' hstates hlater hreached
  -- The frames that came to exist inside stay, with their flags: closures may refer to them.
  have hflags : markings.frames <+: later.frames := (List.prefix_append _ _).trans hlater.1
  refine ⟨⟨later.frames, markings.scopes⟩, ⟨hflags, rfl⟩, ?_, fun _ _ hvalues => hvalues⟩
  exact hleave _ _ _ (State.Recast.restore hstates hflags hreached)

theorem calledName_recast {marks : List Bool} {callee callee' : Expr}
    (h : callee.Recast r marks callee') {called called' : Callable}
    (hcalled : called.Recast r flags called') :
    calledName callee called = calledName callee' called' := by
  have hname := hcalled.name_eq
  cases h with
  | read _ => rfl
  | _ => exact hname

section Steps

variable {setting setting' : Setting} (hsetting : setting.Recasts r setting')
include hsetting

theorem similar_now_recast :
    (recast r).Similar markings (fun _ => Eq) (now setting) (now setting') := by
  apply similar_step
  intro state state' h
  have hreadings : state.clockReadings = state'.clockReadings := State.Recast.clockReadings h
  rw [← hsetting.host, ← hreadings]
  have hnext : State.Recast r markings
      { state with clockReadings := state.clockReadings + 1 }
      { state' with clockReadings := state.clockReadings + 1 } :=
    ⟨h.store, h.environment, h.callDepth, rfl, h.output⟩
  exact .ok le_rfl rfl hnext

theorem similar_get_recast {id id' : AccessId} (hid : r.accesses markings.scopes id id')
    (name : Token) :
    (recast r).Similar markings (fun markings => Value.Recast r markings.frames)
      (Routine.step (State.get setting id name) : Step Value)
      (Routine.step (State.get setting' id' name)) := by
  apply similar_step
  intro state state' hstates
  have hlookup := State.Recast.lookup hstates hsetting hid name
  unfold State.get
  generalize state.lookup setting id name = found at hlookup ⊢
  generalize state'.lookup setting' id' name = found' at hlookup ⊢
  cases hlookup with
  | ok h => exact .ok le_rfl h.value hstates
  | error h => exact .error le_rfl h hstates

theorem similar_assign_recast (hle : markings ≤ later) {id id' : AccessId}
    (hid : r.accesses markings.scopes id id') (name : Token) {value value' : Value}
    (hvalue : value.Recast r later.frames value') :
    (recast r).Similar later (fun markings => Value.Recast r markings.frames)
      (Routine.step (State.assign setting id name value) : Step Value)
      (Routine.step (State.assign setting' id' name value')) := by
  rw [← hle.2] at hid
  apply similar_step
  intro state state' hstates
  have hlookup := State.Recast.lookup hstates hsetting hid name
  unfold State.assign
  generalize state.lookup setting id name = found at hlookup ⊢
  generalize state'.lookup setting' id' name = found' at hlookup ⊢
  cases hlookup with
  | error h => exact .error le_rfl h hstates
  | @ok found found' h =>
    obtain ⟨frame, old⟩ := found
    obtain ⟨frame', old'⟩ := found'
    obtain ⟨hframe, rfl, -⟩ := h
    have hassigned : State.Recast r later
        { state with store := state.store.insert frame name.lexeme value }
        { state' with
          store := state'.store.insert (frame.thinned later.frames) name.lexeme value' } :=
      ⟨hstates.store.insert hframe name.lexeme hvalue, hstates.environment, hstates.callDepth,
        hstates.clockReadings, hstates.output⟩
    exact .ok le_rfl hvalue hassigned

theorem similar_invoked_recast (caller : Token) (builtin : Builtin) {passed passed' : List Value}
    (h : List.Forall₂ (Value.Recast r markings.frames) passed passed') (time : Int64) :
    (recast r).Similar markings (fun markings => Value.Recast r markings.frames)
      (Routine.ofExcept (invoked caller builtin passed time) : Step Value)
      (Routine.ofExcept (invoked caller builtin passed' time)) := by
  have hinvoked : invoked caller builtin passed time = invoked caller builtin passed' time := by
    unfold invoked
    rw [builtin.invoke_eq_of_indistinct time (h.imp fun _ _ hvalue => hvalue.indistinct)]
  rw [hinvoked]
  exact similar_ofExcept
    ((yieldsData_invoked caller builtin passed' time).resultAlike (fun _ => .data) hsetting.faults)

theorem similar_perform_recast (caller : Token) {called called' : Callable}
    (hcalled : called.Recast r markings.frames called') {passed passed' : List Value}
    (hpassed : List.Forall₂ (Value.Recast r markings.frames) passed passed') :
    (recast r).Similar markings (fun markings => Value.Recast r markings.frames)
      (perform setting caller called passed) (perform setting' caller called' passed') := by
  cases hcalled with
  | @function _ parameters _ _ _ _ marks hclosure hbody =>
    unfold perform
    apply Similar.bind
    · exact similar_enclosed_recast
        (similar_body_recast (@le_rfl _ _ (markings.enter false marks)) hbody)
        (fun _ _ hstates => hstates.beginCall hclosure parameters hpassed)
        fun _ _ _ hstates => hstates.endCall
    · intro later hle completion completion' hcompletion
      cases hcompletion with
      | normal => exact similar_pure .nil
      | returned hvalue => exact similar_pure hvalue
  | builtin =>
    rw [perform_builtin, perform_builtin]
    split
    · apply Similar.bind (similar_now_recast hsetting)
      rintro later hle time _ rfl
      exact similar_invoked_recast hsetting caller _
        (hpassed.imp fun _ _ hvalue => hvalue.mono (.refl r) hle.1) time
    · exact similar_invoked_recast hsetting caller _ hpassed 0

theorem similar_evaluateCall_recast {callee callee' : Expr}
    (hcallee : callee.Recast r markings.scopes callee') (paren : Token) {es es' : List Expr}
    (hes : Expr.AllRecast r markings.scopes es es') :
    (recast r).Similar markings (fun markings => Value.Recast r markings.frames)
      (evaluateCall setting callee paren es) (evaluateCall setting' callee' paren es') := by
  apply Similar.bind (similar_value_recast le_rfl hcallee.bare)
  intro later hle function function' hfunction
  cases hfunction with
  | @data function hdata =>
    cases function with
    | callable _ _ => exact absurd rfl hdata
    | _ => exact similar_fault_recast (hsetting.faults _)
  | callable hcalled =>
    apply Similar.bind (similar_arguments_recast hle hes)
    intro further hle' passed passed' hpassed
    apply Similar.bind similar_callDepth_recast
    rintro last hle'' depth _ rfl
    replace hcalled := hcalled.mono (.refl r) (hle'.trans hle'').1
    replace hpassed := hpassed.imp fun _ _ hvalue => hvalue.mono (.refl r) hle''.1
    rw [hpassed.length_eq, hcalled.arity_eq, hcalled.name_eq, ← hsetting.config,
      calledName_recast hcallee hcalled]
    split
    · exact similar_fault_recast (hsetting.faults _)
    · split
      · exact similar_fault_recast (hsetting.faults _)
      · exact similar_perform_recast hsetting _ hcalled hpassed

/-- Operators that stand for each other make the same of operands that are recast. -/
theorem similar_operator_recast {operator operator' : Token}
    (hoperator : r.operators operator operator') {left left' right right' : Value}
    (hleft : left.Recast r markings.frames left') (hright : right.Recast r markings.frames right') :
    (recast r).Similar markings (fun markings => Value.Recast r markings.frames)
      (Routine.ofExcept (Operator.binary operator left right) : Step Value)
      (Routine.ofExcept (Operator.binary operator' left' right')) := by
  have hresult := hsetting.operators operator operator' hoperator left' right'
  have hdata := Operator.yieldsData_binary operator left' right'
  rw [Operator.binary_eq_of_indistinct hleft.indistinct hright.indistinct]
  apply similar_ofExcept
  generalize Operator.binary operator left' right' = result at hresult hdata ⊢
  generalize Operator.binary operator' left' right' = result' at hresult ⊢
  cases hresult with
  | @ok value _ heq =>
    cases heq
    exact .ok (.data (hdata value rfl))
  | error hfault => exact .error hfault

theorem similar_binary_recast {left left' right right' : Expr} {operator operator' : Token}
    (hleft : left.Recast r markings.scopes left') (hoperator : r.operators operator operator')
    (hright : right.bare.Recast r markings.scopes right'.bare) :
    (recast r).Similar markings (fun markings => Value.Recast r markings.frames)
      (evaluate setting (.binary left operator right))
      (evaluate setting' (.binary left' operator' right')) := by
  apply Similar.bind (similar_value_recast le_rfl hleft.bare)
  intro later hle left left' hleft
  apply Similar.bind (similar_value_recast hle hright)
  intro further hle' right right' hright
  exact similar_operator_recast hsetting hoperator (hleft.mono (.refl r) hle'.1) hright

theorem similar_evaluate_recast {e e' : Expr} (h : e.Recast r markings.scopes e') :
    (recast r).Similar markings (fun markings => Value.Recast r markings.frames)
      (evaluate setting e) (evaluate setting' e') := by
  cases h with
  | literal => exact similar_pure (.data (Value.isData_ofConstant _))
  | read h => exact similar_get_recast hsetting h _
  | assign h hvalue =>
    apply Similar.bind (similar_value_recast le_rfl hvalue.bare)
    intro later hle assigned assigned' hassigned
    exact similar_assign_recast hsetting hle h _ hassigned
  | @unary operator _ _ hoperand =>
    apply Similar.bind (similar_value_recast le_rfl hoperand.bare)
    intro later hle operand operand' hoperand
    rw [Operator.unary_eq_of_indistinct hoperand.indistinct]
    exact similar_ofExcept
      ((Operator.yieldsData_unary operator operand').resultAlike (fun _ => .data) hsetting.faults)
  | binary hleft hoperator hright =>
    exact similar_binary_recast hsetting hleft hoperator hright.bare
  | grouped hleft hoperator hright =>
    exact similar_binary_recast hsetting hleft hoperator hright.bare
  | @logical _ _ right right' _ hleft hright =>
    apply Similar.bind (similar_value_recast le_rfl hleft.bare)
    intro later hle left left' hleft
    have hdecide : ∀ decided : Bool, (recast r).Similar later
        (fun markings => Value.Recast r markings.frames)
        (if decided then pure left else Routine.jump (expression right) : Step Value)
        (if decided then pure left' else Routine.jump (expression right')) := by
      intro decided
      split
      · exact similar_pure hleft
      · exact similar_expression_recast hle hright
    rw [hleft.indistinct.isTruthy_eq]
    exact hdecide _
  | conditional hcondition hwhenTrue hwhenFalse =>
    apply Similar.bind (similar_value_recast le_rfl hcondition.bare)
    intro later hle decision decision' hdecision
    rw [hdecision.indistinct.isTruthy_eq]
    cases decision'.isTruthy with
    | true => exact similar_expression_recast hle hwhenTrue
    | false => exact similar_expression_recast hle hwhenFalse
  | call hcallee harguments => exact similar_evaluateCall_recast hsetting hcallee _ harguments
  | group hinner => exact similar_expression_recast le_rfl hinner
  | host hcode =>
    apply Similar.bind (similar_value_recast le_rfl hcode.bare)
    intro later hle code code' hcode
    have hdata := setting'.host.yieldsData_obey setting'.config.allowHost code'.display
    rw [hsetting.host, hsetting.config, hcode.indistinct.display_eq]
    generalize setting'.host.obey setting'.config.allowHost code'.display = answer at hdata
    cases answer with
    | ok answer => exact similar_pure (.data (hdata answer rfl))
    | error failure => exact similar_fault_recast (hsetting.faults _)

theorem similar_executeStatement_recast {s s' : Stmt} (h : s.Recast r markings.scopes s') :
    (recast r).Similar markings (fun markings => Completion.Recast r markings.frames)
      (executeStatement s) (executeStatement s') := by
  have hmodify : ∀ {markings : Markings} {change change' : State → State},
      (∀ state state' : State, state.Recast r markings state' →
        (change state).Recast r markings (change' state')) →
      (recast r).Similar markings (fun markings => Completion.Recast r markings.frames)
        (Routine.modify change >>= fun _ => pure .normal : Step Completion)
        (Routine.modify change' >>= fun _ => pure .normal) := by
    intro markings change change' hchange
    have hstep : (recast r).Similar markings (fun _ _ _ => True)
        (Routine.modify change : Step Unit) (Routine.modify change') := similar_modify hchange
    exact hstep.bind fun _ _ _ _ _ => similar_completion_recast .normal
  cases h with
  | block hbody =>
    exact similar_enclosed_recast
      (similar_body_recast (@le_rfl _ _ (markings.enter false markings.scopes)) hbody)
      (fun _ _ hstates => hstates.enter hstates.environment) fun _ _ _ hstates => hstates
  | expression hvalue =>
    exact Similar.bind (similar_value_recast le_rfl hvalue.bare)
      fun _ _ _ _ _ => similar_completion_recast .normal
  | function hmark hbody => exact hmodify fun _ _ hstates => hstates.declare hmark hbody
  | ifThen hcondition hwhenTrue =>
    apply Similar.bind (similar_value_recast le_rfl hcondition.bare)
    intro later hle decision decision' hdecision
    rw [hdecision.indistinct.isTruthy_eq]
    split
    · exact similar_continue_recast hle hwhenTrue
    · exact similar_completion_recast .normal
  | ifElse hcondition hwhenTrue hwhenFalse =>
    apply Similar.bind (similar_value_recast le_rfl hcondition.bare)
    intro later hle decision decision' hdecision
    rw [hdecision.indistinct.isTruthy_eq]
    cases decision'.isTruthy with
    | true => exact similar_continue_recast hle hwhenTrue
    | false => exact similar_continue_recast hle hwhenFalse
  | print hvalue =>
    apply Similar.bind (similar_value_recast le_rfl hvalue.bare)
    intro later hle printed printed' hprinted
    rw [hprinted.indistinct.display_eq]
    exact hmodify fun _ _ hstates => hstates.print _
  | returnNil =>
    apply Similar.bind similar_callDepth_recast
    rintro later hle depth _ rfl
    split
    · exact similar_fault_recast (hsetting.faults _)
    · exact similar_completion_recast (.returned .nil)
  | returnValue hvalue =>
    apply Similar.bind similar_callDepth_recast
    rintro later hle depth _ rfl
    split
    · exact similar_fault_recast (hsetting.faults _)
    · apply Similar.bind (similar_value_recast hle hvalue.bare)
      intro further hle' returned returned' hreturned
      exact similar_completion_recast (.returned hreturned)
  | varNil hmark => exact hmodify fun _ _ hstates => hstates.define hmark _ .nil
  | varValue hmark hvalue =>
    apply Similar.bind (similar_value_recast le_rfl hvalue.bare)
    intro later hle start start' hstart
    rw [← hle.2] at hmark
    exact hmodify fun _ _ hstates => hstates.define hmark _ hstart
  | «while» hcondition hbody =>
    apply Similar.bind (similar_value_recast le_rfl hcondition.bare)
    intro later hle decision decision' hdecision
    rw [hdecision.indistinct.isTruthy_eq]
    split
    · apply Similar.bind (similar_statement_recast hle hbody)
      intro further hle' completion completion' hcompletion
      cases hcompletion with
      | normal => exact similar_continue_recast (hle.trans hle') (.while hcondition hbody)
      | returned hvalue => exact similar_completion_recast (.returned hvalue)
    · exact similar_completion_recast .normal

/-- Code that is recast does what the code does that it comes from. -/
theorem similar_executeBare {code code' : Code} (h : code.Recast r markings.scopes code') :
    (recast r).Similar markings (fun markings => ResultsRecast r markings.frames code code')
      (executeBare setting code) (executeBare setting' code') := by
  cases h with
  | expression h => exact similar_evaluate_recast hsetting h
  | statement h => exact similar_executeStatement_recast hsetting h
  | arguments h =>
    cases h with
    | nil => exact similar_pure List.Forall₂.nil
    | cons h hs =>
      apply Similar.bind (similar_value_recast le_rfl h.bare)
      intro later hle first first' hfirst
      apply Similar.bind (similar_arguments_recast hle hs)
      intro further hle' others others' hothers
      exact similar_pure (List.Forall₂.cons (hfirst.mono (.refl r) hle'.1) hothers)
  | body h =>
    cases h with
    | nil => exact similar_completion_recast .normal
    | cons h hs =>
      apply Similar.bind (similar_statement_recast le_rfl h)
      intro later hle completion completion' hcompletion
      cases hcompletion with
      | normal => exact similar_jump_recast hle (.body hs)
      | returned hvalue => exact similar_completion_recast (.returned hvalue)

/-- Steps that go side by side without parentheses end alike with them. -/
theorem endsAlike_of_similar {α α' : Type} {values : Markings → α → α' → Prop}
    {step : Step α} {step' : Step α'}
    (h : (recast r).Similar markings values step step') :
    (recast r).EndsAlike (execute setting) (execute setting') markings values step
      step' := by
  intro state state' hstates
  have halike := h.endsAlike (fun w p p' hcode => similar_executeBare hsetting hcode) state
    state' hstates
  constructor
  · intro outcome hends
    obtain ⟨outcome', hends', houtcome⟩ := halike.forth outcome (ends_executeBare_iff.2 hends)
    exact ⟨outcome', ends_executeBare_iff.1 hends', houtcome⟩
  · intro outcome' hends'
    obtain ⟨outcome, hends, houtcome⟩ := halike.back outcome' (ends_executeBare_iff.2 hends')
    exact ⟨outcome, ends_executeBare_iff.1 hends, houtcome⟩

end Steps

end Code

end Lox
