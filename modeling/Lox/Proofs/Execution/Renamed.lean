/-
# Executions under a renaming

Code in which a local variable is renamed does what the code that it comes from does. Frames are
marked like the scopes that they come from: in a marked frame, the variable with the new name is
what the one with the old name is on the other side. Each access finds the same frame on both sides,
since its depth is the same, and there the variable that it stands for; and what is not found by
depth is global, where nothing is renamed. While a program is executed, frames come to exist and are
marked, so this is a correspondence in which more and more corresponds
(`Code.similar_execute_renamed`).
-/

import Lox.Proofs.CallTree.Developing
import Lox.Proofs.Execution.Growth
import Lox.Proofs.Value.Renamed

namespace Lox

/-- Which frames and which scopes are marked at a moment of an execution. -/
structure Markings where
  /-- The marks of all frames there are. -/
  frames : List Bool
  /-- The marks of the scopes around, the innermost first. -/
  scopes : List Bool

namespace Markings

/-- Later there may be more frames, and in the same code the same scopes are around. -/
instance : Preorder Markings where
  le markings later := markings.frames <+: later.frames ∧ later.scopes = markings.scopes
  le_refl markings := ⟨List.prefix_refl _, rfl⟩
  le_trans _ _ _ h h' := ⟨h.1.trans h'.1, h'.2.trans h.2⟩

/-- The markings when code begins in a new frame, inside scopes with some marks. -/
def enter (markings : Markings) (mark : Bool) (marks : List Bool) : Markings :=
  ⟨markings.frames ++ [mark], mark :: marks⟩

end Markings

section Relations

variable (reach : AccessId → AccessId → Option Nat → Prop) (ρ : Respelling)

/-- Two stores with the same frames. A variable of a frame on one side is that with the name written
for it on the other. -/
structure Store.Renamed (flags : List Bool) (store store' : Store) : Prop where
  size : store.frames.size = flags.length
  size' : store'.frames.size = flags.length
  functions : store.functions = store'.functions
  globals : flags[globalFrame]? = some false
  find : ∀ frame mark, flags[frame]? = some mark → ∀ name, (mark = true → name ≠ ρ.new) →
    Option.Rel (Value.Renamed reach ρ flags) (store.find? frame name)
      (store'.find? frame (ρ.spell mark name))

/-- Two states that differ at most in the names of variables. -/
structure State.Renamed (markings : Markings) (state state' : State) : Prop where
  store : state.store.Renamed reach ρ markings.frames state'.store
  environment : state.environment = state'.environment
  marked : state.environment.Marked markings.frames markings.scopes
  callDepth : state.callDepth = state'.callDepth
  clockReadings : state.clockReadings = state'.clockReadings
  output : state.output = state'.output

/-- Two statements ended in the same way. -/
inductive Completion.Renamed (flags : List Bool) : Completion → Completion → Prop
  | normal : Completion.Renamed flags .normal .normal
  | returned {value value' : Value} (h : value.Renamed reach ρ flags value') :
      Completion.Renamed flags (.returned value) (.returned value')

/-- What two accesses found: the same frame, and there the variable that is renamed if the frame is
marked. -/
structure Store.FoundRenamed (flags : List Bool) (name name' : Token)
    (found found' : FrameId × Value) : Prop where
  frame : found.1 = found'.1
  value : found.2.Renamed reach ρ flags found'.2
  name : ∃ mark, flags[found.1]? = some mark ∧ name.Renamed ρ mark name'

/-- Two settings in which variables are found by depth, and accesses that correspond have the depth
that is said of them. -/
structure Setting.Reaches (setting setting' : Setting) : Prop where
  resolver : setting.config.useResolver = true
  config : setting.config = setting'.config
  host : setting.host = setting'.host
  depths : ∀ id id' depth, reach id id' depth →
    setting.depths[id]? = depth ∧ setting'.depths[id']? = depth

/-- Two pieces of code of one sort that differ at most in the names of variables, in scopes with
some marks. -/
inductive Code.Renamed (marks : List Bool) : Code → Code → Prop
  | expression {p : Place} {e e' : Expr} (h : e.Renamed (.dynamic reach ρ) p marks e') :
      Code.Renamed marks (.expression e) (.expression e')
  | arguments {p : Place} {es es' : List Expr}
      (h : Expr.AllRenamed (.dynamic reach ρ) p marks es es') :
      Code.Renamed marks (.arguments es) (.arguments es')
  | statement {p : Place} {s s' : Stmt} (h : s.Renamed (.dynamic reach ρ) p marks s') :
      Code.Renamed marks (.statement s) (.statement s')
  | body {p : Place} {ss ss' : List Stmt} (h : Stmt.AllRenamed (.dynamic reach ρ) p marks ss ss') :
      Code.Renamed marks (.body ss) (.body ss')

/-- Two pieces of code are of one sort and end with what corresponds. -/
def Code.ResultsRenamed (flags : List Bool) : (code code' : Code) → code.Result → code'.Result →
    Prop
  | .expression _, .expression _ => Value.Renamed reach ρ flags
  | .arguments _, .arguments _ => List.Forall₂ (Value.Renamed reach ρ flags)
  | .statement _, .statement _ => Completion.Renamed reach ρ flags
  | .body _, .body _ => Completion.Renamed reach ρ flags
  | _, _ => fun _ _ => False

end Relations

variable {reach reach' : AccessId → AccessId → Option Nat → Prop} {ρ : Respelling}
  {flags : List Bool} {markings later : Markings}

/-! ## Stores -/

/-- Of the global frame, which is never marked, no scope is known. -/
theorem Environment.Marked.globals (h : flags[Store.globalFrame]? = some false) :
    Environment.Marked flags Store.globals [] := by
  intro depth frame hframe
  cases depth with
  | zero =>
    cases hframe
    exact h
  | succ depth => cases hframe

namespace Store.Renamed

variable {store store' : Store} (h : store.Renamed reach ρ flags store')
include h

theorem insert {frame : FrameId} {mark : Bool} (hmark : flags[frame]? = some mark)
    {name name' : Token} (hname : name.Renamed ρ mark name') {value value' : Value}
    (hvalue : value.Renamed reach ρ flags value') :
    (store.insert frame name.lexeme value).Renamed reach ρ flags
      (store'.insert frame name'.lexeme value') := by
  refine ⟨size_insert.trans h.size, size_insert.trans h.size', h.functions, h.globals, ?_⟩
  intro other mark' hmark' other' hother
  have hsame : other = frame → (ρ.spell mark' other' = name'.lexeme ↔ other' = name.lexeme) := by
    rintro rfl
    cases hmark.symm.trans hmark'
    rw [hname.lexeme]
    exact ⟨ρ.eq_of_spell_eq hother hname.fresh, congrArg _⟩
  rw [find?_insert, find?_insert, h.size, h.size']
  by_cases hinserted : other = frame ∧ other' = name.lexeme ∧ frame < flags.length
  · rw [if_pos hinserted,
      if_pos ⟨hinserted.1, (hsame hinserted.1).2 hinserted.2.1, hinserted.2.2⟩]
    exact .some hvalue
  · rw [if_neg hinserted, if_neg fun h' => hinserted ⟨h'.1, (hsame h'.1).1 h'.2.1, h'.2.2⟩]
    exact h.find other mark' hmark' other' hother

theorem define {environment : Environment} {marks : List Bool}
    (henvironment : environment.Marked flags marks) {name name' : Token}
    (hname : name.Renamed ρ (marks.headD false) name') {value value' : Value}
    (hvalue : value.Renamed reach ρ flags value') :
    (store.define environment name.lexeme value).Renamed reach ρ flags
      (store'.define environment name'.lexeme value') := by
  cases environment with
  | nil => exact h
  | cons frame environment =>
    have hmark := henvironment 0 frame rfl
    rw [markAt_zero] at hmark
    exact h.insert hmark hname hvalue

theorem child (environment : Environment) (mark : Bool) :
    (store.child environment).2.Renamed reach ρ (flags ++ [mark]) (store'.child environment).2 := by
  have hlength : (flags ++ [mark]).length = flags.length + 1 := List.length_append
  refine ⟨?_, ?_, h.functions, ?_, fun frame mark' hmark' name hname => ?_⟩
  · rw [hlength, ← h.size]
    exact Array.size_push _
  · rw [hlength, ← h.size']
    exact Array.size_push _
  · have hglobals := h.globals
    rw [List.getElem?_append_left (List.getElem?_eq_some_iff.1 hglobals).1, hglobals]
  · rw [find?_child, find?_child]
    rcases Nat.lt_or_ge frame flags.length with hframe | hframe
    · rw [List.getElem?_append_left hframe] at hmark'
      have hfind := h.find frame mark' hmark' name hname
      generalize store.find? frame name = found at hfind ⊢
      generalize store'.find? frame (ρ.spell mark' name) = found' at hfind ⊢
      cases hfind with
      | none => exact .none
      | some hvalue => exact .some (hvalue.mono (fun _ _ _ h => h) (List.prefix_append _ _))
    · have hnone : ∀ {store : Store} (name : String), store.frames.size = flags.length →
          store.find? frame name = none := by
        intro store name hsize
        unfold find?
        rw [Array.getElem?_eq_none (hsize ▸ hframe)]
        rfl
      rw [hnone name h.size, hnone _ h.size']
      exact .none

theorem newFunction {called called' : Callable} (hcalled : called.Renamed reach ρ flags called') :
    (store.newFunction called).1.Renamed reach ρ flags (store'.newFunction called').1 ∧
      (store.newFunction called).2.Renamed reach ρ flags (store'.newFunction called').2 := by
  refine ⟨?_, h.size, h.size', congrArg (· + 1) h.functions, h.globals, h.find⟩
  unfold Store.newFunction
  rw [h.functions]
  exact .callable hcalled

/-- A variable that is not in a local scope is found under its own name, or missed. -/
theorem lookup_globals (name : Token) :
    ResultAlike (Fault.Renamed ρ) (FoundRenamed reach ρ flags name name)
      (store.lookup Store.globals name) (store'.lookup Store.globals name) := by
  have hname : name.Renamed ρ false name := ⟨nofun, Token.respelled_false.symm⟩
  have hfind := h.find globalFrame false h.globals name.lexeme nofun
  rw [ρ.spell_false] at hfind
  unfold Store.lookup Store.globals
  rw [List.findSome?_singleton, List.findSome?_singleton]
  generalize store.find? globalFrame name.lexeme = found at hfind ⊢
  generalize store'.find? globalFrame name.lexeme = found' at hfind ⊢
  cases hfind with
  | none => exact .error (.inl rfl)
  | some hvalue => exact .ok ⟨rfl, hvalue, false, h.globals, hname⟩

/-- A variable is found at its depth under the name that is written for it there, or missed. -/
theorem lookupAt {environment : Environment} {marks : List Bool}
    (henvironment : environment.Marked flags marks) (depth : Nat) {name name' : Token}
    (hname : name.Renamed ρ (markAt marks (some depth)) name') :
    ResultAlike (Fault.Renamed ρ) (FoundRenamed reach ρ flags name name')
      (store.lookupAt environment depth name) (store'.lookupAt environment depth name') := by
  unfold Store.lookupAt
  cases hdrop : environment.drop depth with
  | nil =>
    exact .error (Fault.renamed_of_token hname
      (fun name => .internal (.pastOutermostFrame depth name.lexeme)) rfl)
  | cons frame outer =>
    have hframe : environment[depth]? = some frame := by
      rw [← List.head?_drop, hdrop]
      rfl
    have hmark := henvironment depth frame hframe
    have hfind := h.find frame _ hmark name.lexeme hname.fresh
    rw [← hname.lexeme] at hfind
    dsimp only
    generalize store.find? frame name.lexeme = found at hfind ⊢
    generalize store'.find? frame name'.lexeme = found' at hfind ⊢
    cases hfind with
    | none =>
      exact .error (Fault.renamed_of_token hname
        (fun name => .internal (.missingVariable depth name.lexeme)) rfl)
    | some hvalue => exact .ok ⟨rfl, hvalue, _, hmark, hname⟩

/-- Stores go on to correspond when more accesses are known to find the same variable. -/
theorem mono (himp : ∀ id id' depth, reach id id' depth → reach' id id' depth) :
    store.Renamed reach' ρ flags store' := by
  refine ⟨h.size, h.size', h.functions, h.globals, fun frame mark hmark name hname => ?_⟩
  have hfind := h.find frame mark hmark name hname
  generalize store.find? frame name = found at hfind ⊢
  generalize store'.find? frame (ρ.spell mark name) = found' at hfind ⊢
  cases hfind with
  | none => exact .none
  | some hvalue => exact .some (hvalue.mono himp (List.prefix_refl _))

end Store.Renamed

/-! ## States -/

/-- A new frame is put in front of those that can be seen. -/
theorem Environment.Marked.enter {environment : Environment} {marks : List Bool}
    (h : environment.Marked flags marks) (mark : Bool) :
    Environment.Marked (flags ++ [mark]) (flags.length :: environment) (mark :: marks) := by
  intro depth frame hframe
  cases depth with
  | zero =>
    cases hframe
    rw [markAt_zero, List.getElem?_concat_length]
    rfl
  | succ depth => exact h.mono (List.prefix_append _ _) depth frame hframe

namespace State.Renamed

variable {state state' : State} (h : state.Renamed reach ρ markings state')
include h

theorem print (line : String) :
    (state.print line).Renamed reach ρ markings (state'.print line) :=
  ⟨h.store, h.environment, h.marked, h.callDepth, h.clockReadings,
    congrArg (fun output => (output ++ line).push '\n') h.output⟩

theorem define {name name' : Token} (hname : name.Renamed ρ (markings.scopes.headD false) name')
    {value value' : Value} (hvalue : value.Renamed reach ρ markings.frames value') :
    (state.define name.lexeme value).Renamed reach ρ markings
    (state'.define name'.lexeme value') := by
  refine ⟨?_, h.environment, h.marked, h.callDepth, h.clockReadings, h.output⟩
  unfold State.define
  rw [← h.environment]
  exact h.store.define h.marked hname hvalue

theorem declare {declaration declaration' : FunctionDecl}
    (hdeclaration : declaration.Renamed reach ρ markings.scopes declaration')
    (hname : declaration.name.Renamed ρ (markings.scopes.headD false) declaration'.name) :
    (state.declare declaration).Renamed reach ρ markings (state'.declare declaration') := by
  refine ⟨?_, h.environment, h.marked, h.callDepth, h.clockReadings, h.output⟩
  have hfunction := h.store.newFunction (.function h.marked hdeclaration)
  unfold State.declare
  rw [← h.environment]
  exact hfunction.2.define h.marked hname hfunction.1

theorem enter {outer : Environment} {marks : List Bool}
    (houter : outer.Marked markings.frames marks)
    (mark : Bool) :
    (state.enter outer).Renamed reach ρ (markings.enter mark marks) (state'.enter outer) := by
  have hsize : (state.enter outer).environment = markings.frames.length :: outer :=
    congrArg (· :: outer) h.store.size
  have hsize' : (state'.enter outer).environment = markings.frames.length :: outer :=
    congrArg (· :: outer) h.store.size'
  refine ⟨h.store.child outer mark, hsize.trans hsize'.symm, ?_, h.callDepth, h.clockReadings,
    h.output⟩
  rw [hsize]
  exact houter.enter mark

theorem openCall {outer : Environment} {marks : List Bool}
    (houter : outer.Marked markings.frames marks) (mark : Bool) :
    (state.openCall outer).Renamed reach ρ (markings.enter mark marks) (state'.openCall outer) := by
  have henter := h.enter houter mark
  exact ⟨henter.store, henter.environment, henter.marked, congrArg (· + 1) h.callDepth,
    h.clockReadings, h.output⟩

omit h in
theorem foldl_define {parameters parameters' : List Token} {passed passed' : List Value}
    (hparameters :
      List.Forall₂ (Token.Renamed ρ (markings.scopes.headD false)) parameters parameters')
    (hpassed : List.Forall₂ (Value.Renamed reach ρ markings.frames) passed passed')
    {state state' : State} (h : state.Renamed reach ρ markings state') :
    ((parameters.zip passed).foldl
      (fun state argument => state.define argument.1.lexeme argument.2) state).Renamed reach ρ
        markings
      ((parameters'.zip passed').foldl
        (fun state argument => state.define argument.1.lexeme argument.2) state') := by
  induction hparameters generalizing passed passed' state state' with
  | nil => exact h
  | cons hparameter _ ih =>
    cases hpassed with
    | nil => exact h
    | cons hvalue hpassed => exact ih hpassed (h.define hparameter hvalue)

theorem beginCall {outer : Environment} {marks : List Bool}
    (houter : outer.Marked markings.frames marks) {mark : Bool}
    {parameters parameters' : List Token}
    (hparameters : List.Forall₂ (Token.Renamed ρ mark) parameters parameters')
    {passed passed' : List Value}
    (hpassed : List.Forall₂ (Value.Renamed reach ρ markings.frames) passed passed') :
    (state.beginCall outer (parameters.zip passed)).Renamed reach ρ (markings.enter mark marks)
      (state'.beginCall outer (parameters'.zip passed')) := by
  rw [beginCall_eq, beginCall_eq]
  exact foldl_define hparameters
    (hpassed.imp fun _ _ hvalue => hvalue.mono (fun _ _ _ h => h) (List.prefix_append _ _))
    (h.openCall houter mark)

theorem endCall : state.endCall.Renamed reach ρ markings state'.endCall :=
  ⟨h.store, h.environment, h.marked, congrArg (· - 1) h.callDepth, h.clockReadings, h.output⟩

/-- What could be seen at one time is put back at another, when there may be more frames. -/
theorem restore {reached reached' : State} (hflags : markings.frames <+: later.frames)
    (hreached : reached.Renamed reach ρ later reached') :
    State.Renamed reach ρ ⟨later.frames, markings.scopes⟩
      { reached with environment := state.environment }
      { reached' with environment := state'.environment } :=
  ⟨hreached.store, h.environment, h.marked.mono hflags, hreached.callDepth, hreached.clockReadings,
    hreached.output⟩

/-- Outside all scopes only global variables can be seen. -/
theorem settle : state.settle.Renamed reach ρ ⟨markings.frames, []⟩ state'.settle :=
  ⟨h.store, rfl, .globals h.store.globals, rfl, h.clockReadings, h.output⟩

theorem mono (himp : ∀ id id' depth, reach id id' depth → reach' id id' depth) :
    state.Renamed reach' ρ markings state' :=
  ⟨h.store.mono himp, h.environment, h.marked, h.callDepth, h.clockReadings, h.output⟩

/-- An access finds the variable that it stands for. -/
theorem lookup {setting setting' : Setting} (hsetting : setting.Reaches reach setting') {p : Place}
    {id id' : AccessId} {name name' : Token}
    (hname : (Renaming.dynamic reach ρ).accesses p markings.scopes id name id' name') :
    ResultAlike (Fault.Renamed ρ) (Store.FoundRenamed reach ρ markings.frames name name')
      (state.lookup setting id name) (state'.lookup setting' id' name') := by
  obtain ⟨depth, hreach, hname⟩ := hname
  obtain ⟨hdepth, hdepth'⟩ := hsetting.depths id id' depth hreach
  unfold State.lookup
  rw [← hsetting.config, if_pos hsetting.resolver, if_pos hsetting.resolver, hdepth, hdepth',
    ← h.environment]
  cases depth with
  | some depth => exact h.store.lookupAt h.marked depth hname
  | none =>
    obtain rfl : name' = name := hname.eq.trans Token.respelled_false
    exact h.store.lookup_globals name'

end State.Renamed

/-! ## Code -/

namespace Code

/-- How executions correspond in one of which a variable is renamed. -/
def renamed (reach : AccessId → AccessId → Option Nat → Prop) (ρ : Respelling) :
    Routine.Development Markings State Fault Result where
  procedures markings := Code.Renamed reach ρ markings.scopes
  results markings := ResultsRenamed reach ρ markings.frames
  states := State.Renamed reach ρ
  problems := Fault.Renamed ρ

open Routine.Development hiding similar_call similar_jump

theorem similar_call_renamed (hle : markings ≤ later) {code code' : Code}
    (h : code.Renamed reach ρ markings.scopes code') :
    (renamed reach ρ).Similar later
    (fun markings => ResultsRenamed reach ρ markings.frames code code')
      (Routine.call code : Step code.Result) (Routine.call code') := by
  rw [← hle.2] at h
  have hcode : (renamed reach ρ).procedures later code code' := h
  exact Routine.Development.similar_call hcode

theorem similar_jump_renamed (hle : markings ≤ later) {code code' : Code}
    (h : code.Renamed reach ρ markings.scopes code') :
    (renamed reach ρ).Similar later
    (fun markings => ResultsRenamed reach ρ markings.frames code code')
      (Routine.jump code : Step code.Result) (Routine.jump code') := by
  rw [← hle.2] at h
  have hcode : (renamed reach ρ).procedures later code code' := h
  exact Routine.Development.similar_jump hcode

section Calls

variable (hle : markings ≤ later) {p : Place}
include hle

theorem similar_value_renamed {e e' : Expr}
    (h : e.Renamed (.dynamic reach ρ) p markings.scopes e') :
    (renamed reach ρ).Similar later (fun markings => Value.Renamed reach ρ markings.frames)
    (value e)
      (value e') :=
  similar_call_renamed hle (.expression h)

theorem similar_arguments_renamed {es es' : List Expr}
    (h : Expr.AllRenamed (.dynamic reach ρ) p markings.scopes es es') :
    (renamed reach ρ).Similar later
      (fun markings => List.Forall₂ (Value.Renamed reach ρ markings.frames))
      (Routine.call (arguments es) : Step (List Value)) (Routine.call (arguments es')) :=
  similar_call_renamed hle (.arguments h)

theorem similar_statement_renamed {s s' : Stmt}
    (h : s.Renamed (.dynamic reach ρ) p markings.scopes s') :
    (renamed reach ρ).Similar later (fun markings => Completion.Renamed reach ρ markings.frames)
      (Routine.call (statement s) : Step Completion) (Routine.call (statement s')) :=
  similar_call_renamed hle (.statement h)

theorem similar_body_renamed {ss ss' : List Stmt}
    (h : Stmt.AllRenamed (.dynamic reach ρ) p markings.scopes ss ss') :
    (renamed reach ρ).Similar later (fun markings => Completion.Renamed reach ρ markings.frames)
      (Routine.call (body ss) : Step Completion) (Routine.call (body ss')) :=
  similar_call_renamed hle (.body h)

/-- An expression in the place of the one that is executed. -/
theorem similar_expression_renamed {e e' : Expr}
    (h : e.Renamed (.dynamic reach ρ) p markings.scopes e') :
    (renamed reach ρ).Similar later (fun markings => Value.Renamed reach ρ markings.frames)
      (Routine.jump (expression e) : Step Value) (Routine.jump (expression e')) :=
  similar_jump_renamed hle (.expression h)

/-- A statement in the place of the one that is executed. -/
theorem similar_continue_renamed {s s' : Stmt}
    (h : s.Renamed (.dynamic reach ρ) p markings.scopes s') :
    (renamed reach ρ).Similar later (fun markings => Completion.Renamed reach ρ markings.frames)
      (Routine.jump (statement s) : Step Completion) (Routine.jump (statement s')) :=
  similar_jump_renamed hle (.statement h)

end Calls

theorem similar_completion_renamed {completion completion' : Completion}
    (h : completion.Renamed reach ρ markings.frames completion') :
    (renamed reach ρ).Similar markings (fun markings => Completion.Renamed reach ρ markings.frames)
      (pure completion : Step Completion) (pure completion') :=
  similar_pure h

theorem similar_fault_renamed {α α' : Type} {values : Markings → α → α' → Prop}
    {fault fault' : Fault} (h : fault.Renamed ρ fault') :
    (renamed reach ρ).Similar markings values (Routine.fail fault : Step α)
      (Routine.fail fault' : Step α') :=
  similar_fail h

theorem similar_callDepth_renamed :
    (renamed reach ρ).Similar markings (fun _ => Eq) (Routine.gets State.callDepth : Step Nat)
      (Routine.gets State.callDepth) :=
  similar_gets fun _ _ h => State.Renamed.callDepth h

/-- Code in a new frame begins with the frame marked as its scope is, and when it has ended the
scopes around are those of before. -/
theorem similar_enclosed_renamed {mark : Bool} {marks : List Bool}
    {enter enter' leave : State → State} {inner inner' : Step Completion}
    (h : (renamed reach ρ).Similar (markings.enter mark marks)
      (fun markings => Completion.Renamed reach ρ markings.frames) inner inner')
    (henter : ∀ state state' : State, state.Renamed reach ρ markings state' →
      (enter state).Renamed reach ρ (markings.enter mark marks) (enter' state'))
    (hleave : ∀ (markings : Markings) (state state' : State),
      state.Renamed reach ρ markings state' →
      (leave state).Renamed reach ρ markings (leave state')) :
    (renamed reach ρ).Similar markings (fun markings => Completion.Renamed reach ρ markings.frames)
      (enclosed enter leave inner) (enclosed enter' leave inner') := by
  apply similar_within h henter
  intro state state' later reached reached' hstates hlater hreached
  have hflags : markings.frames <+: later.frames := (List.prefix_append _ _).trans hlater.1
  refine ⟨⟨later.frames, markings.scopes⟩, ⟨hflags, rfl⟩, ?_, fun _ _ hvalues => hvalues⟩
  exact hleave _ _ _ (State.Renamed.restore hstates hflags hreached)

/-- Nothing comes of how a caller is called but the name that a fault is reported at. -/
theorem invoked_renamed {mark : Bool} {caller caller' : Token}
    (hcaller : caller.Renamed ρ mark caller')
    (builtin : Builtin) {passed passed' : List Value}
    (h : List.Forall₂ (Value.Renamed reach ρ flags) passed passed') (time : Int64) :
    ResultAlike (Fault.Renamed ρ) (Value.Renamed reach ρ flags)
      (invoked caller builtin passed time) (invoked caller' builtin passed' time) := by
  have hdata := builtin.yieldsData_invoke time passed'
  unfold invoked
  rw [builtin.invoke_eq_of_indistinct time (h.imp fun _ _ hvalue => hvalue.indistinct)]
  generalize builtin.invoke time passed' = result at hdata
  cases result with
  | ok value => exact .ok (.data (hdata value rfl))
  | error failure =>
    exact .error (Fault.renamed_of_token hcaller (fun _ => .builtin builtin.name failure) rfl)

theorem calledName_renamed {p : Place} {marks : List Bool} {callee callee' : Expr}
    (h : callee.Renamed (.dynamic reach ρ) p marks callee') {called called' : Callable}
    (hcalled : called.Renamed reach ρ flags called') (line : Nat) :
    ∃ mark, Token.Renamed ρ mark (.identifier (calledName callee called) line)
      (.identifier (calledName callee' called') line) := by
  have hname := hcalled.name_eq
  cases h with
  | read h =>
    obtain ⟨depth, -, hread⟩ := h
    exact ⟨_, hread.fresh, congrArg (Token.identifier · line) hread.lexeme⟩
  | _ => exact ⟨false, nofun, (congrArg (Token.identifier · line) hname.symm).trans
      Token.respelled_false.symm⟩

section Steps

variable {setting setting' : Setting} (hsetting : setting.Reaches reach setting')
include hsetting

theorem similar_now_renamed :
    (renamed reach ρ).Similar markings (fun _ => Eq) (now setting) (now setting') := by
  apply similar_step
  intro state state' h
  have hreadings : state.clockReadings = state'.clockReadings := State.Renamed.clockReadings h
  rw [← hsetting.host, ← hreadings]
  have hnext : State.Renamed reach ρ markings
      { state with clockReadings := state.clockReadings + 1 }
      { state' with clockReadings := state.clockReadings + 1 } :=
    ⟨h.store, h.environment, h.marked, h.callDepth, rfl, h.output⟩
  exact .ok le_rfl rfl hnext

theorem similar_get_renamed {p : Place} {id id' : AccessId} {name name' : Token}
    (hname : (Renaming.dynamic reach ρ).accesses p markings.scopes id name id' name') :
    (renamed reach ρ).Similar markings (fun markings => Value.Renamed reach ρ markings.frames)
      (Routine.step (State.get setting id name) : Step Value)
      (Routine.step (State.get setting' id' name')) := by
  apply similar_step
  intro state state' hstates
  have hlookup := State.Renamed.lookup hstates hsetting hname
  unfold State.get
  generalize state.lookup setting id name = found at hlookup ⊢
  generalize state'.lookup setting' id' name' = found' at hlookup ⊢
  cases hlookup with
  | ok h => exact .ok le_rfl h.value hstates
  | error h => exact .error le_rfl h hstates

theorem similar_assign_renamed (hle : markings ≤ later) {p : Place} {id id' : AccessId}
    {name name' : Token}
    (hname : (Renaming.dynamic reach ρ).accesses p markings.scopes id name id' name')
    {value value' : Value} (hvalue : value.Renamed reach ρ later.frames value') :
    (renamed reach ρ).Similar later (fun markings => Value.Renamed reach ρ markings.frames)
      (Routine.step (State.assign setting id name value) : Step Value)
      (Routine.step (State.assign setting' id' name' value')) := by
  rw [← hle.2] at hname
  apply similar_step
  intro state state' hstates
  have hlookup := State.Renamed.lookup hstates hsetting hname
  unfold State.assign
  generalize state.lookup setting id name = found at hlookup ⊢
  generalize state'.lookup setting' id' name' = found' at hlookup ⊢
  cases hlookup with
  | error h => exact .error le_rfl h hstates
  | @ok found found' h =>
    obtain ⟨frame, old⟩ := found
    obtain ⟨frame', old'⟩ := found'
    obtain ⟨rfl, -, mark, hmark, hname⟩ := h
    have hassigned : State.Renamed reach ρ later
        { state with store := state.store.insert frame name.lexeme value }
        { state' with store := state'.store.insert frame name'.lexeme value' } :=
      ⟨hstates.store.insert hmark hname hvalue, hstates.environment, hstates.marked,
        hstates.callDepth, hstates.clockReadings, hstates.output⟩
    exact .ok le_rfl hvalue hassigned

theorem similar_perform_renamed {mark : Bool} {caller caller' : Token}
    (hcaller : caller.Renamed ρ mark caller') {called called' : Callable}
    (hcalled : called.Renamed reach ρ markings.frames called') {passed passed' : List Value}
    (hpassed : List.Forall₂ (Value.Renamed reach ρ markings.frames) passed passed') :
    (renamed reach ρ).Similar markings (fun markings => Value.Renamed reach ρ markings.frames)
      (perform setting caller called passed) (perform setting' caller' called' passed') := by
  cases hcalled with
  | @function _ _ closure marks hclosure h =>
    cases h with
    | @intro mark p name parameters parameters' body body' hparameters hbody =>
      unfold perform
      apply Similar.bind
      · exact similar_enclosed_renamed
          (similar_body_renamed (@le_rfl _ _ (markings.enter mark marks)) hbody)
          (fun _ _ hstates => hstates.beginCall hclosure hparameters hpassed)
          fun _ _ _ hstates => hstates.endCall
      · intro later hle completion completion' hcompletion
        cases hcompletion with
        | normal => exact similar_pure .nil
        | returned hvalue => exact similar_pure hvalue
  | builtin =>
    rw [perform_builtin, perform_builtin]
    split
    · apply Similar.bind (similar_now_renamed hsetting)
      rintro later hle time _ rfl
      exact similar_ofExcept (invoked_renamed hcaller _
        (hpassed.imp fun _ _ hvalue => hvalue.mono (fun _ _ _ h => h) hle.1) time)
    · exact similar_ofExcept (invoked_renamed hcaller _ hpassed 0)

theorem similar_evaluateCall_renamed {p : Place} {callee callee' : Expr}
    (hcallee : callee.Renamed (.dynamic reach ρ) p markings.scopes callee') (paren : Token)
    {es es' : List Expr} (hes : Expr.AllRenamed (.dynamic reach ρ) p markings.scopes es es') :
    (renamed reach ρ).Similar markings (fun markings => Value.Renamed reach ρ markings.frames)
      (evaluateCall setting callee paren es) (evaluateCall setting' callee' paren es') := by
  apply Similar.bind (similar_value_renamed le_rfl hcallee)
  intro later hle function function' hfunction
  cases hfunction with
  | @data function hdata =>
    cases function with
    | callable _ _ => exact absurd rfl hdata
    | _ => exact similar_fault_renamed (.inl rfl)
  | callable hcalled =>
    apply Similar.bind (similar_arguments_renamed hle hes)
    intro further hle' passed passed' hpassed
    apply Similar.bind similar_callDepth_renamed
    rintro last hle'' depth _ rfl
    replace hcalled := hcalled.mono (fun _ _ _ h => h) (hle'.trans hle'').1
    replace hpassed := hpassed.imp fun _ _ hvalue => hvalue.mono (fun _ _ _ h => h) hle''.1
    obtain ⟨mark, hcaller⟩ := calledName_renamed hcallee hcalled paren.line
    rw [hpassed.length_eq, hcalled.arity_eq, hcalled.name_eq, ← hsetting.config]
    split
    · exact similar_fault_renamed (.inl rfl)
    · split
      · exact similar_fault_renamed (.inl rfl)
      · exact similar_perform_renamed hsetting hcaller hcalled hpassed

theorem similar_evaluate_renamed {p : Place} {e e' : Expr}
    (h : e.Renamed (.dynamic reach ρ) p markings.scopes e') :
    (renamed reach ρ).Similar markings (fun markings => Value.Renamed reach ρ markings.frames)
      (evaluate setting e) (evaluate setting' e') := by
  cases h with
  | literal => exact similar_pure (.data (Value.isData_ofConstant _))
  | read h => exact similar_get_renamed hsetting h
  | assign h hvalue =>
    apply Similar.bind (similar_value_renamed le_rfl hvalue)
    intro later hle assigned assigned' hassigned
    exact similar_assign_renamed hsetting hle h hassigned
  | @unary operator _ _ hoperand =>
    apply Similar.bind (similar_value_renamed le_rfl hoperand)
    intro later hle operand operand' hoperand
    rw [Operator.unary_eq_of_indistinct hoperand.indistinct]
    exact similar_ofExcept
      ((Operator.yieldsData_unary operator operand').resultAlike (fun _ => .data) fun _ => .inl rfl)
  | @binary _ _ _ _ operator hleft hright =>
    apply Similar.bind (similar_value_renamed le_rfl hleft)
    intro later hle left left' hleft
    apply Similar.bind (similar_value_renamed hle hright)
    intro further hle' right right' hright
    rw [Operator.binary_eq_of_indistinct hleft.indistinct hright.indistinct]
    exact similar_ofExcept
      ((Operator.yieldsData_binary operator left' right').resultAlike (fun _ => .data)
        fun _ => .inl rfl)
  | @logical _ _ right right' _ hleft hright =>
    apply Similar.bind (similar_value_renamed le_rfl hleft)
    intro later hle left left' hleft
    have hdecide : ∀ decided : Bool, (renamed reach ρ).Similar later
        (fun markings => Value.Renamed reach ρ markings.frames)
        (if decided then pure left else Routine.jump (expression right) : Step Value)
        (if decided then pure left' else Routine.jump (expression right')) := by
      intro decided
      split
      · exact similar_pure hleft
      · exact similar_expression_renamed hle hright
    rw [hleft.indistinct.isTruthy_eq]
    exact hdecide _
  | conditional hcondition hwhenTrue hwhenFalse =>
    apply Similar.bind (similar_value_renamed le_rfl hcondition)
    intro later hle decision decision' hdecision
    rw [hdecision.indistinct.isTruthy_eq]
    cases decision'.isTruthy with
    | true => exact similar_expression_renamed hle hwhenTrue
    | false => exact similar_expression_renamed hle hwhenFalse
  | call hcallee harguments => exact similar_evaluateCall_renamed hsetting hcallee _ harguments
  | group hinner => exact similar_expression_renamed le_rfl hinner
  | host hcode =>
    apply Similar.bind (similar_value_renamed le_rfl hcode)
    intro later hle code code' hcode
    have hdata := setting'.host.yieldsData_obey setting'.config.allowHost code'.display
    rw [hsetting.host, hsetting.config, hcode.indistinct.display_eq]
    generalize setting'.host.obey setting'.config.allowHost code'.display = answer at hdata
    cases answer with
    | ok answer => exact similar_pure (.data (hdata answer rfl))
    | error failure => exact similar_fault_renamed (.inl rfl)

omit hsetting in
theorem similar_executeStatement_renamed {p : Place} {s s' : Stmt}
    (h : s.Renamed (.dynamic reach ρ) p markings.scopes s') :
    (renamed reach ρ).Similar markings (fun markings => Completion.Renamed reach ρ markings.frames)
      (executeStatement s) (executeStatement s') := by
  have hmodify : ∀ {markings : Markings} {change change' : State → State},
      (∀ state state' : State, state.Renamed reach ρ markings state' →
        (change state).Renamed reach ρ markings (change' state')) →
      (renamed reach ρ).Similar markings
        (fun markings => Completion.Renamed reach ρ markings.frames)
        (Routine.modify change >>= fun _ => pure .normal : Step Completion)
        (Routine.modify change' >>= fun _ => pure .normal) := by
    intro markings change change' hchange
    have hstep : (renamed reach ρ).Similar markings (fun _ _ _ => True)
        (Routine.modify change : Step Unit) (Routine.modify change') := similar_modify hchange
    exact hstep.bind fun _ _ _ _ _ => similar_completion_renamed .normal
  cases h with
  | @block _ _ mark _ _ hbody =>
    exact similar_enclosed_renamed
      (similar_body_renamed (@le_rfl _ _ (markings.enter mark markings.scopes)) hbody)
      (fun state state' hstates => by
        rw [← hstates.environment]
        exact hstates.enter hstates.marked mark)
      fun _ _ _ hstates => hstates
  | expression hvalue =>
    exact Similar.bind (similar_value_renamed le_rfl hvalue)
      fun _ _ _ _ _ => similar_completion_renamed .normal
  | function hname hparameters hbody =>
    exact hmodify fun _ _ hstates => hstates.declare (.intro hparameters hbody) hname
  | ifThen hcondition hwhenTrue =>
    apply Similar.bind (similar_value_renamed le_rfl hcondition)
    intro later hle decision decision' hdecision
    rw [hdecision.indistinct.isTruthy_eq]
    split
    · exact similar_continue_renamed hle hwhenTrue
    · exact similar_completion_renamed .normal
  | ifElse hcondition hwhenTrue hwhenFalse =>
    apply Similar.bind (similar_value_renamed le_rfl hcondition)
    intro later hle decision decision' hdecision
    rw [hdecision.indistinct.isTruthy_eq]
    cases decision'.isTruthy with
    | true => exact similar_continue_renamed hle hwhenTrue
    | false => exact similar_continue_renamed hle hwhenFalse
  | print hvalue =>
    apply Similar.bind (similar_value_renamed le_rfl hvalue)
    intro later hle printed printed' hprinted
    rw [hprinted.indistinct.display_eq]
    exact hmodify fun _ _ hstates => hstates.print _
  | returnNil =>
    apply Similar.bind similar_callDepth_renamed
    rintro later hle depth _ rfl
    split
    · exact similar_fault_renamed (.inl rfl)
    · exact similar_completion_renamed (.returned .nil)
  | returnValue hvalue =>
    apply Similar.bind similar_callDepth_renamed
    rintro later hle depth _ rfl
    split
    · exact similar_fault_renamed (.inl rfl)
    · apply Similar.bind (similar_value_renamed hle hvalue)
      intro further hle' returned returned' hreturned
      exact similar_completion_renamed (.returned hreturned)
  | varNil hname =>
    exact hmodify fun _ _ hstates => hstates.define hname .nil
  | varValue hname hvalue =>
    apply Similar.bind (similar_value_renamed le_rfl hvalue)
    intro later hle start start' hstart
    rw [← hle.2] at hname
    exact hmodify fun _ _ hstates => hstates.define hname hstart
  | «while» hcondition hbody =>
    apply Similar.bind (similar_value_renamed le_rfl hcondition)
    intro later hle decision decision' hdecision
    rw [hdecision.indistinct.isTruthy_eq]
    split
    · apply Similar.bind (similar_statement_renamed hle hbody)
      intro further hle' completion completion' hcompletion
      cases hcompletion with
      | normal => exact similar_continue_renamed (hle.trans hle') (.while hcondition hbody)
      | returned hvalue => exact similar_completion_renamed (.returned hvalue)
    · exact similar_completion_renamed .normal

/-- Code in which a variable is renamed does what the code that it comes from does. -/
theorem similar_execute_renamed {code code' : Code}
    (h : code.Renamed reach ρ markings.scopes code') :
    (renamed reach ρ).Similar markings
      (fun markings => ResultsRenamed reach ρ markings.frames code code') (execute setting code)
      (execute setting' code') := by
  cases h with
  | expression h => exact similar_evaluate_renamed hsetting h
  | statement h => exact similar_executeStatement_renamed h
  | arguments h =>
    cases h with
    | nil => exact similar_pure List.Forall₂.nil
    | cons h hs =>
      apply Similar.bind (similar_value_renamed le_rfl h)
      intro later hle first first' hfirst
      apply Similar.bind (similar_arguments_renamed hle hs)
      intro further hle' others others' hothers
      exact similar_pure (List.Forall₂.cons (hfirst.mono (fun _ _ _ h => h) hle'.1) hothers)
  | body h =>
    cases h with
    | nil => exact similar_completion_renamed .normal
    | cons h hs =>
      apply Similar.bind (similar_statement_renamed le_rfl h)
      intro later hle completion completion' hcompletion
      cases hcompletion with
      | normal => exact similar_jump_renamed hle (.body hs)
      | returned hvalue => exact similar_completion_renamed (.returned hvalue)

end Steps

end Code

end Lox
