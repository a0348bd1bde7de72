/-
# Where accesses find their variables

With the resolver an access goes straight to the frame at its depth, or to that of the global
variables if it has no depth. At a moment the frame is there, and it has the variable, because the
scope that it belongs to declares the name before the access. There is one exception: a variable
counts as declared in its own initializer, and there its frame lacks it (`State.lookup_error`).

Without the resolver an access goes through the frames in sight until one has the variable. Both
ways lead to the same frame where the scope at the depth of the access is the innermost one that
declares the name at all (`Place.Corresponds.lookup_eq`).
-/

import Lox.Proofs.Execution.Additions
import Lox.Proofs.Session.Correspondence
import Lox.Proofs.Session.Depths
import Lox.Proofs.Store.Laws

namespace Lox

/-! ## The innermost frame -/

/-- The initializer of a variable comes first. -/
theorem Run.makes_var {run : Run} {name : Token} {e : Expr} {state : State} {made : Code × State}
    (h : run.Makes (.statement (.var name (some e))) state made) :
    made = (.expression e, state) := by
  rcases Routine.makes_bind.1 h with h | ⟨start, reached, -, h⟩
  · exact Routine.makes_call.1 h
  · rcases Routine.makes_bind.1 h with h | ⟨_, last, -, h⟩
    · exact absurd h Routine.not_makes_modify
    · exact absurd h Routine.not_makes_pure

/-- The innermost frame has only variables that the scope declares before a place. -/
def Place.Limits (place : Place) (state : State) : Prop :=
  ∀ frame ∈ state.environment.head?, ∀ scope ∈ place.scopes.head?,
    ∀ name, state.store.Binds frame name → name ∈ scope.before

section Limits

variable {run : Run} {past runs : List Run} {place : Place} {code : Code} {state : State}

/-- What is added to the innermost frame on the way has been declared before. -/
theorem Place.Limits.adds {names : String → Prop} {declared : List String} {reached : State}
    (h : place.Limits state) (hsees : Sees runs state.store state.environment place.scopes)
    (hadds : state.Adds names reached) (hnames : ∀ name, names name → name ∈ declared) :
    (place.declaring declared).Limits reached := by
  intro frame hframe scope hscope name hbinds
  rw [hadds.environment] at hframe
  obtain ⟨scopes, inFunction, initializes⟩ := place
  obtain ⟨frames, henvironment, hfits⟩ := hsees
  cases hfits with
  | nil => cases hscope
  | @cons first scope frames scopes hfirst _ =>
    rw [henvironment] at hframe
    cases hframe
    cases hscope
    rcases hadds.binds frame name hbinds hfirst.lt_size with hold | ⟨-, hnew⟩
    · refine List.mem_append_right _ (h frame ?_ scope rfl name hold)
      rw [henvironment]
      rfl
    · exact List.mem_append_left _ (hnames name hnew)

/-- In the scope that it is executed in, code never sees what is declared only after it. -/
theorem Moment.limits (h : Moment runs place code state)
    (hbegun : ∀ run past, runs = run :: past → Begun run past) : place.Limits state := by
  induction h with
  | program hmakes => exact fun frame _ scope hscope => by cases hscope
  | @part run past p p' code state made h hmakes hpart ih =>
    have hlimits := ih hbegun
    have hrun := hbegun run past rfl
    have hsees := hrun.sees h
    have hwf := (hrun.wellFormed_code h).1
    have hsame : (∀ ss, made.1 ≠ .body ss) → code.declared = [] → p.Limits made.2 := by
      intro hnot hnone
      rcases Code.adds_of_makes hmakes with ⟨ss, hbody⟩ | hadds
      · exact absurd hbody (hnot ss)
      · rw [← p.declaring_nil]
        exact hlimits.adds hsees hadds fun name hname => hnone ▸ hname hwf
    obtain ⟨code', state'⟩ := made
    cases hpart with
    | block =>
      cases Run.makes_block.1 hmakes
      intro frame hframe scope hscope name hbinds
      cases hframe
      have hold := (State.binds_enter _).1 hbinds
      exact absurd hold.lt_size (Nat.lt_irrefl _)
    | functionBody => exact absurd hmakes Run.not_makes_function
    | initializer =>
      cases Run.makes_var hmakes
      exact hlimits
    | firstStatement =>
      rcases Run.makes_body hmakes with hmade | ⟨reached, -, hmade⟩
      · cases hmade
        exact hlimits
      · cases hmade
    | otherStatements =>
      rcases Run.makes_body hmakes with hmade | ⟨reached, hanswers, hmade⟩
      · cases hmade
      · cases hmade
        exact hlimits.adds hsees (Code.adds_of_ends hanswers) fun name hname => hname hwf.1
    | _ => exact hsame (fun ss hbody => by cases hbody) rfl
  | @call run past runs p q callee paren es state state₀ state' reached declaration h hdeclared
      hruns hcallee hmakes hbefore ih ihDeclared =>
    obtain ⟨passed, last, -, -, rfl⟩ := Run.makes_invocation hcallee hmakes
    intro frame hframe scope hscope name hbinds
    rw [State.environment_beginCall] at hframe
    cases hframe
    cases hscope
    rcases State.binds_beginCall.1 hbinds with hold | ⟨-, hname⟩
    · exact absurd hold.lt_size (Nat.lt_irrefl _)
    · obtain ⟨argument, hargument, rfl⟩ := List.mem_map.1 hname
      exact List.mem_map_of_mem (List.of_mem_zip hargument).1

end Limits

/-! ## The frame at a depth -/

/-- Where frames and scopes go together, the frame at the depth of a name has the variable. -/
theorem exists_drop_of_findIdx? {store : Store} {frames : List FrameId} {scopes : List LocalScope}
    {name : String} {depth : Nat} (rest : Environment)
    (hall : List.Forall₂ (fun frame scope => ∀ name ∈ scope.before, store.Binds frame name) frames
      scopes)
    (hdepth : (scopes.findIdx? fun scope => name ∈ scope.before) = some depth) :
    ∃ frame outer, (frames ++ rest).drop depth = frame :: outer ∧ store.Binds frame name := by
  induction hall generalizing depth with
  | nil => cases hdepth
  | @cons frame scope frames scopes hfirst _ ih =>
    rw [List.findIdx?_cons] at hdepth
    split at hdepth
    · rename_i hbefore
      cases hdepth
      exact ⟨frame, frames ++ rest, rfl, hfirst name (of_decide_eq_true hbefore)⟩
    · obtain ⟨depth', hdepth', rfl⟩ := Option.map_eq_some_iff.1 hdepth
      exact ih hdepth'

/-- The frame at the depth of a name has the variable, unless the place awaits it. -/
theorem Sees.exists_frame {runs : List Run} {store : Store} {environment : Environment}
    {place : Place} {name : String} {depth : Nat} (h : Sees runs store environment place.scopes)
    (hdepth : place.depthOf? name = some depth) (hnot : ¬ place.Awaits name) :
    ∃ frame outer, environment.drop depth = frame :: outer ∧ store.Binds frame name := by
  obtain ⟨frames, rfl, hfits⟩ := h
  rw [Place.depthOf?_eq_findIdx? hnot] at hdepth
  exact exists_drop_of_findIdx? Store.globals (hfits.imp fun _ _ hfits => hfits.binds) hdepth

theorem Store.lookup_error {store : Store} {environment : Environment} {name : Token}
    {fault : Fault} (h : store.lookup environment name = .error fault) :
    fault = ⟨name, .undefinedVariable name.lexeme⟩ := by
  unfold lookup at h
  split at h
  · cases h
  · cases h
    rfl

/-- Within a scope there is an innermost frame. -/
theorem Sees.exists_head {runs : List Run} {store : Store} {environment : Environment}
    {scopes : List LocalScope} {scope : LocalScope} (h : Sees runs store environment scopes)
    (hscope : scope ∈ scopes.head?) : ∃ frame outer, environment = frame :: outer := by
  obtain ⟨frames, rfl, hfits⟩ := h
  cases hfits with
  | nil => cases hscope
  | cons _ _ => exact ⟨_, _, rfl⟩

section Lookup

variable {runs : List Run} {setting : Setting} {state : State} {place : Place} {id : AccessId}
  {name : Token}

/-- An access finds its variable, unless the variable does not exist or is awaited. -/
theorem State.lookup_error {fault : Fault}
    (hsees : Sees runs state.store state.environment place.scopes)
    (hdepth : setting.config.useResolver = true →
      setting.depths[id]? = place.depthOf? name.lexeme)
    (h : state.lookup setting id name = .error fault) :
    fault = ⟨name, .undefinedVariable name.lexeme⟩ ∨
      (setting.config.useResolver = true ∧ place.Awaits name.lexeme ∧
        fault = ⟨name, .internal (.missingVariable 0 name.lexeme)⟩) := by
  unfold lookup at h
  split at h
  · rename_i hresolver
    rw [hdepth hresolver] at h
    split at h
    · rename_i depth hfound
      by_cases hawaits : place.Awaits name.lexeme
      · rw [hawaits.depthOf?] at hfound
        cases hfound
        obtain ⟨scope, hscope, -⟩ := hawaits.2
        obtain ⟨frame, outer, henvironment⟩ := hsees.exists_head hscope
        rw [henvironment] at h
        by_cases hbinds : state.store.Binds frame name.lexeme
        · obtain ⟨value, hvalue⟩ := Option.isSome_iff_exists.1 hbinds
          rw [Store.lookupAt_eq_ok List.drop_zero hvalue] at h
          cases h
        · rw [Store.lookupAt_zero hbinds] at h
          cases h
          exact .inr ⟨hresolver, hawaits, rfl⟩
      · obtain ⟨frame, outer, hdrop, hbinds⟩ := hsees.exists_frame hfound hawaits
        obtain ⟨value, hvalue⟩ := Option.isSome_iff_exists.1 hbinds
        rw [Store.lookupAt_eq_ok hdrop hvalue] at h
        cases h
    · exact .inl (Store.lookup_error h)
  · exact .inl (Store.lookup_error h)

/-- A variable that is awaited is not found by its depth. -/
theorem State.lookup_of_awaits
    (hsees : Sees runs state.store state.environment place.scopes) (hlimits : place.Limits state)
    (hresolver : setting.config.useResolver = true)
    (hdepth : setting.depths[id]? = place.depthOf? name.lexeme)
    (hawaits : place.Awaits name.lexeme) :
    state.lookup setting id name = .error ⟨name, .internal (.missingVariable 0 name.lexeme)⟩ := by
  have hdepthOf := hawaits.depthOf?
  obtain ⟨-, scope, hscope, hbefore⟩ := hawaits
  obtain ⟨frame, outer, henvironment⟩ := hsees.exists_head hscope
  have hbinds : ¬ state.store.Binds frame name.lexeme := by
    intro hbinds
    apply hbefore
    apply hlimits frame _ scope hscope _ hbinds
    rw [henvironment]
    rfl
  unfold lookup
  rw [if_pos hresolver, hdepth, hdepthOf, henvironment]
  exact Store.lookupAt_zero hbinds

end Lookup

/-! ## By depth and by name -/

namespace Store

variable {store : Store} {frame : FrameId} {environment : Environment} {name : Token}

/-- Where the frames go together with the scopes around, a variable is the same by depth and by
name, if no scope nearer than that at the depth declares the name at all. -/
theorem lookupAt_eq_lookup {frames : List FrameId} {scopes : List LocalScope} (rest : Environment)
    (hall : List.Forall₂ (fun frame scope => (∀ name, store.Binds frame name → name ∈ scope.names) ∧
      ∀ name ∈ scope.before, store.Binds frame name) frames scopes)
    (hdeclared : (scopes.findIdx? fun scope => name.lexeme ∈ scope.before) =
      scopes.findIdx? fun scope => name.lexeme ∈ scope.names) :
    (scopes.findIdx? fun scope => name.lexeme ∈ scope.before).elim (store.lookup rest name)
        (fun depth => store.lookupAt (frames ++ rest) depth name) =
      store.lookup (frames ++ rest) name := by
  induction hall with
  | nil => rfl
  | @cons frame scope frames scopes hfirst hall ih =>
    rw [List.findIdx?_cons, List.findIdx?_cons] at hdeclared
    rw [List.findIdx?_cons]
    by_cases hbefore : name.lexeme ∈ scope.before
    · obtain ⟨value, hvalue⟩ := Option.isSome_iff_exists.1 (hfirst.2 _ hbefore)
      have hhere : (frame :: (frames ++ rest)).drop 0 = frame :: (frames ++ rest) := List.drop_zero
      rw [if_pos (decide_eq_true hbefore), List.cons_append, lookup_cons, hvalue]
      exact lookupAt_eq_ok hhere hvalue
    · rw [if_neg fun h => hbefore (of_decide_eq_true h)] at hdeclared ⊢
      have hnames : name.lexeme ∉ scope.names := by
        intro hname
        rw [if_pos (decide_eq_true hname)] at hdeclared
        obtain ⟨depth, -, hdepth⟩ := Option.map_eq_some_iff.1 hdeclared
        cases hdepth
      rw [if_neg fun h => hnames (of_decide_eq_true h)] at hdeclared
      have ih := ih (Option.map_injective (fun _ _ => Nat.succ.inj) hdeclared)
      rw [List.cons_append, lookup_cons_of_not_binds fun hbinds => hnames (hfirst.1 _ hbinds), ← ih]
      cases hdepth : scopes.findIdx? fun scope => name.lexeme ∈ scope.before with
      | none => rfl
      | some depth =>
        obtain ⟨found, outer, hdrop, hbinds⟩ := exists_drop_of_findIdx? rest
          (hall.imp fun _ _ hfits => hfits.2) hdepth
        obtain ⟨value, hvalue⟩ := Option.isSome_iff_exists.1 hbinds
        have hnext : (frame :: (frames ++ rest)).drop (depth + 1) = found :: outer := hdrop
        exact (lookupAt_eq_ok hnext hvalue).trans (lookupAt_eq_ok hdrop hvalue).symm

end Store

/-- Where the depth of an access is that of the innermost scope that declares the name at all, the
variable is found by name, whichever way is taken. -/
theorem Place.Corresponds.lookup_eq {setting : Setting} {state : State} {place : Place}
    {id : AccessId} {name : Token} (h : place.Corresponds state)
    (hdepth : setting.config.useResolver = true →
      setting.depths[id]? = place.depthOf? name.lexeme)
    (hnot : ¬ place.Awaits name.lexeme)
    (howner : place.depthOf? name.lexeme = place.owner? name.lexeme) :
    state.lookup setting id name = state.store.lookup state.environment name := by
  unfold State.lookup
  split
  · rename_i hresolver
    obtain ⟨frames, henvironment, hall⟩ := h
    rw [Place.depthOf?_eq_findIdx? hnot] at howner
    have hlookup := Store.lookupAt_eq_lookup Store.globals hall howner
    rw [hdepth hresolver, Place.depthOf?_eq_findIdx? hnot, henvironment, ← hlookup]
    split
    · rename_i depth hfound
      rw [hfound]
      rfl
    · rename_i hfound
      rw [hfound]
      rfl
  · rfl

end Lox
