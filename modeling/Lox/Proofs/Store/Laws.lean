/-
# Laws of the frames

A store is built by making frames, around everything or inside others, by declaring variables in
them, and by assigning to variables by name or by depth; each operation refers to a frame by a
handle, which is the list of the frames that can be seen from there. `Built` says which stores and
handles come about in this way, from no frames at all, whatever the operations are and whether or
not they succeed.

The handles are chains: what stands behind a frame in any of them is the same, and has a smaller
number, so that a search along a handle ends (`Framed`). The search finds the first frame with the
variable, which makes access by name the same as access by the least depth that has it. What
assignment changes, and for whom, follows from there being one frame that it changes (`Rebinds`).
-/

import Lox.Proofs.Execution.Growth
import Lox.Proofs.Execution.Links

namespace Lox

namespace Store

/-! ## Stores that are built -/

/-- What can be done with frames. -/
inductive Operation where
  /-- Make a frame inside none. -/
  | global
  /-- Make a frame inside another. -/
  | child (parent : Environment)
  | define (handle : Environment) (name : String) (value : Value)
  | get (handle : Environment) (name : Token)
  | assign (handle : Environment) (name : Token) (value : Value)
  | ancestor (handle : Environment) (depth : Nat) (name : Token)
  | getAt (handle : Environment) (depth : Nat) (name : Token)
  | assignAt (handle : Environment) (depth : Nat) (name : Token) (value : Value)

/-- The handle that an operation is done with. -/
def Operation.handle? : Operation → Option Environment
  | global => none
  | child handle | define handle _ _ | get handle _ | assign handle _ _ | ancestor handle _ _
  | getAt handle _ _ | assignAt handle _ _ _ => some handle

/-- What comes of an operation that succeeds. -/
inductive Answer where
  /-- A handle: of a new frame, or of one that is around another. -/
  | frame (handle : Environment)
  /-- The value of a variable. -/
  | value (value : Value)
  | done

/-- The handle that comes of an operation. -/
def Answer.handle? : Except Fault Answer → Option Environment
  | .ok (.frame handle) => some handle
  | _ => none

/-- The store after an operation that may fail: where it does, the one from before. -/
def settle (store : Store) : Except Fault Store → Except Fault Answer × Store
  | .ok after => (.ok .done, after)
  | .error fault => (.error fault, store)

/-- Do an operation. -/
def perform (store : Store) : Operation → Except Fault Answer × Store
  | .global => (.ok (.frame (store.child []).1), (store.child []).2)
  | .child parent => (.ok (.frame (store.child parent).1), (store.child parent).2)
  | .define handle name value => (.ok .done, store.define handle name value)
  | .get handle name => ((store.get handle name).map .value, store)
  | .assign handle name value => store.settle (store.assign handle name value)
  | .ancestor handle depth name => ((Store.ancestor handle depth name).map .frame, store)
  | .getAt handle depth name => ((store.getAt handle depth name).map .value, store)
  | .assignAt handle depth name value => store.settle (store.assignAt handle depth name value)

/-- The stores that come of operations, one after another, each with a handle that came of one
before. -/
inductive Built : Store → List Environment → Prop
  | empty (functions : Nat) : Built ⟨#[], functions⟩ []
  | step {store : Store} {handles : List Environment} (operation : Operation)
      (before : Built store handles) (known : ∀ handle ∈ operation.handle?, handle ∈ handles) :
      Built (store.perform operation).2
        ((Answer.handle? (store.perform operation).1).toList ++ handles)

/-! ## Handles are chains -/

/-- Every handle is the chain of frames around its first one, and frames are inside older ones. -/
structure Framed (links : Links) (store : Store) (handles : List Environment) : Prop where
  /-- A frame is inside one that was there before. -/
  outward : ∀ frame outer, links frame = some outer → outer < frame
  /-- No handle is empty. -/
  nonempty : ∀ handle ∈ handles, handle ≠ []
  /-- The frames of a handle are inside each other, up to one that is inside none. -/
  follows : ∀ handle ∈ handles, Environment.Follows links store.frames.size handle

namespace Framed

variable {links : Links} {store after : Store} {handles : List Environment}

/-- Another store with as many frames has the same handles. -/
theorem of_size (h : Framed links store handles)
    (hsize : after.frames.size = store.frames.size) : Framed links after handles :=
  ⟨h.outward, h.nonempty, by rw [hsize]; exact h.follows⟩

/-- A new frame inside those of a handle, or inside none. -/
theorem child {parent : Environment} (h : Framed links store handles)
    (hparent : Environment.Follows links store.frames.size parent) :
    Framed (links.link store.frames.size parent.head?) (store.child parent).2
      ((store.child parent).1 :: handles) := by
  have hextends := links.extends_link store.frames.size parent.head?
  have hsize : (store.child parent).2.frames.size = store.frames.size + 1 := Array.size_push _
  refine ⟨?_, ?_, ?_⟩
  · intro frame outer hlink
    unfold Links.link at hlink
    split at hlink
    · rename_i hframe
      subst hframe
      cases parent with
      | nil => cases hlink
      | cons first rest =>
        cases hlink
        exact hparent.1
    · exact h.outward frame outer hlink
  · intro handle hmem
    rcases List.mem_cons.1 hmem with rfl | hmem
    · exact List.cons_ne_nil _ _
    · exact h.nonempty handle hmem
  · intro handle hmem
    rw [hsize]
    rcases List.mem_cons.1 hmem with rfl | hmem
    · exact ⟨Nat.lt_succ_self _, if_pos rfl, hparent.mono hextends⟩
    · exact (h.follows handle hmem).mono hextends

/-- What is around a frame of a handle is a handle too. -/
theorem drop {handle : Environment} {depth : Nat} (h : Framed links store handles)
    (hmem : handle ∈ handles) (hdrop : handle.drop depth ≠ []) :
    Framed links store (handle.drop depth :: handles) := by
  have hfollows : ∀ (depth : Nat) (handle : Environment),
      Environment.Follows links store.frames.size handle →
        Environment.Follows links store.frames.size (handle.drop depth) := by
    intro depth
    induction depth with
    | zero => exact fun handle hfollows => hfollows
    | succ depth ih =>
      intro handle hfollows
      cases handle with
      | nil => exact hfollows
      | cons first rest => exact ih rest hfollows.2.2
  refine ⟨h.outward, ?_, ?_⟩
  · intro other hother
    rcases List.mem_cons.1 hother with rfl | hother
    · exact hdrop
    · exact h.nonempty other hother
  · intro other hother
    rcases List.mem_cons.1 hother with rfl | hother
    · exact hfollows depth handle (h.follows handle hmem)
    · exact h.follows other hother

/-- Along a handle the numbers of the frames go down: no frame comes twice, and none is around
itself. -/
theorem pairwise (h : Framed links store handles) {handle : Environment}
    (hmem : handle ∈ handles) : handle.Pairwise (· > ·) := by
  have hfollows := h.follows handle hmem
  clear hmem
  induction handle with
  | nil => exact .nil
  | cons first rest ih =>
    obtain ⟨-, hlink, hrest⟩ := hfollows
    have hpairwise := ih hrest
    refine List.pairwise_cons.2 ⟨?_, hpairwise⟩
    cases rest with
    | nil => exact fun _ hother => by cases hother
    | cons second rest =>
      have hless := h.outward first second hlink
      intro other hother
      rcases List.mem_cons.1 hother with rfl | hother
      · exact hless
      · exact Nat.lt_trans ((List.pairwise_cons.1 hpairwise).1 other hother) hless

/-- A handle is known by its first frame. -/
theorem eq_of_head?_eq (h : Framed links store handles) {handle other : Environment}
    (hmem : handle ∈ handles) (hother : other ∈ handles) (hhead : handle.head? = other.head?) :
    handle = other := by
  have hfollows := h.follows handle hmem
  have hfollows' := h.follows other hother
  clear hmem hother
  induction handle generalizing other with
  | nil => exact (List.head?_eq_none_iff.1 hhead.symm).symm
  | cons first rest ih =>
    cases other with
    | nil => cases hhead
    | cons first' rest' =>
      cases hhead
      have hrest : rest.head? = rest'.head? := hfollows.2.1.symm.trans hfollows'.2.1
      rw [ih hrest hfollows.2.2 hfollows'.2.2]

end Framed

variable {store after : Store} {handles : List Environment}

theorem size_define {environment : Environment} {name : String} {value : Value} :
    (store.define environment name value).frames.size = store.frames.size := by
  cases environment with
  | nil => rfl
  | cons frame _ => exact size_insert

/-- Assigning by name changes the variable that is found by name. -/
theorem assign_eq_ok_iff {environment : Environment} {name : Token} {value : Value} :
    store.assign environment name value = .ok after ↔
      ∃ found, store.lookup environment name = .ok found ∧
        store.insert found.1 name.lexeme value = after := by
  unfold assign
  cases store.lookup environment name <;> simp [Except.map]

/-- Assigning by depth changes the variable that is found by depth. -/
theorem assignAt_eq_ok_iff {environment : Environment} {depth : Nat} {name : Token}
    {value : Value} :
    store.assignAt environment depth name value = .ok after ↔
      ∃ found, store.lookupAt environment depth name = .ok found ∧
        store.insert found.1 name.lexeme value = after := by
  unfold assignAt
  cases store.lookupAt environment depth name <;> simp [Except.map]

theorem ancestor_eq_ok_iff {environment outer : Environment} {depth : Nat} {name : Token} :
    Store.ancestor environment depth name = .ok outer ↔
      environment.drop depth = outer ∧ outer ≠ [] := by
  unfold Store.ancestor
  cases environment.drop depth with
  | nil =>
    constructor
    · intro h
      cases h
    · rintro ⟨rfl, hnot⟩
      exact absurd rfl hnot
  | cons frame rest =>
    rw [Except.ok.injEq]
    constructor
    · rintro rfl
      exact ⟨rfl, List.cons_ne_nil _ _⟩
    · exact And.left

/-- The way out of the frames is blocked just where they end. -/
theorem ancestor_eq_error_iff {environment : Environment} {depth : Nat} {name : Token} :
    Store.ancestor environment depth name =
        .error ⟨name, .internal (.pastOutermostFrame depth name.lexeme)⟩ ↔
      environment.length ≤ depth := by
  rw [← List.drop_eq_nil_iff]
  unfold Store.ancestor
  cases environment.drop depth <;> simp

/-- The way out is one way, in one go or in two. -/
theorem ancestor_add {environment outer : Environment} {inner depth : Nat} {name : Token} :
    Store.ancestor environment (inner + depth) name = .ok outer ↔
      ∃ between, Store.ancestor environment inner name = .ok between ∧
        Store.ancestor between depth name = .ok outer := by
  simp only [ancestor_eq_ok_iff, ← List.drop_drop]
  constructor
  · rintro ⟨rfl, hne⟩
    refine ⟨_, ⟨rfl, ?_⟩, rfl, hne⟩
    intro hnil
    rw [hnil, List.drop_nil] at hne
    exact hne rfl
  · rintro ⟨between, ⟨rfl, -⟩, rfl, hne⟩
    exact ⟨rfl, hne⟩

/-- An operation that fails leaves everything as it was. -/
theorem perform_of_error {operation : Operation} {fault : Fault}
    (h : (store.perform operation).1 = .error fault) : (store.perform operation).2 = store := by
  have hsettle : ∀ result : Except Fault Store, (store.settle result).1 = .error fault →
      (store.settle result).2 = store := by
    intro result hresult
    cases result with
    | ok after => cases hresult
    | error fault => rfl
  cases operation with
  | global | child parent | define handle name value => cases h
  | get | getAt | ancestor => rfl
  | assign | assignAt => exact hsettle _ h

/-- The handles of a store that is built are chains. -/
theorem Built.exists_framed (h : Built store handles) : ∃ links, Framed links store handles := by
  induction h with
  | empty functions =>
    exact ⟨fun _ => none, by simp, List.forall_mem_nil _, List.forall_mem_nil _⟩
  | @step store handles operation before known ih =>
    obtain ⟨links, hframed⟩ := ih
    have hassigned : ∀ result : Except Fault Store,
        (∀ after, result = .ok after → after.frames.size = store.frames.size) →
          ∃ links, Framed links (store.settle result).2
            ((Answer.handle? (store.settle result).1).toList ++ handles) := by
      intro result hsize
      cases result with
      | ok after => exact ⟨links, hframed.of_size (hsize after rfl)⟩
      | error fault => exact ⟨links, hframed⟩
    have hread : ∀ result : Except Fault Value,
        (Answer.handle? (result.map .value)).toList ++ handles = handles := by
      intro result
      cases result <;> rfl
    cases operation with
    | global => exact ⟨_, hframed.child trivial⟩
    | child parent => exact ⟨_, hframed.child (hframed.follows parent (known parent rfl))⟩
    | define handle name value => exact ⟨links, hframed.of_size size_define⟩
    | get handle name =>
      have hhandles := hread (store.get handle name)
      exact ⟨links, hhandles.symm ▸ hframed⟩
    | getAt handle depth name =>
      have hhandles := hread (store.getAt handle depth name)
      exact ⟨links, hhandles.symm ▸ hframed⟩
    | ancestor handle depth name =>
      refine ⟨links, ?_⟩
      simp only [Store.perform]
      cases hancestor : Store.ancestor handle depth name with
      | error fault => exact hframed
      | ok outer =>
        obtain ⟨rfl, hne⟩ := ancestor_eq_ok_iff.1 hancestor
        exact hframed.drop (known handle rfl) hne
    | assign handle name value =>
      refine hassigned _ fun after h => ?_
      obtain ⟨found, -, rfl⟩ := assign_eq_ok_iff.1 h
      exact size_insert
    | assignAt handle depth name value =>
      refine hassigned _ fun after h => ?_
      obtain ⟨found, -, rfl⟩ := assignAt_eq_ok_iff.1 h
      exact size_insert

/-! ## The first frame with a variable -/

/-- The frame at a depth is the first of those in a handle that has a variable. -/
structure FirstBinds (store : Store) (handle : Environment) (name : String) (depth : Nat) :
    Prop where
  /-- The frame there has it. -/
  binds : ∃ frame, handle[depth]? = some frame ∧ store.Binds frame name
  /-- Those before it do not. -/
  before : ∀ d < depth, ∀ frame, handle[d]? = some frame → ¬ store.Binds frame name

section Lookup

variable {frame : FrameId} {environment outer : Environment} {name : Token} {depth : Nat}
  {value : Value}

theorem lookupAt_eq_ok (hdrop : environment.drop depth = frame :: outer)
    (hfind : store.find? frame name.lexeme = some value) :
    store.lookupAt environment depth name = .ok (frame, value) := by
  unfold lookupAt
  rw [hdrop]
  dsimp only
  rw [hfind]

/-- By depth, the frame there is looked at and no other. -/
theorem lookupAt_eq_ok_iff : store.lookupAt environment depth name = .ok (frame, value) ↔
    environment[depth]? = some frame ∧ store.find? frame name.lexeme = some value := by
  rw [← List.head?_drop]
  cases hdrop : environment.drop depth with
  | nil => simp [lookupAt, hdrop]
  | cons first rest =>
    rw [List.head?_cons, Option.some.injEq]
    constructor
    · intro h
      simp only [lookupAt, hdrop] at h
      split at h
      · rename_i hfind
        cases h
        exact ⟨rfl, hfind⟩
      · cases h
    · rintro ⟨rfl, hfind⟩
      exact lookupAt_eq_ok hdrop hfind

/-- In the innermost frame, a variable is found or missing. -/
theorem lookupAt_zero (hlacks : ¬ store.Binds frame name.lexeme) :
    store.lookupAt (frame :: outer) 0 name =
      .error ⟨name, .internal (.missingVariable 0 name.lexeme)⟩ := by
  have hnone : store.find? frame name.lexeme = none := Option.not_isSome_iff_eq_none.1 hlacks
  unfold lookupAt
  rw [List.drop_zero]
  dsimp only
  rw [hnone]

theorem lookup_cons (store : Store) (frame : FrameId) (environment : Environment) (name : Token) :
    store.lookup (frame :: environment) name =
      (store.find? frame name.lexeme).elim (store.lookup environment name)
        fun value => .ok (frame, value) := by
  unfold lookup
  rw [List.findSome?_cons]
  cases store.find? frame name.lexeme <;> rfl

/-- A frame that lacks a variable is passed by. -/
theorem lookup_cons_of_not_binds (h : ¬ store.Binds frame name.lexeme) :
    store.lookup (frame :: environment) name = store.lookup environment name := by
  rw [lookup_cons, Option.not_isSome_iff_eq_none.1 h]
  rfl

/-- Some frame has a variable just if one is the first to have it. -/
theorem exists_firstBinds_iff {name : String} :
    (∃ depth, FirstBinds store environment name depth) ↔
      ∃ frame ∈ environment, store.Binds frame name := by
  constructor
  · rintro ⟨depth, ⟨frame, hframe, hbinds⟩, -⟩
    exact ⟨frame, List.mem_of_getElem? hframe, hbinds⟩
  · rintro ⟨frame, hmem, hbinds⟩
    induction environment with
    | nil => cases hmem
    | cons first rest ih =>
      by_cases hfirst : store.Binds first name
      · exact ⟨0, ⟨first, rfl, hfirst⟩, fun d hd => absurd hd (Nat.not_lt_zero d)⟩
      obtain rfl | hmem := List.mem_cons.1 hmem
      · exact absurd hbinds hfirst
      obtain ⟨depth, hdepth⟩ := ih hmem
      refine ⟨depth + 1, hdepth.binds, fun d hd => ?_⟩
      cases d with
      | zero =>
        rintro other ⟨⟩
        exact hfirst
      | succ d => exact hdepth.before d (Nat.lt_of_succ_lt_succ hd)

/-- The first frame that has a variable is where it is found, by name and by depth. -/
theorem FirstBinds.exists_lookup (h : FirstBinds store environment name.lexeme depth) :
    ∃ found, store.lookup environment name = .ok found ∧
      store.lookupAt environment depth name = .ok found := by
  obtain ⟨⟨frame, hframe, hbinds⟩, hbefore⟩ := h
  obtain ⟨value, hvalue⟩ := Option.isSome_iff_exists.1 hbinds
  refine ⟨(frame, value), ?_, lookupAt_eq_ok_iff.2 ⟨hframe, hvalue⟩⟩
  induction environment generalizing depth with
  | nil => cases hframe
  | cons first rest ih =>
    cases depth with
    | zero =>
      cases hframe
      rw [lookup_cons, hvalue]
      rfl
    | succ depth =>
      rw [lookup_cons_of_not_binds (hbefore 0 (Nat.succ_pos depth) first rfl)]
      exact ih (fun d hd => hbefore (d + 1) (Nat.succ_lt_succ hd)) hframe

/-- Without such a frame the variable is not defined. -/
theorem lookup_of_not_binds (h : ¬ ∃ frame ∈ environment, store.Binds frame name.lexeme) :
    store.lookup environment name = .error ⟨name, .undefinedVariable name.lexeme⟩ := by
  induction environment with
  | nil => rfl
  | cons first rest ih =>
    rw [lookup_cons_of_not_binds fun hbinds => h ⟨first, List.mem_cons_self, hbinds⟩]
    exact ih fun ⟨frame, hmem, hbinds⟩ => h ⟨frame, List.mem_cons_of_mem _ hmem, hbinds⟩

/-- A variable is found by name just if some frame has it. -/
theorem exists_lookup_iff : (∃ found, store.lookup environment name = .ok found) ↔
    ∃ frame ∈ environment, store.Binds frame name.lexeme := by
  rw [← exists_firstBinds_iff]
  constructor
  · intro hfound
    refine exists_firstBinds_iff.2 (Classical.byContradiction fun hnot => ?_)
    obtain ⟨found, hfound⟩ := hfound
    rw [lookup_of_not_binds hnot] at hfound
    cases hfound
  · rintro ⟨depth, hdepth⟩
    obtain ⟨found, hfound, -⟩ := hdepth.exists_lookup
    exact ⟨found, hfound⟩

end Lookup

/-! ## What assignment changes -/

/-- One variable of one frame has got another value, and nothing else is different. -/
structure Rebinds (before : Store) (frame : FrameId) (name : String) (value : Value)
    (after : Store) : Prop where
  /-- The variable was there. -/
  bound : before.Binds frame name
  /-- There are no other frames than before. -/
  size : after.frames.size = before.frames.size
  /-- It has the value now. -/
  changed : after.find? frame name = some value
  /-- All other variables, of that frame and of others, are as they were. -/
  same : ∀ other name', ¬ (other = frame ∧ name' = name) →
    after.find? other name' = before.find? other name'

section Assignment

variable {frame : FrameId} {environment : Environment} {name other : Token} {value : Value}

theorem rebinds_insert (h : store.Binds frame name.lexeme) :
    store.Rebinds frame name.lexeme value (store.insert frame name.lexeme value) := by
  refine ⟨h, size_insert, ?_, fun other name' hother => ?_⟩
  · rw [find?_insert, if_pos ⟨rfl, rfl, h.lt_size⟩]
  · rw [find?_insert, if_neg fun hsame => hother ⟨hsame.1, hsame.2.1⟩]

/-- Assigning by name rebinds what is found by name. -/
theorem rebinds_of_assign (h : store.assign environment name value = .ok after) :
    ∃ frame old, store.lookup environment name = .ok (frame, old) ∧
      store.Rebinds frame name.lexeme value after := by
  obtain ⟨⟨frame, old⟩, hlookup, rfl⟩ := assign_eq_ok_iff.1 h
  have hbinds : store.Binds frame name.lexeme :=
    Option.isSome_iff_exists.2 ⟨old, find?_of_lookup hlookup⟩
  exact ⟨frame, old, hlookup, rebinds_insert hbinds⟩

namespace Rebinds

theorem binds_iff (h : store.Rebinds frame name.lexeme value after) {place : FrameId}
    {name' : String} : after.Binds place name' ↔ store.Binds place name' := by
  unfold Binds
  by_cases hsame : place = frame ∧ name' = name.lexeme
  · obtain ⟨rfl, rfl⟩ := hsame
    rw [h.changed]
    exact iff_of_true rfl h.bound
  · rw [h.same place name' hsame]

/-- The value is seen from everywhere where the search ends in the frame. -/
theorem lookup_changed (h : store.Rebinds frame name.lexeme value after) {old : Value}
    (hname : other.lexeme = name.lexeme)
    (hlookup : store.lookup environment other = .ok (frame, old)) :
    after.lookup environment other = .ok (frame, value) := by
  induction environment with
  | nil => cases hlookup
  | cons first rest ih =>
    by_cases hbinds : store.Binds first other.lexeme
    · obtain ⟨found, hfound⟩ := Option.isSome_iff_exists.1 hbinds
      rw [lookup_cons, hfound] at hlookup
      cases hlookup
      rw [lookup_cons, hname, h.changed]
      rfl
    · rw [lookup_cons_of_not_binds hbinds] at hlookup
      rw [lookup_cons_of_not_binds fun hafter => hbinds (h.binds_iff.1 hafter)]
      exact ih hlookup

/-- From everywhere else things look as before. -/
theorem lookup_same (h : store.Rebinds frame name.lexeme value after)
    (hother : ¬ (other.lexeme = name.lexeme ∧
      ∃ old, store.lookup environment other = .ok (frame, old))) :
    after.lookup environment other = store.lookup environment other := by
  induction environment with
  | nil => rfl
  | cons first rest ih =>
    by_cases hbinds : store.Binds first other.lexeme
    · obtain ⟨found, hfound⟩ := Option.isSome_iff_exists.1 hbinds
      have hfirst : after.find? first other.lexeme = store.find? first other.lexeme := by
        refine h.same first other.lexeme fun hsame => hother ⟨hsame.2, found, ?_⟩
        rw [lookup_cons, hfound, hsame.1]
        rfl
      rw [lookup_cons, lookup_cons, hfirst, hfound]
      rfl
    · rw [lookup_cons_of_not_binds hbinds] at hother ⊢
      rw [lookup_cons_of_not_binds fun hafter => hbinds (h.binds_iff.1 hafter)]
      exact ih hother

end Rebinds

end Assignment

/-! ## The laws -/

/-- What holds of one handle of a store, and of all names. -/
structure Lawful (store : Store) (handle : Environment) (name : Token) : Prop where
  /-- A variable can be read just if some frame has it. -/
  get_iff : (∃ value, store.get handle name = .ok value) ↔
    ∃ frame ∈ handle, store.Binds frame name.lexeme
  /-- So can it be assigned to. -/
  assign_iff : ∀ value, (∃ after, store.assign handle name value = .ok after) ↔
    ∃ frame ∈ handle, store.Binds frame name.lexeme
  /-- Then there is a least depth with it. -/
  least_iff : (∃ depth, FirstBinds store handle name.lexeme depth) ↔
    ∃ frame ∈ handle, store.Binds frame name.lexeme
  /-- At the least depth, reading by depth is reading by name. -/
  get_eq : ∀ depth, FirstBinds store handle name.lexeme depth →
    store.get handle name = store.getAt handle depth name
  /-- And assigning by depth is assigning by name. -/
  assign_eq : ∀ depth, FirstBinds store handle name.lexeme depth → ∀ value,
    store.assign handle name value = store.assignAt handle depth name value
  /-- Otherwise the variable is reported as undefined. -/
  undefined : ¬ (∃ frame ∈ handle, store.Binds frame name.lexeme) →
    store.get handle name = .error ⟨name, .undefinedVariable name.lexeme⟩ ∧
      ∀ value, store.assign handle name value = .error ⟨name, .undefinedVariable name.lexeme⟩
  /-- Assigning changes one variable of one frame, that in which the search ends. Whoever finds it
  there reads the new value, and all else reads as before. -/
  assign_effect : ∀ value after, store.assign handle name value = .ok after →
    ∃ frame old, store.lookup handle name = .ok (frame, old) ∧
      store.Rebinds frame name.lexeme value after ∧
      ∀ (other : Environment) (name' : Token),
        (name'.lexeme = name.lexeme ∧ (∃ old, store.lookup other name' = .ok (frame, old)) →
          after.get other name' = .ok value) ∧
        (¬ (name'.lexeme = name.lexeme ∧ ∃ old, store.lookup other name' = .ok (frame, old)) →
          after.get other name' = store.get other name')
  /-- The way out of the frames is one way, in one go or in two. -/
  ancestor_add : ∀ (inner depth : Nat) (outer : Environment),
    Store.ancestor handle (inner + depth) name = .ok outer ↔
      ∃ between, Store.ancestor handle inner name = .ok between ∧
        Store.ancestor between depth name = .ok outer
  /-- It is open as far as there are frames, -/
  ancestor_ok : ∀ depth, (∃ outer, Store.ancestor handle depth name = .ok outer) ↔
    depth < handle.length
  /-- and blocked where they end. -/
  ancestor_error : ∀ depth, Store.ancestor handle depth name =
      .error ⟨name, .internal (.pastOutermostFrame depth name.lexeme)⟩ ↔ handle.length ≤ depth

theorem lawful_handle (store : Store) (handle : Environment) (name : Token) :
    Lawful store handle name where
  get_iff := by
    rw [← exists_lookup_iff]
    unfold get
    cases store.lookup handle name <;> simp [Except.map]
  assign_iff value := by
    rw [← exists_lookup_iff]
    unfold assign
    cases store.lookup handle name <;> simp [Except.map]
  least_iff := exists_firstBinds_iff
  get_eq depth h := by
    obtain ⟨found, hname, hdepth⟩ := h.exists_lookup
    unfold get getAt
    rw [hname, hdepth]
  assign_eq depth h value := by
    obtain ⟨found, hname, hdepth⟩ := h.exists_lookup
    unfold assign assignAt
    rw [hname, hdepth]
  undefined h := by
    unfold get assign
    rw [lookup_of_not_binds h]
    exact ⟨rfl, fun _ => rfl⟩
  assign_effect value after h := by
    obtain ⟨frame, old, hlookup, hrebinds⟩ := rebinds_of_assign h
    refine ⟨frame, old, hlookup, hrebinds, fun other name' => ⟨?_, ?_⟩⟩
    · rintro ⟨hname, seen, hseen⟩
      unfold get
      rw [hrebinds.lookup_changed hname hseen]
      rfl
    · intro hother
      unfold get
      rw [hrebinds.lookup_same hother]
  ancestor_add _ _ _ := Store.ancestor_add
  ancestor_ok depth := by
    simp [ancestor_eq_ok_iff]
  ancestor_error _ := ancestor_eq_error_iff

/-- In a store that is built by any operations, handles are chains that end; accesses by name and by
depth agree on each of them, and an assignment changes one variable and is seen just by those who
find that variable; and no operation that fails changes anything. -/
theorem laws_of_built (h : Built store handles) :
    (∃ links, Framed links store handles) ∧
      (∀ handle ∈ handles, handle.Pairwise (· > ·) ∧
        ∀ other ∈ handles, handle.head? = other.head? → handle = other) ∧
      (∀ handle ∈ handles, ∀ name, Lawful store handle name) ∧
      ∀ operation fault, (store.perform operation).1 = .error fault →
        (store.perform operation).2 = store := by
  obtain ⟨links, hframed⟩ := h.exists_framed
  exact ⟨⟨links, hframed⟩,
    fun handle hmem => ⟨hframed.pairwise hmem, fun _ hother => hframed.eq_of_head?_eq hmem hother⟩,
    fun handle _ name => lawful_handle store handle name, fun _ _ => perform_of_error⟩

/-- A store with two blocks side by side. The variable of the first hides a global one, to which the
second one has assigned. -/
def sideBySide : Store :=
  let operations : List Operation :=
    [.global, .define [0] "x" .nil, .child [0], .define [1, 0] "x" (.bool true), .child [0],
      .assign [2, 0] ⟨.identifier, "x", none, 1⟩ (.bool false)]
  operations.foldl (fun store operation => (store.perform operation).2) ⟨#[], 0⟩

theorem built_sideBySide : Built sideBySide [[2, 0], [1, 0], [0]] := by
  have hglobal := (Built.empty 0).step .global (by simp [Operation.handle?])
  have hx := hglobal.step (.define [0] "x" .nil) (by rintro _ ⟨⟩; exact .head _)
  have hfirst := hx.step (.child [0]) (by rintro _ ⟨⟩; exact .head _)
  have hinner := hfirst.step (.define [1, 0] "x" (.bool true)) (by rintro _ ⟨⟩; exact .head _)
  have hsecond := hinner.step (.child [0]) (by rintro _ ⟨⟩; exact .tail _ (.head _))
  exact hsecond.step (.assign [2, 0] ⟨.identifier, "x", none, 1⟩ (.bool false))
    (by rintro _ ⟨⟩; exact .head _)

theorem laws_of_sideBySide :
    Built sideBySide [[2, 0], [1, 0], [0]] ∧
      (∃ links, Framed links sideBySide [[2, 0], [1, 0], [0]]) ∧
      (∀ handle ∈ [[2, 0], [1, 0], [0]], handle.Pairwise (· > ·) ∧
        ∀ other ∈ [[2, 0], [1, 0], [0]], handle.head? = other.head? → handle = other) ∧
      (∀ handle ∈ [[2, 0], [1, 0], [0]], ∀ name, Lawful sideBySide handle name) ∧
      ∀ operation fault, (sideBySide.perform operation).1 = .error fault →
        (sideBySide.perform operation).2 = sideBySide :=
  ⟨built_sideBySide, laws_of_built built_sideBySide⟩

example : sideBySide.get [0] ⟨.identifier, "x", none, 1⟩ = .ok (.bool false) ∧
    sideBySide.get [1, 0] ⟨.identifier, "x", none, 1⟩ = .ok (.bool true) := ⟨rfl, rfl⟩

end Store

end Lox
