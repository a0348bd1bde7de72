/-
# Frames that are missing, and values that see fewer frames

A program that is recast can do without some of the frames of the program that it comes from. So the
frames that stand for each other have different numbers, and the functions of the second program see
fewer frames than those of the first: the same without those that are missing. A flag for each frame
of the first program says whether it is missing in the second.

No program can tell such functions apart, whatever they do.
-/

import Lox.Proofs.CallTree.Similar
import Lox.Proofs.Scope.Recast
import Lox.Proofs.Value.Indistinct

namespace Lox

/-! ## Frames -/

/-- The number that a frame has where the frames that are flagged are missing. -/
def FrameId.thinned (flags : List Bool) (frame : FrameId) : FrameId :=
    (flags.take frame).count false

section Frames

variable {flags flags' : List Bool} {frame other : FrameId}

theorem FrameId.thinned_mono (hflags : flags <+: flags') (hframe : frame < flags.length) :
    FrameId.thinned flags' frame = FrameId.thinned flags frame := by
  obtain ⟨new, rfl⟩ := hflags
  unfold thinned
  rw [List.take_append_of_le_length (Nat.le_of_lt hframe)]

/-- Where no frame before it is missing, a frame keeps its number. -/
theorem FrameId.thinned_replicate {size : Nat} (h : List.replicate size false <+: flags)
    (hframe : frame ≤ size) : FrameId.thinned flags frame = frame := by
  obtain ⟨new, rfl⟩ := h
  unfold thinned
  rw [List.take_append_of_le_length (hframe.trans_eq List.length_replicate.symm),
    List.take_replicate, List.count_replicate_self, Nat.min_eq_left hframe]

/-- Frames that are not missing come in the same order. -/
theorem FrameId.thinned_lt (hframe : flags[frame]? = some false) (hlt : frame < other) :
    FrameId.thinned flags frame < FrameId.thinned flags other := by
  obtain ⟨hsize, hget⟩ := List.getElem?_eq_some_iff.1 hframe
  have hnext : (flags.take (frame + 1)).count false = (flags.take frame).count false + 1 := by
    rw [List.take_succ_eq_append_getElem hsize, hget, List.count_append]
    rfl
  have hle : (flags.take (frame + 1)).count false ≤ (flags.take other).count false :=
    (List.take_prefix_take_left hlt).sublist.count_le false
  rw [hnext] at hle
  exact hle

theorem FrameId.thinned_lt_count (hframe : flags[frame]? = some false) :
    FrameId.thinned flags frame < flags.count false := by
  have h := thinned_lt hframe (List.getElem?_eq_some_iff.1 hframe).1
  unfold thinned at h
  rwa [List.take_length] at h

/-- Frames that stand for the same frame are the same. -/
theorem FrameId.thinned_inj (hframe : flags[frame]? = some false)
    (hother : flags[other]? = some false) :
    FrameId.thinned flags frame = FrameId.thinned flags other ↔ frame = other := by
  refine ⟨fun heq => ?_, congrArg _⟩
  rcases Nat.lt_trichotomy frame other with hlt | rfl | hlt
  · exact absurd heq (Nat.ne_of_lt (thinned_lt hframe hlt))
  · rfl
  · exact absurd heq (Nat.ne_of_gt (thinned_lt hother hlt))

end Frames

/-- The second environment is the first without the frames that are missing, which are marked, the
innermost first. -/
inductive Environment.Thinned (flags : List Bool) : List Bool → Environment → Environment → Prop
  | nil : Environment.Thinned flags [] [] []
  | kept {marks : List Bool} {frame : FrameId} {environment environment' : Environment}
      (hframe : flags[frame]? = some false)
      (h : Environment.Thinned flags marks environment environment') :
      Environment.Thinned flags (false :: marks) (frame :: environment)
        (frame.thinned flags :: environment')
  | missing {marks : List Bool} {frame : FrameId} {environment environment' : Environment}
      (hframe : flags[frame]? = some true)
      (h : Environment.Thinned flags marks environment environment') :
      Environment.Thinned flags (true :: marks) (frame :: environment) environment'

namespace Environment.Thinned

variable {flags flags' marks : List Bool} {environment environment' : Environment}

theorem mono (h : environment.Thinned flags marks environment') (hflags : flags <+: flags') :
    environment.Thinned flags' marks environment' := by
  have hget : ∀ {frame : FrameId} {flag : Bool}, flags[frame]? = some flag →
      flags'[frame]? = some flag := by
    intro frame flag hframe
    obtain ⟨new, rfl⟩ := hflags
    rw [List.getElem?_append_left (List.getElem?_eq_some_iff.1 hframe).1, hframe]
  induction h with
  | nil => exact .nil
  | kept hframe _ ih =>
    rw [← FrameId.thinned_mono hflags (List.getElem?_eq_some_iff.1 hframe).1]
    exact .kept (hget hframe) ih
  | missing hframe _ ih => exact .missing (hget hframe) ih

/-- As many frames are nearer to a depth as are missing up to it. -/
theorem drop (h : environment.Thinned flags marks environment') {depth depth' : Nat}
    (hmark : marks[depth]? ≠ some true) (hdepth : depth = depth' + (marks.take depth).count true) :
    environment.drop depth = [] ∧ environment'.drop depth' = [] ∨
      ∃ frame outer outer', flags[frame]? = some false ∧
        environment.drop depth = frame :: outer ∧
        environment'.drop depth' = frame.thinned flags :: outer' := by
  induction h generalizing depth depth' with
  | nil => exact .inl ⟨List.drop_nil, List.drop_nil⟩
  | @kept marks frame environment environment' hframe _ ih =>
    cases depth with
    | zero =>
      obtain rfl : depth' = 0 := by omega
      exact .inr ⟨frame, environment, environment', hframe, rfl, rfl⟩
    | succ depth =>
      rw [List.take_succ_cons, List.count_cons_of_ne Bool.false_ne_true] at hdepth
      cases depth' with
      | zero =>
        have hle : (marks.take depth).count true ≤ (marks.take depth).length := List.count_le_length
        rw [List.length_take] at hle
        omega
      | succ depth' => exact ih hmark (by omega)
  | missing hframe _ ih =>
    cases depth with
    | zero => exact absurd rfl hmark
    | succ depth =>
      rw [List.take_succ_cons, List.count_cons_self] at hdepth
      exact ih hmark (by omega)

/-- Where no frame is missing, an environment stands for itself. -/
theorem refl {size : Nat} (henvironment : ∀ frame ∈ environment, frame < size) :
    environment.Thinned (List.replicate size false) (List.replicate environment.length false)
      environment := by
  induction environment with
  | nil => exact .nil
  | cons frame environment ih =>
    obtain ⟨hframe, hothers⟩ := List.forall_mem_cons.1 henvironment
    have hkept := @Thinned.kept _ _ frame _ _ (List.getElem?_replicate_of_lt hframe) (ih hothers)
    rwa [FrameId.thinned_replicate (List.prefix_refl _) (Nat.le_of_lt hframe)] at hkept

end Environment.Thinned

/-! ## Values -/

section Relations

variable (r : Recasting) (flags : List Bool)

/-- Two things to be called that are the same, or functions of which the second has the body of the
first recast and sees the same frames without those that are missing. -/
inductive Callable.Recast : Callable → Callable → Prop
  | function {name : Token} {parameters : List Token} {body body' : List Stmt}
      {closure closure' : Environment} {marks : List Bool}
      (hclosure : closure.Thinned flags marks closure')
      (hbody : Stmt.AllRecast r (false :: marks) body body') :
      Callable.Recast (.function ⟨name, parameters, body⟩ closure)
        (.function ⟨name, parameters, body'⟩ closure')
  | builtin {builtin : Builtin} : Callable.Recast (.builtin builtin) (.builtin builtin)

/-- Two values that are the same data, or the same function recast. -/
inductive Value.Recast : Value → Value → Prop
  | data {value : Value} (h : value.IsData) : Value.Recast value value
  | callable {identity : Nat} {called called' : Callable} (h : called.Recast r flags called') :
      Value.Recast (.callable identity called) (.callable identity called')

end Relations

variable {r r' : Recasting} {flags flags' : List Bool}

namespace Callable.Recast

variable {called called' : Callable} (h : called.Recast r flags called')
include h

theorem name_eq : called.name = called'.name := by
  cases h <;> rfl

theorem arity_eq : called.arity = called'.arity := by
  cases h <;> rfl

theorem display_eq : called.display = called'.display := by
  cases h <;> rfl

theorem mono (hr : r.Within r') (hflags : flags <+: flags') : called.Recast r' flags' called' := by
  cases h with
  | function hclosure hbody =>
    exact .function (hclosure.mono hflags) (hbody.mono hr)
  | builtin => exact .builtin

end Callable.Recast

namespace Value.Recast

variable {value value' : Value}

theorem nil : Value.Recast r flags .nil .nil := .data nofun

theorem indistinct (h : value.Recast r flags value') : value.Indistinct value' := by
  cases h with
  | data hdata => exact .data hdata
  | callable h => exact .callable h.display_eq

theorem mono (h : value.Recast r flags value') (hr : r.Within r') (hflags : flags <+: flags') :
    value.Recast r' flags' value' := by
  cases h with
  | data hdata => exact .data hdata
  | callable h => exact .callable (h.mono hr hflags)

end Value.Recast

end Lox
